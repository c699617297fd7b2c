import ShaderBinary.Layout.Matcher

/-!
# Checking the layout of a module

`check` decides whether a sequence of categories is the layout of a module, according to this
grammar:

    module       ::=  preamble* MemoryModel entryPoint+ annotation* declaration* function*
    preamble     ::=  Preamble | Debug
    entryPoint   ::=  EntryPoint ExecutionMode+
    annotation   ::=  Debug | Annotation
    declaration  ::=  Declaration | Debug
    function     ::=  Function FunctionParameter* block+ FunctionEnd
    block        ::=  Label (Body | Declaration | Debug)* Terminator

The memory model is counted first, so that a missing or repeated one is reported whatever else is
wrong. After that the sections are matched one after another. A function definition and a block are
committed to once their first category is seen, so that a violation inside of them points at the
category that cannot stand there.
-/

namespace ShaderBinary
namespace Layout

/-- The positions of the memory models in a sequence of categories, counted from `position`. -/
def memoryModelsFrom (position : Nat) : List Category → List Nat
  | [] => []
  | category :: later =>
    if category = .memoryModel then position :: memoryModelsFrom (position + 1) later
    else memoryModelsFrom (position + 1) later

section Sections

open Matcher

/-- Whether a category may stand before the memory model. -/
def beforeMemoryModel (category : Category) : Bool :=
  category = .preamble || category = .debug

/-- Whether a category may stand between the execution modes and the declarations. -/
def amongAnnotations (category : Category) : Bool :=
  category = .debug || category = .decoration

/-- Whether a category may stand between the annotations and the functions. -/
def amongDeclarations (category : Category) : Bool :=
  category = .declaration || category = .debug

variable (bound : Nat)

/-- What stands before the memory model. -/
def preamble : Matcher :=
  (single beforeMemoryModel).many bound

/-- An entry point with its execution modes. -/
def entryPoint : Matcher :=
  (one .entryPoint).andThen ((one .executionMode).many1 bound)

/-- The entry points. -/
def entryPoints : Matcher :=
  (entryPoint bound).many1 bound

/-- Debug instructions and annotations. -/
def annotations : Matcher :=
  (single amongAnnotations).many bound

/-- Declarations and debug instructions. -/
def declarations : Matcher :=
  (single amongDeclarations).many bound

/-- A block of a function. -/
def block : Matcher :=
  (one .label).andThen
    (((single Category.insideBlock).many bound).andThen (one .terminator)).committed

/-- A function definition. -/
def function : Matcher :=
  (one .function).andThen
    ((((one .functionParameter).many bound).andThen (block bound)).andThen
      (((block bound).many bound).andThen (one .functionEnd))).committed

/-- The function definitions. -/
def functions : Matcher :=
  (function bound).many bound

end Sections

/-- What is wrong where a section cannot start. `position` is where `left` starts. -/
def misplacedAt (position : Nat) : List Category → Violation
  | category :: _ => .misplaced position category
  | [] => .noEntryPoint position

/-- What is wrong where the first entry point should stand. `position` is where `left` starts. -/
def noEntryPointAt (position : Nat) (left : List Category) : Violation :=
  if left.head? = some .entryPoint then .noExecutionMode position else .noEntryPoint position

/-- Checks what follows the entry points. `length` is that of the whole sequence. -/
def checkAfterEntryPoints (length : Nat) (left : List Category) : Except Violation Unit :=
  let afterAnnotations := (annotations length left).leftOr left
  let afterDeclarations := (declarations length afterAnnotations).leftOr afterAnnotations
  match functions length afterDeclarations with
  | .broken place => .error (.brokenFunction (length - place.length) place.head?)
  | outcome =>
    let rest := outcome.leftOr afterDeclarations
    if rest.isEmpty then .ok () else .error (misplacedAt (length - rest.length) rest)

/-- Checks the sections of a sequence of the given length that has one memory model. -/
def checkSections (length : Nat) (categories : List Category) : Except Violation Unit :=
  let afterPreamble := (preamble length categories).leftOr categories
  match Matcher.one .memoryModel afterPreamble with
  | .matched afterModel =>
    match entryPoints length afterModel with
    | .matched left =>
      if left.head? = some .entryPoint then
        .error (.noExecutionMode (length - left.length))
      else checkAfterEntryPoints length left
    | _ => .error (noEntryPointAt (length - afterModel.length) afterModel)
  | _ => .error (misplacedAt (length - afterPreamble.length) afterPreamble)

/-- Succeeds if a sequence of categories is the layout of a module. -/
def check (categories : List Category) : Except Violation Unit :=
  let length := categories.length
  match memoryModelsFrom 0 categories with
  | [] =>
    let left := (preamble length categories).leftOr categories
    .error (.noMemoryModel (length - left.length))
  | _ :: second :: later => .error (.severalMemoryModels second (later.length + 2))
  | [_] => checkSections length categories

end Layout
end ShaderBinary
