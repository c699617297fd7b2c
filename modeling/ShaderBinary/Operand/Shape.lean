import ShaderBinary.Text.Quoted
import ShaderBinary.Word

/-!
# Operand shapes and their values

A `Shape` says how an operand is laid out in words. `Shape.Value` is the type of the operands of a
shape, so that no value can disagree with its shape, and every operation on operands is one
recursion on shapes.

* A word, an id, a selector and a mask take one word; a text takes as many as it needs.
* `optional` is present only if words remain, and `list` takes all that remain, so both normally
  stand at the end of an instruction.
* `pair` is one operand after another.

A selector and a mask keep the word they were read from even if no name is known for it: only
verification looks at the names.

`Shape.describe` is the text in which an operand is shown to a reader who wants to see all of it: names
where they are known, numbers where they are not, and brackets that show how values are nested.
-/

namespace ShaderBinary
namespace Operand

/-- Numbers with names, such as the storage classes. -/
structure Vocabulary where
  /-- What the names are names of. -/
  name : String
  /-- Each name with its number. No number occurs twice. -/
  entries : List (String × Word)
deriving DecidableEq

/-- The name of a number, if it has one. -/
def Vocabulary.nameOf? (vocabulary : Vocabulary) (raw : Word) : Option String :=
  (vocabulary.entries.find? fun entry => entry.2 == raw).map (·.1)

/-- Single bits with names, such as the hints on a function. -/
structure FlagSet where
  /-- What the flags are flags of. -/
  name : String
  /-- Each name with its bit. -/
  flags : List (String × Word)
deriving DecidableEq

/-- All bits that have a name. -/
def FlagSet.known (flagSet : FlagSet) : Word :=
  flagSet.flags.foldl (fun bits flag => bits ||| flag.2) 0

/-- A result, or a reference to one. -/
structure Id where
  number : Word
deriving DecidableEq

/-- A choice from a vocabulary, as the word it was read from. -/
structure Selector (vocabulary : Vocabulary) where
  raw : Word
deriving DecidableEq

/-- The name of what is selected, if the vocabulary lists it. -/
def Selector.name? {vocabulary : Vocabulary} (selector : Selector vocabulary) : Option String :=
  vocabulary.nameOf? selector.raw

/-- A set of flags, as the word it was read from. -/
structure Mask (flagSet : FlagSet) where
  bits : Word
deriving DecidableEq

/-- The bits of a mask that have no name. -/
def Mask.unknown {flagSet : FlagSet} (mask : Mask flagSet) : Word :=
  mask.bits &&& ~~~flagSet.known

/-- How an operand is laid out in words. -/
inductive Shape
  | word
  | id
  | text
  | selector (vocabulary : Vocabulary)
  | mask (flagSet : FlagSet)
  | optional (inner : Shape)
  | list (element : Shape)
  | pair (first second : Shape)
deriving DecidableEq

namespace Shape

/-- The operands of a shape. -/
@[reducible] def Value : Shape → Type
  | word => Word
  | id => Id
  | text => String
  | selector vocabulary => Selector vocabulary
  | mask flagSet => Mask flagSet
  | optional inner => Option inner.Value
  | list element => List element.Value
  | pair first second => first.Value × second.Value

/-- Operands of one shape can be compared, whatever the shape. -/
def decidableEqValue : (shape : Shape) → DecidableEq shape.Value
  | word => inferInstanceAs (DecidableEq Word)
  | id => inferInstanceAs (DecidableEq Id)
  | text => inferInstanceAs (DecidableEq String)
  | selector vocabulary => inferInstanceAs (DecidableEq (Selector vocabulary))
  | mask flagSet => inferInstanceAs (DecidableEq (Mask flagSet))
  | optional inner =>
    let _ := inner.decidableEqValue
    inferInstanceAs (DecidableEq (Option inner.Value))
  | list element =>
    let _ := element.decidableEqValue
    inferInstanceAs (DecidableEq (List element.Value))
  | pair first second =>
    let _ := first.decidableEqValue
    let _ := second.decidableEqValue
    inferInstanceAs (DecidableEq (first.Value × second.Value))

instance (shape : Shape) : DecidableEq shape.Value := decidableEqValue shape

end Shape

/-! ## Describing operands -/

/-- An id as it is written in assembly text. -/
def Id.label (id : Id) : String :=
  s!"%{id.number.toNat}"

/-- A selector by its name, or else by its number. -/
def Selector.label {vocabulary : Vocabulary} (selector : Selector vocabulary) : String :=
  selector.name?.getD (toString selector.raw.toNat)

/-- The names of the flags of a mask in the order of its flag set, then the bits without a name. An
empty mask is written as a number. -/
def Mask.parts {flagSet : FlagSet} (mask : Mask flagSet) : List String :=
  let named := (flagSet.flags.filter fun flag => mask.bits &&& flag.2 == flag.2).map (·.1)
  if mask.bits = 0 then [Text.hex 0]
  else if mask.unknown = 0 then named
  else named ++ [Text.hex mask.unknown.toNat]

/-- Texts between brackets, separated by commas. -/
def bracketed (left right : String) (shown : List String) : String :=
  left ++ String.intercalate ", " shown ++ right

/-- An operand in full. -/
def Shape.describe : (shape : Shape) → shape.Value → String
  | .word, w => toString (UInt32.toNat w)
  | .id, reference => s!"Id({reference.number.toNat})"
  | .text, string => Text.quoted string
  | .selector vocabulary, choice =>
    choice.name?.getD s!"{vocabulary.name}({choice.raw.toNat})"
  | .mask flagSet, flags => flagSet.name ++ "(" ++ String.intercalate " | " flags.parts ++ ")"
  | .optional _, none => "None"
  | .optional inner, some value => s!"Some({inner.describe value})"
  | .list element, values => bracketed "[" "]" (values.map element.describe)
  | .pair first second, (a, b) => bracketed "(" ")" [first.describe a, second.describe b]

end Operand
end ShaderBinary
