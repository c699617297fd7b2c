/-!
# Instruction categories and layout violations

The logical layout of a module does not look at what an instruction does but at the part of the
module it may stand in. That part is its category; the thirteen categories are the alphabet of the
layout language.

A `Violation` is a way in which a sequence of categories can fail to be a module, with the position it
is put at. `Violation.message` is the one place that words them.
-/

namespace ShaderBinary
namespace Layout

/-- The part of a module an instruction belongs to. -/
inductive Category
  /-- Capabilities, extensions, and imports of extended instructions. -/
  | preamble
  /-- The one instruction that fixes addressing and memory. -/
  | memoryModel
  /-- A function that can be entered from outside. -/
  | entryPoint
  /-- A mode the preceding entry point runs in. -/
  | executionMode
  /-- Source, name, string and line information, which carries no meaning. -/
  | debug
  /-- Decorations. -/
  | decoration
  /-- Types, constants, and variables. -/
  | declaration
  /-- The start of a function definition. -/
  | function
  /-- A parameter of the function just started. -/
  | functionParameter
  /-- The end of a function definition. -/
  | functionEnd
  /-- The start of a block. -/
  | label
  /-- A branch or a return, which ends a block. -/
  | terminator
  /-- Everything else that stands inside a block. -/
  | body
deriving DecidableEq, Inhabited

namespace Category

/-- Every category, in the order in which they are listed to a reader. -/
def all : List Category :=
  [preamble, memoryModel, entryPoint, executionMode, debug, decoration, declaration, function,
    functionParameter, functionEnd, label, terminator, body]

/-- The name a category has in messages and tables. -/
def name : Category → String
  | preamble => "Preamble"
  | memoryModel => "MemoryModel"
  | entryPoint => "EntryPoint"
  | executionMode => "ExecutionMode"
  | debug => "Debug"
  | decoration => "Annotation"
  | declaration => "Declaration"
  | function => "Function"
  | functionParameter => "FunctionParameter"
  | functionEnd => "FunctionEnd"
  | label => "Label"
  | terminator => "Terminator"
  | body => "Body"

/-- Whether instructions of this category may stand between a label and its terminator. -/
def insideBlock : Category → Bool
  | body | declaration | debug => true
  | _ => false

theorem mem_all (category : Category) : category ∈ all := by
  cases category <;> decide

end Category

/-- What is wrong with the order of a module's instructions. Positions count instructions. -/
inductive Violation
  /-- There is no memory model; it belongs at `position`, right after the preamble. -/
  | noMemoryModel (position : Nat)
  /-- There are `count` memory models, the second one at `second`. -/
  | severalMemoryModels (second count : Nat)
  /-- The memory model is not followed by an entry point. -/
  | noEntryPoint (position : Nat)
  /-- The entry point at `position` is not followed by an execution mode. -/
  | noExecutionMode (position : Nat)
  /-- A function definition cannot go on with what is `found`, or the module ends inside it. -/
  | brokenFunction (position : Nat) (found : Option Category)
  /-- An instruction stands where none of its category may. -/
  | misplaced (position : Nat) (category : Category)
deriving DecidableEq

/-- The violation in words. -/
def Violation.message : Violation → String
  | noMemoryModel position => s!"missing memory model at position {position}"
  | severalMemoryModels second count =>
    s!"too many memory models ({count}), the second at position {second}"
  | noEntryPoint position => s!"missing entry point at position {position}"
  | noExecutionMode position => s!"entry point at position {position} has no execution mode"
  | brokenFunction position none =>
    s!"malformed function definition at position {position}: unterminated function"
  | brokenFunction position (some category) =>
    s!"malformed function definition at position {position}: " ++
      s!"unexpected {category.name} instruction"
  | misplaced position category =>
    s!"misplaced {category.name} instruction at position {position}"

end Layout
end ShaderBinary
