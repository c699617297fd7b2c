import ShaderBinary.Operand.Shape
import ShaderBinary.Text.Packing

/-!
# Objections to operand values

Decoding accepts every bit pattern that has the right shape; verification is what objects to
values. An `Objection` is the cause, independent of the instruction it is found in, and
`Objection.message` words it.

`Shape.objection?` is the first thing that is wrong with an operand on its own: the elements of a
list are looked at in order, and the first component of a pair before the second.
-/

namespace ShaderBinary
namespace Operand

/-- A bound that an instruction puts on one of its operands: on the value of a word, or on the length
of a list. -/
inductive Limit
  /-- Zero or one. -/
  | binary
  /-- A width of a floating point type. -/
  | floatWidth
  /-- At least two; `whole` is made of that many of `parts`. -/
  | atLeastTwo (whole parts : String)
  /-- None or exactly two of `parts`. -/
  | noneOrTwo (parts : String)
  /-- An even number of `parts`. -/
  | even (parts : String)
deriving DecidableEq

namespace Limit

/-- Whether a number is within the limit. -/
def admits : Limit → Nat → Bool
  | binary, n => n ≤ 1
  | floatWidth, n => n == 16 || n == 32 || n == 64
  | atLeastTwo _ _, n => 2 ≤ n
  | noneOrTwo _, n => n == 0 || n == 2
  | even _, n => n % 2 == 0

/-- What is said about a number that is not within the limit. -/
def complaint : Limit → Nat → String
  | binary, n => s!"{n} is neither 0 nor 1"
  | floatWidth, n => s!"{n} bits is not a float width"
  | atLeastTwo whole parts, n => s!"a {whole} needs at least 2 {parts}, not {n}"
  | noneOrTwo parts, n => s!"expected 0 or 2 {parts}, found {n}"
  | even parts, _ => s!"odd number of {parts}"

end Limit

/-- Why a value cannot stand as an operand. -/
inductive Objection
  /-- A text holds its own terminator at this byte. -/
  | nulAt (index : Nat)
  /-- Zero is not an id. -/
  | zeroId
  /-- A number that the vocabulary of this name does not list. -/
  | unlisted (raw : Word) (vocabulary : String)
  /-- Bits that the flag set of this name does not know. -/
  | unknownFlags (bits : Word) (flags : String)
  /-- An objection to one element of a list. -/
  | inElement (index : Nat) (inner : Objection)
  /-- A number outside of its limit. -/
  | outside (limit : Limit) (measured : Nat)
deriving DecidableEq

/-- The objection in words. -/
def Objection.message : Objection → String
  | nulAt index => s!"string contains a NUL byte at {index}"
  | zeroId => "id 0 is not a valid id"
  | unlisted raw vocabulary => s!"{raw.toNat} is not a valid {vocabulary}"
  | unknownFlags bits flags => s!"{Text.hex bits.toNat} is not a valid {flags}"
  | inElement index inner => s!"element {index}: {inner.message}"
  | outside limit measured => limit.complaint measured

/-! ## Checking operands -/

/-- The first objection to a list, with the position of the element it is to. `index` counts the
elements passed so far. -/
def listObjection? {α : Type} (objection? : α → Option Objection) (index : Nat) :
    List α → Option Objection
  | [] => none
  | value :: later =>
    match objection? value with
    | some objection => some (.inElement index objection)
    | none => listObjection? objection? (index + 1) later

/-- The first objection to an operand, if there is one. -/
def Shape.objection? : (shape : Shape) → shape.Value → Option Objection
  | .word, _ => none
  | .id, reference => if reference.number = 0 then some .zeroId else none
  | .text, string => ((Text.bytes string).findIdx? (· = 0)).map .nulAt
  | .selector vocabulary, choice =>
    if choice.name?.isSome then none else some (.unlisted choice.raw vocabulary.name)
  | .mask flagSet, flags =>
    if flags.unknown = 0 then none else some (.unknownFlags flags.bits flagSet.name)
  | .optional _, none => none
  | .optional inner, some value => inner.objection? value
  | .list element, values => listObjection? element.objection? 0 values
  | .pair first second, (a, b) =>
    match first.objection? a with
    | some objection => some objection
    | none => second.objection? b

end Operand
end ShaderBinary
