import ShaderBinary.Failure
import ShaderBinary.Operand.Words

/-!
# Signatures and their operands

A `Signature` is a kind of instruction: a name, an opcode, a category, and the ordered list of its
operands, each with a name and a shape. `Operands slots` is the type of the values that fill those
places, so that everything about an instruction's operands is one recursion on the list.

Signatures are plain data. In particular a condition that no shape can express is a `Rule`, which
names the operand and the limit it has to keep, and so two signatures can be compared.
-/

namespace ShaderBinary

/-- A place for an operand in a signature. -/
structure Slot where
  name : String
  shape : Operand.Shape
deriving DecidableEq

/-- A limit that a signature puts on one of its operands. -/
structure Rule where
  /-- The name of the operand. -/
  operand : String
  limit : Operand.Limit
  /-- Whether a breach is held against the instruction as a whole and not against the operand. -/
  ofWhole : Bool
deriving DecidableEq

/-- A kind of instruction. -/
structure Signature where
  name : String
  opcode : Opcode
  category : Layout.Category
  /-- The operands in the order in which they stand in the instruction. -/
  slots : List Slot
  /-- What is checked once every operand has passed on its own. -/
  rules : List Rule
deriving DecidableEq

/-- Values for the operands of a signature, in order. -/
@[reducible] def Operands : List Slot → Type
  | [] => Unit
  | slot :: later => slot.shape.Value × Operands later

namespace Operands

open Operand (Reading Cursor Objection Shape)

/-- The operands of a signature can be compared. -/
def decidableEq : (slots : List Slot) → DecidableEq (Operands slots)
  | [] => inferInstanceAs (DecidableEq Unit)
  | slot :: later =>
    let _ := decidableEq later
    inferInstanceAs (DecidableEq (slot.shape.Value × Operands later))

instance (slots : List Slot) : DecidableEq (Operands slots) := decidableEq slots

/-- Reads the operands in order. -/
def read : (slots : List Slot) → List Word → Reading (Operands slots)
  | [], words => (.ok (), words)
  | slot :: later, words =>
    match slot.shape.read words with
    | (.error lack, remaining) => (.error lack, remaining)
    | (.ok value, remaining) => Reading.map (Prod.mk value) (read later remaining)

/-- Writes the operands in order. -/
def write {size : Nat} : (slots : List Slot) → Operands slots → Cursor size → Option (Cursor size)
  | [], _, cursor => some cursor
  | slot :: later, (value, values), cursor =>
    match slot.shape.write value cursor with
    | none => none
    | some next => write later values next

/-- How many words the operands take together. -/
def wordCount : (slots : List Slot) → Operands slots → Nat
  | [], _ => 0
  | slot :: later, (value, values) => slot.shape.wordCount value + wordCount later values

/-- The first objection to an operand on its own, with the operand's name. -/
def objection? : (slots : List Slot) → Operands slots → Option (String × Objection)
  | [], _ => none
  | slot :: later, (value, values) =>
    match slot.shape.objection? value with
    | some objection => some (slot.name, objection)
    | none => objection? later values

/-- The number that a limit on an operand is about: the value of a word, the length of a list. Other
operands have none. -/
def measure? : (shape : Shape) → shape.Value → Option Nat
  | .word, w => some (UInt32.toNat w)
  | .list _, values => some values.length
  | _, _ => none

/-- The number that a limit on the operand called `name` is about. -/
def measureOf? (name : String) : (slots : List Slot) → Operands slots → Option Nat
  | [], _ => none
  | slot :: later, (value, values) =>
    if slot.name = name then measure? slot.shape value else measureOf? name later values

/-- Each operand in full after its name. -/
def describe : (slots : List Slot) → Operands slots → List String
  | [], _ => []
  | slot :: later, (value, values) =>
    s!"{slot.name}: {slot.shape.describe value}" :: describe later values

end Operands

end ShaderBinary
