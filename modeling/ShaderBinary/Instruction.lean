import ShaderBinary.Signature

/-!
# Instructions

An instruction is a signature together with values for its operands. It knows how many words it takes,
what is wrong with it, and how it is shown.
-/

namespace ShaderBinary

/-- A signature with values for its operands. -/
structure Instruction where
  signature : Signature
  operands : Operands signature.slots

namespace Instruction

/-- Two instructions are equal if they are of the same signature and have the same operands. -/
def decidableEq : DecidableEq Instruction
  | ⟨signature, operands⟩, ⟨signature', operands'⟩ =>
    if same : signature = signature' then
      decidable_of_iff (same ▸ operands = operands') <| by
        subst same
        exact ⟨fun h => by rw [show operands = operands' from h],
          fun h => eq_of_heq (Instruction.mk.inj h).2⟩
    else
      isFalse fun h => same (Instruction.mk.inj h).1

instance : DecidableEq Instruction := decidableEq

/-- The part of a module the instruction belongs to. -/
def category (instruction : Instruction) : Layout.Category :=
  instruction.signature.category

/-- How many words the instruction takes, its first word included. -/
def wordCount (instruction : Instruction) : Nat :=
  1 + Operands.wordCount instruction.signature.slots instruction.operands

/-- What breaks a rule of the instruction's signature. -/
def breach? (instruction : Instruction) (rule : Rule) : Option Failure :=
  match Operands.measureOf? rule.operand instruction.signature.slots instruction.operands with
  | none => none
  | some measured =>
    if rule.limit.admits measured then none
    else
      let blamed := if rule.ofWhole then none else some rule.operand
      some (.rejected instruction.signature.name blamed (.outside rule.limit measured))

/-- The first thing that is wrong with an instruction: each operand is looked at on its own, in
order, and only then the rules of the signature. -/
def failure? (instruction : Instruction) : Option Failure :=
  match Operands.objection? instruction.signature.slots instruction.operands with
  | some (field, objection) => some (.rejected instruction.signature.name (some field) objection)
  | none => instruction.signature.rules.findSome? instruction.breach?

/-- Succeeds if nothing is wrong with the instruction. -/
def verify (instruction : Instruction) : Except Failure Unit :=
  match instruction.failure? with
  | some failure => .error failure
  | none => .ok ()

/-- The instruction in full. -/
def describe (instruction : Instruction) : String :=
  match Operands.describe instruction.signature.slots instruction.operands with
  | [] => instruction.signature.name
  | shown => Operand.bracketed (instruction.signature.name ++ " \x7b ") " \x7d" shown

end Instruction

end ShaderBinary
