import ShaderBinary.Proofs.Module.Verifying
import ShaderBinary.Proofs.Operand.Soundness

/-!
# What verifying a module finds

* `Instruction.Sound`: every operand is sound, and every rule of the signature is kept.
* `Instruction.FirstFailure`: what an instruction fails with that is not. Operands count in the order of
  their places, and the rules only once all operands are sound.
* `Module.verify_finds_first`: a module fails with the first failure of its first instruction that is not
  sound, and with its layout only if there is no such instruction.

`Operands.filled` lists the operands with their places, so that "first" means the same for the instructions
of a module, the operands of an instruction and the elements of an operand: `FirstWithout`.
-/

namespace ShaderBinary

open Operand

namespace Operands

/-- Places, each with the operand that fills it. -/
def filled : (slots : List Slot) → Operands slots → List ((slot : Slot) × slot.shape.Value)
  | [], _ => []
  | slot :: later, (value, values) => ⟨slot, value⟩ :: filled later values

/-- The operands are looked at one after another, each on its own. -/
theorem objection?_eq_findSome? (slots : List Slot) (values : Operands slots) :
    objection? slots values = (filled slots values).findSome? fun filled =>
      (filled.1.shape.objection? filled.2).map (filled.1.name, ·) := by
  induction slots with
  | nil => rfl
  | cons slot later ih =>
      obtain ⟨value, values⟩ := values
      rw [filled, List.findSome?_cons, objection?, ← ih]
      cases slot.shape.objection? value <;> rfl

/-- Whether a limit can be about operands of this shape. -/
def measurable : Shape → Bool
  | .word | .list _ => true
  | _ => false

/-- A limit on a place whose operands have a number is about that number. -/
theorem exists_measureOf? {name : String} {slots : List Slot}
    (h : (slots.find? (·.name = name)).any (measurable ·.shape) = true) (values : Operands slots) :
    ∃ measured, measureOf? name slots values = some measured := by
  induction slots with
  | nil => cases h
  | cons slot later ih =>
      obtain ⟨value, values⟩ := values
      unfold measureOf?
      by_cases hname : slot.name = name
      · simp only [List.find?_cons, hname, decide_true, Option.any_some] at h
        rw [if_pos hname]
        obtain ⟨_, shape⟩ := slot
        cases shape with
        | word => exact ⟨_, rfl⟩
        | list element => exact ⟨_, rfl⟩
        | id | text | selector | mask | optional | pair => cases h
      · simp only [List.find?_cons, hname, decide_false] at h
        rw [if_neg hname]
        exact ih h values

end Operands

namespace Instruction

/-- The operands of an instruction with their places. -/
def filled (instruction : Instruction) : List ((slot : Slot) × slot.shape.Value) :=
  Operands.filled instruction.signature.slots instruction.operands

/-- The number that a rule is about, if there is one. -/
def measured? (instruction : Instruction) (rule : Rule) : Option Nat :=
  Operands.measureOf? rule.operand instruction.signature.slots instruction.operands

/-- The number that the rule is about is within its limit. -/
def Keeps (instruction : Instruction) (rule : Rule) : Prop :=
  ∀ measured, instruction.measured? rule = some measured → rule.limit.admits measured = true

/-- Nothing is wrong with the instruction. -/
structure Sound (instruction : Instruction) : Prop where
  operands : ∀ operand ∈ instruction.filled, operand.1.shape.Sound operand.2
  rules : ∀ rule ∈ instruction.signature.rules, instruction.Keeps rule

/-- The instruction is not sound, and this is what it fails with. -/
inductive FirstFailure (instruction : Instruction) : Failure → Prop
  /-- The first operand that is not sound is blamed for the first objection to it. -/
  | operand {index : Nat} {slot : Slot} {value : slot.shape.Value} {objection : Objection}
      (hfirst : FirstWithout (fun operand => operand.1.shape.Sound operand.2) instruction.filled index
        ⟨slot, value⟩)
      (hobjection : slot.shape.FirstObjection value objection) :
      FirstFailure instruction (.rejected instruction.signature.name (some slot.name) objection)
  /-- All operands are sound, but a rule is broken. -/
  | rule {index measured : Nat} {rule : Rule}
      (hsound : ∀ operand ∈ instruction.filled, operand.1.shape.Sound operand.2)
      (hfirst : FirstWithout instruction.Keeps instruction.signature.rules index rule)
      (hmeasured : instruction.measured? rule = some measured) :
      FirstFailure instruction (.rejected instruction.signature.name
        (if rule.ofWhole then none else some rule.operand) (.outside rule.limit measured))

variable (instruction : Instruction)

theorem breach?_eq_none_iff (rule : Rule) :
    instruction.breach? rule = none ↔ instruction.Keeps rule := by
  unfold breach? Keeps measured?
  cases Operands.measureOf? rule.operand instruction.signature.slots instruction.operands with
  | none => simp
  | some measured => simp

theorem breach?_eq_some_iff (rule : Rule) (failure : Failure) :
    instruction.breach? rule = some failure ↔
      ¬instruction.Keeps rule ∧ ∃ measured, instruction.measured? rule = some measured ∧
        failure = .rejected instruction.signature.name
          (if rule.ofWhole then none else some rule.operand) (.outside rule.limit measured) := by
  rw [← breach?_eq_none_iff]
  unfold breach? measured?
  cases Operands.measureOf? rule.operand instruction.signature.slots instruction.operands with
  | none => simp
  | some measured => cases rule.limit.admits measured <;> simp [@eq_comm _ failure]

theorem objection?_eq_none_iff :
    Operands.objection? instruction.signature.slots instruction.operands = none ↔
      ∀ operand ∈ instruction.filled, operand.1.shape.Sound operand.2 := by
  rw [Operands.objection?_eq_findSome?, List.findSome?_eq_none_iff]
  simp only [Option.map_eq_none_iff, Shape.objection?_eq_none_iff]
  rfl

theorem objection?_eq_some_iff (name : String) (objection : Objection) :
    Operands.objection? instruction.signature.slots instruction.operands = some (name, objection) ↔
      ∃ index operand, FirstWithout (fun operand => operand.1.shape.Sound operand.2)
          instruction.filled index operand ∧
        operand.1.shape.FirstObjection operand.2 objection ∧ operand.1.name = name := by
  have hnone (operand : (slot : Slot) × slot.shape.Value) :
      (operand.1.shape.objection? operand.2).map (operand.1.name, ·) = none ↔
        operand.1.shape.Sound operand.2 := by
    rw [Option.map_eq_none_iff, Shape.objection?_eq_none_iff]
  rw [Operands.objection?_eq_findSome?, findSome?_eq_some_iff_firstWithout hnone]
  simp only [Option.map_eq_some_iff, Shape.objection?_eq_some_iff, Prod.mk.injEq]
  constructor
  · rintro ⟨index, operand, hfirst, _, hobjection, hname, rfl⟩
    exact ⟨index, operand, hfirst, hobjection, hname⟩
  · rintro ⟨index, operand, hfirst, hobjection, hname⟩
    exact ⟨index, operand, hfirst, objection, hobjection, hname, rfl⟩

/-- Nothing is found exactly if there is nothing to be found. -/
theorem failure?_eq_none_iff : instruction.failure? = none ↔ instruction.Sound := by
  unfold failure?
  cases hobjection : Operands.objection? instruction.signature.slots instruction.operands with
  | some found =>
      simp only [reduceCtorEq, false_iff]
      intro hsound
      rw [instruction.objection?_eq_none_iff.mpr hsound.operands] at hobjection
      cases hobjection
  | none =>
      have hoperands := instruction.objection?_eq_none_iff.mp hobjection
      simp only [List.findSome?_eq_none_iff, breach?_eq_none_iff]
      exact ⟨fun hrules => ⟨hoperands, hrules⟩, Sound.rules⟩

/-- What is found is what the instruction fails with first. -/
theorem failure?_eq_some_iff (failure : Failure) :
    instruction.failure? = some failure ↔ instruction.FirstFailure failure := by
  unfold failure?
  cases hobjection : Operands.objection? instruction.signature.slots instruction.operands with
  | some found =>
      obtain ⟨name, objection⟩ := found
      obtain ⟨index, ⟨slot, value⟩, hfirst, hfound, rfl⟩ :=
        (instruction.objection?_eq_some_iff name objection).mp hobjection
      simp only [Option.some.injEq]
      constructor
      · rintro rfl
        exact .operand hfirst hfound
      · intro h
        cases h with
        | operand hother hsame =>
            have hblamed := (instruction.objection?_eq_some_iff _ _).mpr ⟨_, _, hother, hsame, rfl⟩
            obtain ⟨hname, rfl⟩ := Prod.mk.inj (Option.some.inj (hobjection.symm.trans hblamed))
            rw [hname]
        | rule hoperands _ _ =>
            exact absurd (hoperands _ (List.mem_of_getElem? hfirst.getElem?_eq)) hfirst.fails
  | none =>
      have hoperands := instruction.objection?_eq_none_iff.mp hobjection
      simp only [findSome?_eq_some_iff_firstWithout instruction.breach?_eq_none_iff,
        breach?_eq_some_iff]
      constructor
      · rintro ⟨index, rule, hfirst, -, measured, hmeasured, rfl⟩
        exact .rule hoperands hfirst hmeasured
      · intro h
        cases h with
        | operand hfirst _ =>
            exact absurd (hoperands _ (List.mem_of_getElem? hfirst.getElem?_eq)) hfirst.fails
        | rule _ hfirst hmeasured => exact ⟨_, _, hfirst, hfirst.fails, _, hmeasured, rfl⟩

end Instruction

namespace Standard

/-- Every rule of a standard instruction is about one of its operands. -/
theorem exists_measured? {instruction : Instruction} (h : instruction.signature ∈ signatures)
    {rule : Rule} (hrule : rule ∈ instruction.signature.rules) :
    ∃ measured, instruction.measured? rule = some measured := by
  have hall : ∀ signature ∈ signatures, ∀ rule ∈ signature.rules,
      (signature.slots.find? (·.name = rule.operand)).any (Operands.measurable ·.shape) = true := by
    decide +kernel
  exact Operands.exists_measureOf? (hall _ h rule hrule) instruction.operands

end Standard

namespace Module

/-- The layout is looked at only if nothing was found in an instruction. -/
theorem verify_eq_error_iff (module : Module) (failure : Failure) :
    module.verify = .error failure ↔
      module.code.findSome? Instruction.failure? = some failure ∨
        module.code.findSome? Instruction.failure? = none ∧
          ∃ violation, Layout.check module.categories = .error violation ∧
            failure = .layout violation := by
  unfold verify
  cases module.code.findSome? Instruction.failure? with
  | some found => simp
  | none => cases Layout.check module.categories <;> simp [@eq_comm _ failure]

/-- Verifying a module succeeds exactly if all its instructions are sound and their categories are a
layout. Otherwise the module fails with the first failure of its first instruction that is not sound, and
with its layout only if there is no such instruction. The rules of standard instructions are not void:
each of them is about an operand that its instruction has. -/
theorem verify_finds_first (module : Module) :
    (module.verify = .ok () ↔ (∀ instruction ∈ module.code, instruction.Sound) ∧
      module.categories ∈ Layout.Grammar.layouts) ∧
      (∀ failure, module.verify = .error failure ↔
        (∃ index instruction, FirstWithout Instruction.Sound module.code index instruction ∧
            instruction.FirstFailure failure) ∨
          (∀ instruction ∈ module.code, instruction.Sound) ∧
            ∃ violation, Layout.check module.categories = .error violation ∧
              failure = .layout violation) ∧
      ∀ instruction ∈ module.code, instruction.signature ∈ Standard.signatures →
        ∀ rule ∈ instruction.signature.rules, ∃ measured, instruction.measured? rule = some measured := by
  refine ⟨?_, fun failure => ?_, fun _ _ hstandard _ hrule => Standard.exists_measured? hstandard hrule⟩
  · simp only [verify_eq_ok_iff, Instruction.failure?_eq_none_iff]
    refine and_congr_right fun _ => ⟨fun hcheck => ?_, fun hlayout => ?_⟩
    · exact (Layout.check_eq_ok_iff_of_count (Layout.count_memoryModel_of_check hcheck)).mp hcheck
    · exact (Layout.check_eq_ok_iff_of_count (Layout.count_memoryModel_of_mem_layouts hlayout)).mpr
        hlayout
  · rw [verify_eq_error_iff, findSome?_eq_some_iff_firstWithout Instruction.failure?_eq_none_iff,
      List.findSome?_eq_none_iff]
    simp only [Instruction.failure?_eq_some_iff, Instruction.failure?_eq_none_iff]

/-- An instruction that is sound, one with two elements that are not, and one with two operands that are
not. -/
def ofUnsound : Module :=
  ⟨.ofOrder .little,
    [⟨⟨"OpNoLine", 317, .debug, [], []⟩, ()⟩,
      ⟨⟨"OpTypeStruct", 30, .declaration, [⟨"result", .id⟩, ⟨"members", .list .id⟩], []⟩,
        ⟨1⟩, [⟨2⟩, ⟨0⟩, ⟨0⟩], ()⟩,
      ⟨⟨"OpName", 5, .debug, [⟨"target", .id⟩, ⟨"name", .text⟩], []⟩, ⟨0⟩, "a\x00", ()⟩]⟩

/-- Neither the missing memory model nor the other failures are reported. -/
theorem verify_finds_first_ofUnsound :
    ofUnsound.verify = .error (.rejected "OpTypeStruct" (some "members") (.inElement 1 .zeroId)) ∧
      ∃ index instruction, FirstWithout Instruction.Sound ofUnsound.code index instruction ∧
        instruction.FirstFailure (.rejected "OpTypeStruct" (some "members") (.inElement 1 .zeroId)) := by
  have hverify : ofUnsound.verify =
      .error (.rejected "OpTypeStruct" (some "members") (.inElement 1 .zeroId)) := by decide +kernel
  obtain ⟨-, herror, -⟩ := verify_finds_first ofUnsound
  refine ⟨hverify, ?_⟩
  rcases (herror _).mp hverify with hfirst | ⟨-, _, -, hlayout⟩
  · exact hfirst
  · cases hlayout

end Module

end ShaderBinary
