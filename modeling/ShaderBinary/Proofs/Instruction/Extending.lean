import ShaderBinary.Proofs.Instruction
import ShaderBinary.Proofs.Operand.Extending

/-!
# Decoding more words and fewer

What the failures of `Signature.decode` say about the words that were given:

* Words in excess are those behind the operands, so that without them the instruction is decoded, and with
  others behind them there are as many more (`Signature.decode_of_excess`). This holds of every signature.
* Missing operands can be supplied (`Signature.exists_decode_append_of_missing`), unless an operand takes
  all words that those behind it need; `Operands.completable` excludes that.
* If every operand tells where it ends, an instruction is decoded from none but its own words
  (`Signature.decode_take_of_closed`, `Signature.decode_append_of_closed`).
-/

namespace ShaderBinary

open Operand

namespace Operand.Shape

/-- The operand is optional or a list, so that nothing needs to be there of it. -/
def dispensable : Shape → Bool
  | .optional _ => true
  | .list _ => true
  | _ => false

theorem read_nil_of_dispensable {shape : Shape} (h : shape.dispensable = true) :
    ∃ value, shape.read [] = (.ok value, []) := by
  cases shape with
  | optional inner => exact ⟨none, rfl⟩
  | list element => exact ⟨[], rfl⟩
  | word | id | text | selector | mask | pair => simp [dispensable] at h

end Operand.Shape

namespace Operands

variable {slots later : List Slot} {slot : Slot} {given words rest remaining : List Word}

/-! ## Operands -/

theorem read_cons (slot : Slot) (later : List Slot) (given : List Word) :
    read (slot :: later) given = readBoth slot.shape.read (read later) given := by
  rw [read, readBoth]
  rcases slot.shape.read given with ⟨_ | _, _⟩ <;> rfl

/-- Every operand tells where it ends. -/
def Closed (slots : List Slot) : Prop :=
  ∀ slot ∈ slots, slot.shape.closed = true

theorem closed_cons_iff : Closed (slot :: later) ↔ slot.shape.closed = true ∧ Closed later :=
  List.forall_mem_cons

/-- What is missing can always be supplied: an operand that does not tell where it ends is followed by none
that need words. -/
def completable : List Slot → Bool
  | [] => true
  | slot :: later =>
    slot.shape.trailing && (slot.shape.closed || later.all (·.shape.dispensable)) &&
      completable later

/-- Whether the first `k` words of the operands end inside a text. -/
def insideText : (slots : List Slot) → Operands slots → Nat → Bool
  | [], _, _ => false
  | slot :: later, (value, values), k =>
    if k < slot.shape.wordCount value then slot.shape.insideText value k
    else insideText later values (k - slot.shape.wordCount value)

/-- Operands that left words, or tell where they end, are read again whatever follows their words. -/
theorem exists_takes_of_read {values : Operands slots} (h : read slots given = (.ok values, rest))
    (hends : Closed slots ∨ rest ≠ []) :
    ∃ words, given = words ++ rest ∧ Takes (read slots) words values := by
  induction slots generalizing given with
  | nil => cases h; exact ⟨[], rfl, fun _ => rfl⟩
  | cons slot later ih =>
      rw [read_cons] at h
      obtain ⟨left, hfirst, hlater⟩ := readBoth_eq_ok h
      rw [closed_cons_iff] at hends
      obtain ⟨others, rfl, hothers⟩ := ih hlater (hends.imp_left And.right)
      obtain ⟨words, rfl, hwords⟩ := Shape.exists_takes_of_read hfirst
        (hends.imp And.left fun hrest => by simp [hrest])
      refine ⟨words ++ others, (List.append_assoc _ _ _).symm, ?_⟩
      rw [funext (read_cons slot later)]
      exact hwords.both hothers

theorem read_nil_of_dispensable (h : slots.all (·.shape.dispensable) = true) :
    ∃ values, read slots [] = (.ok values, []) := by
  induction slots with
  | nil => exact ⟨(), rfl⟩
  | cons slot later ih =>
      rw [List.all_cons, Bool.and_eq_true] at h
      obtain ⟨value, hvalue⟩ := Shape.read_nil_of_dispensable h.1
      obtain ⟨values, hvalues⟩ := ih h.2
      exact ⟨(value, values), by rw [read_cons, readBoth_of_ok hvalue, hvalues]; rfl⟩

theorem exists_read (h : completable slots = true) :
    ∃ words values, read slots words = (.ok values, []) := by
  induction slots with
  | nil => exact ⟨[], (), rfl⟩
  | cons slot later ih =>
      rw [completable, Bool.and_eq_true, Bool.and_eq_true, Bool.or_eq_true] at h
      obtain ⟨⟨htrailing, hends⟩, hlater⟩ := h
      rcases hends with hclosed | hdispensable
      · obtain ⟨remaining, hnil⟩ := Shape.read_nil_of_closed hclosed
        obtain ⟨words, value, -, htakes⟩ := Shape.completes_of_closed hclosed hnil
        obtain ⟨others, values, hvalues⟩ := ih hlater
        exact ⟨_, (value, values), by rw [read_cons, readBoth_of_ok (htakes others), hvalues]; rfl⟩
      · obtain ⟨words, value, hvalue⟩ :=
          Shape.exists_read fun _ => Shape.completesAtEnd_of_trailing htrailing
        obtain ⟨values, hvalues⟩ := read_nil_of_dispensable hdispensable
        exact ⟨words, (value, values), by rw [read_cons, readBoth_of_ok hvalue, hvalues]; rfl⟩

/-- What is missing of the operands can be supplied. -/
theorem completesAtEnd_of_completable (hcompletable : completable slots = true)
    (h : read slots given = (.error .words, remaining)) : CompletesAtEnd (read slots) given := by
  induction slots generalizing given with
  | nil => cases h
  | cons slot later ih =>
      rw [completable, Bool.and_eq_true, Bool.and_eq_true, Bool.or_eq_true] at hcompletable
      obtain ⟨⟨htrailing, hends⟩, hcompletable⟩ := hcompletable
      rw [read_cons] at h
      rw [funext (read_cons slot later)]
      rcases readBoth_eq_error h with hfirst | ⟨value, left, hfirst, hsecond⟩
      · -- The operand at which the words end is completed, and those behind it from nothing.
        rcases hends with hclosed | hdispensable
        · exact (Shape.completes_of_closed hclosed hfirst).both_atEnd (exists_read hcompletable)
        · obtain ⟨more, value, hmore, hread⟩ := Shape.completesAtEnd_of_trailing htrailing hfirst
          obtain ⟨values, hvalues⟩ := read_nil_of_dispensable hdispensable
          exact ⟨more, (value, values), hmore, by rw [readBoth_of_ok hread, hvalues]; rfl⟩
      · -- Words are missing further on, so that the operand before did not take all of them unless it ends.
        have hleft : slot.shape.closed = true ∨ left ≠ [] := by
          refine hends.imp_right fun hdispensable hnil => ?_
          obtain ⟨values, hvalues⟩ := read_nil_of_dispensable hdispensable
          rw [hnil, hvalues] at hsecond
          cases hsecond
        obtain ⟨words, rfl, hwords⟩ := Shape.exists_takes_of_read hfirst hleft
        exact hwords.completesAtEnd_both (ih hcompletable hsecond)

/-- Operands that tell where they end are not read from a front of their words. -/
theorem failsInside_of_closed {values : Operands slots} (hclosed : Closed slots)
    (h : Takes (read slots) words values) :
    FailsInside (read slots) words (insideText slots values) := by
  induction slots generalizing words with
  | nil =>
      have hwords : words = [] := congrArg Prod.snd h.read_eq
      intro k hk
      rw [hwords] at hk
      exact absurd hk (Nat.not_lt_zero k)
  | cons slot later ih =>
      obtain ⟨hfirstClosed, hlaterClosed⟩ := closed_cons_iff.mp hclosed
      have hread := h.read_eq
      rw [read_cons] at hread
      obtain ⟨left, hfirst, hsecond⟩ := readBoth_eq_ok hread
      obtain ⟨front, rfl, htakes⟩ := Shape.exists_takes_of_read hfirst (.inl hfirstClosed)
      obtain ⟨back, rfl, hback⟩ := exists_takes_of_read hsecond (.inl hlaterClosed)
      have hfails := (Shape.failsInside_of_closed hfirstClosed htakes).both htakes
        (ih hlaterClosed hback)
      rw [Shape.length_of_takes htakes] at hfails
      rw [funext (read_cons slot later), List.append_nil]
      exact hfails

end Operands

namespace Signature

variable {signature : Signature} {payload rest remaining : List Word} {lack : Lack}

/-! ## Instructions -/

theorem decode_of_read_error (h : Operands.read signature.slots payload = (.error lack, remaining)) :
    signature.decode payload = .error (.ofLack signature.opcode lack) := by
  rw [decode, h]

theorem decode_of_read_ok {values : Operands signature.slots}
    (h : Operands.read signature.slots payload = (.ok values, [])) :
    signature.decode payload = .ok ⟨signature, values⟩ := by
  rw [decode, h]

theorem decode_of_read_rest {values : Operands signature.slots}
    (h : Operands.read signature.slots payload = (.ok values, rest)) (hrest : rest ≠ []) :
    signature.decode payload = .error (.excessOperands signature.opcode rest.length) := by
  obtain ⟨w, later, rfl⟩ := List.exists_cons_of_ne_nil hrest
  rw [decode, h]

theorem read_of_decode_excess {opcode : Opcode} {count : Nat}
    (h : signature.decode payload = .error (.excessOperands opcode count)) :
    opcode = signature.opcode ∧ ∃ values rest, rest ≠ [] ∧ count = rest.length ∧
      Operands.read signature.slots payload = (.ok values, rest) := by
  rcases hread : Operands.read signature.slots payload with ⟨lack | values, rest⟩
  · rw [decode_of_read_error hread] at h
    cases lack <;> cases h
  · by_cases hrest : rest = []
    · subst hrest
      rw [decode_of_read_ok hread] at h
      cases h
    · rw [decode_of_read_rest hread hrest] at h
      cases h
      exact ⟨rfl, values, rest, hrest, rfl, rfl⟩

theorem read_of_decode_missing {opcode : Opcode}
    (h : signature.decode payload = .error (.missingOperands opcode)) :
    opcode = signature.opcode ∧
      ∃ remaining, Operands.read signature.slots payload = (.error .words, remaining) := by
  rcases hread : Operands.read signature.slots payload with ⟨lack | values, rest⟩
  · rw [decode_of_read_error hread] at h
    cases lack with
    | words => cases h; exact ⟨rfl, rest, rfl⟩
    | text => cases h
  · by_cases hrest : rest = []
    · subst hrest
      rw [decode_of_read_ok hread] at h
      cases h
    · rw [decode_of_read_rest hread hrest] at h
      cases h

/-- Words in excess stand behind those that the instruction is decoded from. -/
theorem decode_of_excess {opcode : Opcode} {count : Nat}
    (h : signature.decode payload = .error (.excessOperands opcode count)) :
    ∃ words excess instruction, payload = words ++ excess ∧ excess ≠ [] ∧ count = excess.length ∧
      signature.decode words = .ok instruction ∧
      ∀ more ≠ [], signature.decode (words ++ more) =
        .error (.excessOperands signature.opcode more.length) := by
  obtain ⟨-, values, excess, hexcess, rfl, hread⟩ := read_of_decode_excess h
  obtain ⟨words, rfl, htakes⟩ := Operands.exists_takes_of_read hread (.inr hexcess)
  exact ⟨words, excess, ⟨signature, values⟩, rfl, hexcess, rfl, decode_of_read_ok htakes.read_eq,
    fun more hmore => decode_of_read_rest (htakes more) hmore⟩

/-- Operands that are missing can be supplied. -/
theorem exists_decode_append_of_missing (hcompletable : Operands.completable signature.slots = true)
    {opcode : Opcode} (h : signature.decode payload = .error (.missingOperands opcode)) :
    ∃ more instruction, more ≠ [] ∧ signature.decode (payload ++ more) = .ok instruction := by
  obtain ⟨-, remaining, hread⟩ := read_of_decode_missing h
  obtain ⟨more, values, hmore, hwhole⟩ :=
    Operands.completesAtEnd_of_completable hcompletable hread
  exact ⟨more, ⟨signature, values⟩, hmore, decode_of_read_ok hwhole⟩

/-- An instruction whose operands tell where they end takes exactly its own words. -/
theorem takes_of_decode {instruction : Instruction} (hclosed : Operands.Closed signature.slots)
    (h : signature.decode payload = .ok instruction) : instruction.signature = signature ∧
      Takes (Operands.read instruction.signature.slots) payload instruction.operands := by
  obtain ⟨rfl, hread⟩ := read_of_decode h
  obtain ⟨words, hwords, htakes⟩ := Operands.exists_takes_of_read hread (.inl hclosed)
  rw [List.append_nil] at hwords
  exact ⟨rfl, hwords ▸ htakes⟩

/-- Of fewer words than its own it says that operands are missing, or, inside a text, that the text is
bad. -/
theorem decode_take_of_closed {instruction : Instruction} (hclosed : Operands.Closed signature.slots)
    (h : signature.decode payload = .ok instruction) {k : Nat} (hk : k < payload.length) :
    signature.decode (payload.take k) =
      .error (if Operands.insideText instruction.signature.slots instruction.operands k
        then .badText signature.opcode else .missingOperands signature.opcode) := by
  obtain ⟨rfl, htakes⟩ := takes_of_decode hclosed h
  obtain ⟨remaining, hread⟩ := Operands.failsInside_of_closed hclosed htakes k hk
  rw [decode_of_read_error hread]
  split <;> rfl

/-- Of more words than its own it says how many are left. -/
theorem decode_append_of_closed {instruction : Instruction}
    (hclosed : Operands.Closed signature.slots) (h : signature.decode payload = .ok instruction)
    {more : List Word} (hmore : more ≠ []) :
    signature.decode (payload ++ more) =
      .error (.excessOperands signature.opcode more.length) := by
  obtain ⟨rfl, htakes⟩ := takes_of_decode hclosed h
  exact decode_of_read_rest (htakes more) hmore

end Signature

end ShaderBinary
