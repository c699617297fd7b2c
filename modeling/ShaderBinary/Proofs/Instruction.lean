import ShaderBinary.Dialect
import ShaderBinary.Proofs.Operand.Rereading

/-!
# Instructions and their words

`Instruction.words` is what an instruction looks like in a module. `Signature.encode_eq_ok` says that
the codec of a signature writes exactly these words at the front of a buffer, and
`Signature.encode_eq_error` that it refuses instructions that are too long for a first word.

Decoding what was encoded gives the instruction back if its operands are `Recoverable`
(`Signature.decode_payload`). Whatever was decoded, encoding it again only clears padding
(`Signature.payload_of_decode`), and what is encoded then is decoded to the same instruction
(`Signature.decode_payload_of_decode`).
-/

namespace ShaderBinary

open Operand

namespace Operands

/-! ## Operands in order -/

/-- The words of all operands. -/
def words : (slots : List Slot) → Operands slots → List Word
  | [], _ => []
  | slot :: later, (value, values) => slot.shape.words value ++ words later values

/-- How many octets of each word of the operands are padding. -/
def padding : (slots : List Slot) → Operands slots → List Nat
  | [], _ => []
  | slot :: later, (value, values) => slot.shape.padding value ++ padding later values

/-- No text in the operands holds a zero byte. -/
def NulFree : (slots : List Slot) → Operands slots → Prop
  | [], _ => True
  | slot :: later, (value, values) => slot.shape.NulFree value ∧ NulFree later values

/-- The operands are read back from exactly their words. -/
def Recoverable : (slots : List Slot) → Operands slots → Prop
  | [], _ => True
  | slot :: later, (value, values) =>
    (slot.shape.Delimited value ∨ slot.shape.Recoverable value ∧ words later values = []) ∧
      Recoverable later values

/-- All operands but the last one tell where they end. -/
def plain : List Slot → Bool
  | [] => true
  | [slot] => slot.shape.trailing
  | slot :: later => slot.shape.closed && plain later

variable {slots : List Slot} {values : Operands slots}

theorem length_words (slots : List Slot) (values : Operands slots) :
    (words slots values).length = wordCount slots values := by
  induction slots with
  | nil => rfl
  | cons slot later ih =>
      rw [words, List.length_append, Shape.length_words, ih, wordCount]

theorem length_padding (slots : List Slot) (values : Operands slots) :
    (padding slots values).length = (words slots values).length := by
  induction slots with
  | nil => rfl
  | cons slot later ih =>
      rw [padding, words, List.length_append, List.length_append, Shape.length_padding, ih]

theorem padding_le (slots : List Slot) (values : Operands slots) :
    ∀ p ∈ padding slots values, p ≤ 3 := by
  induction slots with
  | nil => simp [padding]
  | cons slot later ih =>
      intro p hp
      rcases List.mem_append.mp hp with hfirst | hlater
      · exact Shape.padding_le slot.shape values.1 p hfirst
      · exact ih values.2 p hlater

theorem terminated (slots : List Slot) (values : Operands slots) :
    Terminated (padding slots values) (words slots values) := by
  induction slots with
  | nil => exact .nil
  | cons slot later ih => exact (Shape.terminated slot.shape values.1).append (ih values.2)

theorem write_eq {size : Nat} (slots : List Slot) (values : Operands slots)
    (cursor : Cursor size) : write slots values cursor = cursor.putAll (words slots values) := by
  induction slots generalizing cursor with
  | nil => rfl
  | cons slot later ih =>
      rw [write, words, Cursor.putAll_append, Shape.write_eq]
      cases cursor.putAll (slot.shape.words values.1) with
      | none => rfl
      | some next => exact ih values.2 next

theorem read_words (h : Recoverable slots values) :
    read slots (words slots values) = (.ok values, []) := by
  induction slots with
  | nil => rfl
  | cons slot later ih =>
      obtain ⟨hfirst, hlater⟩ := h
      have hread : slot.shape.read (slot.shape.words values.1 ++ words later values.2) =
          (.ok values.1, words later values.2) := by
        rcases hfirst with hdelimited | ⟨hrecoverable, hnothing⟩
        · exact Shape.read_words_append hdelimited _
        · rw [hnothing, List.append_nil]
          exact Shape.read_words hrecoverable
      rw [words, read, hread]
      simp only
      rw [ih hlater]
      rfl

theorem words_of_read {given rest : List Word} (h : read slots given = (.ok values, rest)) :
    ∃ consumed, given = consumed ++ rest ∧
      ClearsTo (padding slots values) consumed (words slots values) := by
  induction slots generalizing given rest with
  | nil => cases h; exact ⟨[], rfl, .nil⟩
  | cons slot later ih =>
      unfold read at h
      rcases hfirst : slot.shape.read given with ⟨lack | value, remaining⟩
      · rw [hfirst] at h; cases h
      · rw [hfirst] at h
        obtain ⟨others, hothers, rfl⟩ := Reading.map_eq_ok h
        obtain ⟨consumed, rfl, hclears⟩ := Shape.words_of_read hfirst
        obtain ⟨more, rfl, hmore⟩ := ih hothers
        exact ⟨consumed ++ more, (List.append_assoc _ _ _).symm, hclears.append hmore⟩

/-- No text that was read holds a zero byte. -/
theorem nulFree_of_read {given rest : List Word} (h : read slots given = (.ok values, rest)) :
    NulFree slots values := by
  induction slots generalizing given rest with
  | nil => trivial
  | cons slot later ih =>
      unfold read at h
      rcases hfirst : slot.shape.read given with ⟨lack | value, remaining⟩
      · rw [hfirst] at h; cases h
      · rw [hfirst] at h
        obtain ⟨others, hothers, rfl⟩ := Reading.map_eq_ok h
        exact ⟨Shape.nulFree_of_read hfirst, ih hothers⟩

/-- As many words are taken as the operands are written as. -/
theorem length_of_read {given rest : List Word} (h : read slots given = (.ok values, rest)) :
    given.length = (words slots values).length + rest.length := by
  obtain ⟨consumed, rfl, hclears⟩ := words_of_read h
  rw [List.length_append, hclears.length_cleared]

/-- Operands that were read are read again from their own words. -/
theorem read_words_of_read {given rest others : List Word}
    (h : read slots given = (.ok values, rest)) (hothers : others = [] ↔ rest = []) :
    read slots (words slots values ++ others) = (.ok values, others) := by
  induction slots generalizing given rest others with
  | nil => rfl
  | cons slot later ih =>
      unfold read at h
      rcases hfirst : slot.shape.read given with ⟨lack | value, remaining⟩
      · rw [hfirst] at h; cases h
      · rw [hfirst] at h
        obtain ⟨more, hmore, rfl⟩ := Reading.map_eq_ok h
        have hremaining := append_eq_nil_iff_of_length_eq (length_of_read hmore) hothers
        rw [words, List.append_assoc, read, Shape.read_words_of_read hfirst hremaining]
        simp only
        rw [ih hmore hothers]
        rfl

theorem nulFree_of_objection?_eq_none (h : objection? slots values = none) :
    NulFree slots values := by
  induction slots with
  | nil => trivial
  | cons slot later ih =>
      unfold objection? at h
      cases hfirst : slot.shape.objection? values.1 with
      | some objection => simp only [hfirst] at h; cases h
      | none =>
          simp only [hfirst] at h
          exact ⟨Shape.nulFree_of_objection?_eq_none hfirst, ih h⟩

theorem recoverable_of_plain (hplain : plain slots = true) (h : NulFree slots values) :
    Recoverable slots values := by
  induction slots with
  | nil => trivial
  | cons slot later ih =>
      cases later with
      | nil => exact ⟨.inr ⟨Shape.recoverable_of_trailing hplain h.1, rfl⟩, trivial⟩
      | cons next others =>
          rw [plain, Bool.and_eq_true] at hplain
          · exact ⟨.inl (Shape.delimited_of_closed hplain.1 h.1).1, ih hplain.2 h.2⟩
          · simp

end Operands

namespace Instruction

/-! ## Instructions -/

/-- The words after the first one. -/
def payload (instruction : Instruction) : List Word :=
  Operands.words instruction.signature.slots instruction.operands

/-- All words of an instruction. -/
def words (instruction : Instruction) : List Word :=
  ((instruction.wordCount.toUInt32 <<< 16) ||| instruction.signature.opcode.toUInt32) ::
    instruction.payload

/-- How many octets of each word of an instruction are padding. -/
def padding (instruction : Instruction) : List Nat :=
  0 :: Operands.padding instruction.signature.slots instruction.operands

variable (instruction : Instruction)

theorem length_payload : instruction.payload.length + 1 = instruction.wordCount := by
  rw [payload, Operands.length_words, wordCount, Nat.add_comm]

@[simp] theorem length_words : instruction.words.length = instruction.wordCount := by
  rw [words, List.length_cons, length_payload]

theorem length_padding : instruction.padding.length = instruction.wordCount := by
  rw [padding, List.length_cons, Operands.length_padding]
  exact instruction.length_payload

theorem padding_le : ∀ p ∈ instruction.padding, p ≤ 3 := by
  intro p hp
  rcases List.mem_cons.mp hp with rfl | hp
  · exact Nat.zero_le _
  · exact Operands.padding_le _ _ p hp

/-- The padding of an instruction is behind the terminators of its texts. -/
theorem terminated : Terminated instruction.padding instruction.words :=
  (Terminated.single _).append (Operands.terminated _ _)

theorem wordCount_pos : 1 ≤ instruction.wordCount := by
  unfold wordCount
  omega

variable {instruction}

/-- The first word holds the size and the opcode, if the size fits. -/
theorem head_eq_ok (h : instruction.wordCount ≤ Frame.maxWords) :
    Frame.head instruction.wordCount instruction.signature.opcode =
      .ok ((instruction.wordCount.toUInt32 <<< 16) |||
        instruction.signature.opcode.toUInt32) := by
  have hpos := instruction.wordCount_pos
  rw [Frame.head, if_neg (by omega)]

/-- What is verified holds no zero byte in a text. -/
theorem nulFree_of_failure?_eq_none (h : instruction.failure? = none) :
    Operands.NulFree instruction.signature.slots instruction.operands := by
  unfold failure? at h
  split at h
  · cases h
  · next hobjection => exact Operands.nulFree_of_objection?_eq_none hobjection

end Instruction

namespace Signature

variable {instruction : Instruction}

/-- An instruction that fits is written at the front of the buffer, and nothing else changes. -/
theorem encode_eq_ok {size : Nat} (buffer : Vector Word size)
    (hsize : instruction.wordCount ≤ size) (hmax : instruction.wordCount ≤ Frame.maxWords) :
    ∃ written, instruction.signature.encode instruction buffer =
        (.ok instruction.wordCount, written) ∧
      written.toList = instruction.words ++ buffer.toList.drop instruction.wordCount := by
  obtain ⟨final, hfinal, -, hbuffer⟩ := Cursor.putAll_of_le instruction.words ⟨buffer, 0⟩
    (by rw [instruction.length_words]; simpa using hsize)
  rw [Instruction.words, Cursor.putAll_cons, Option.bind_eq_some_iff] at hfinal
  obtain ⟨next, hfirst, hpayload⟩ := hfinal
  -- The first word and the operands are put one after the other at the start of the buffer.
  have hwrite : Operands.write instruction.signature.slots instruction.operands next =
      some final := (Operands.write_eq _ _ _).trans hpayload
  refine ⟨final.buffer, ?_, ?_⟩
  · simp only [encode, ne_eq, not_true_eq_false, if_false, if_neg (Nat.not_lt.mpr hsize),
      Instruction.head_eq_ok hmax, hfirst, hwrite]
  · simpa using hbuffer

/-- An instruction that is too long for a first word is refused. -/
theorem encode_eq_error {size : Nat} (buffer : Vector Word size)
    (hsize : instruction.wordCount ≤ size) (hmax : Frame.maxWords < instruction.wordCount) :
    instruction.signature.encode instruction buffer =
      (.error (.badSize instruction.wordCount), buffer) := by
  simp only [encode, ne_eq, not_true_eq_false, if_false, if_neg (Nat.not_lt.mpr hsize),
    Frame.head_eq_error_of_lt _ hmax]

/-- Recoverable operands are decoded from exactly their words. -/
theorem decode_payload
    (h : Operands.Recoverable instruction.signature.slots instruction.operands) :
    instruction.signature.decode instruction.payload = .ok instruction := by
  unfold decode Instruction.payload
  rw [Operands.read_words h]

/-- The operands of a decoded instruction were read from all words. -/
theorem read_of_decode {signature : Signature} {payload : List Word}
    (h : signature.decode payload = .ok instruction) : instruction.signature = signature ∧
      Operands.read instruction.signature.slots payload = (.ok instruction.operands, []) := by
  unfold decode at h
  split at h
  · cases h
  · next operands hread =>
    cases h
    exact ⟨rfl, hread⟩
  · cases h

/-- Whatever was decoded is of the signature, and its words are those it was decoded from once their
padding is cleared. -/
theorem payload_of_decode {signature : Signature} {payload : List Word}
    (h : signature.decode payload = .ok instruction) :
    instruction.signature = signature ∧
      ClearsTo instruction.padding.tail payload instruction.payload := by
  obtain ⟨hsignature, hread⟩ := read_of_decode h
  obtain ⟨consumed, hpayload, hclears⟩ := Operands.words_of_read hread
  rw [List.append_nil] at hpayload
  exact ⟨hsignature, hpayload ▸ hclears⟩

/-- Whatever was decoded is decoded again from its own words. -/
theorem decode_payload_of_decode {signature : Signature} {payload : List Word}
    (h : signature.decode payload = .ok instruction) :
    instruction.signature.decode instruction.payload = .ok instruction := by
  have hread := Operands.read_words_of_read (read_of_decode h).2 (Iff.refl ([] = []))
  rw [List.append_nil] at hread
  unfold decode Instruction.payload
  rw [hread]

end Signature

end ShaderBinary
