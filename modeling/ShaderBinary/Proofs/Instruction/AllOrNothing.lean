import ShaderBinary.Proofs.Instruction

/-!
# Encoding is all or nothing

The codec of a signature writes an instruction as a whole or leaves the buffer as it was. That it never runs
over the end rests on two recursions on shapes that agree: `Shape.wordCount`, which the room is measured by,
and `Shape.write`, which takes the words one after another (`Shape.write_eq_none_iff`,
`Shape.position_of_write`).

`Signature.encode_all_or_nothing` is the whole contract of encoding.
-/

namespace ShaderBinary

open Operand

namespace Operand.Shape

variable {size : Nat} {shape : Shape} {value : shape.Value} {cursor next : Cursor size}

/-- Writing runs over the end exactly if the operand takes more words than there are left. -/
theorem write_eq_none_iff : shape.write value cursor = none ↔
    size - cursor.position < shape.wordCount value := by
  rw [write_eq, Cursor.putAll_eq_none_iff, length_words]

/-- Writing moves the cursor by as many words as the operand takes. -/
theorem position_of_write (h : shape.write value cursor = some next) :
    next.position = cursor.position + shape.wordCount value := by
  rw [write_eq] at h
  rw [Cursor.position_of_putAll h, length_words]

end Operand.Shape

namespace Signature

variable {signature : Signature} {instruction : Instruction} {size : Nat}

theorem encode_of_foreign (h : instruction.signature ≠ signature) (buffer : Vector Word size) :
    signature.encode instruction buffer =
      (.error (.foreignInstruction instruction.signature.opcode signature.name), buffer) := by
  rw [encode, if_pos h]

/-- An instruction that has no room, or is too long for a first word, is refused. -/
theorem encode_of_lt (h : size < instruction.wordCount ∨ Frame.maxWords < instruction.wordCount)
    (buffer : Vector Word size) :
    instruction.signature.encode instruction buffer =
      (.error (.badSize instruction.wordCount), buffer) := by
  by_cases hroom : size < instruction.wordCount
  · simp only [encode, ne_eq, not_true_eq_false, if_false, if_pos hroom]
  · exact encode_eq_error buffer (Nat.le_of_not_lt hroom) (h.resolve_left hroom)

/-- An instruction that is encoded is laid out behind a first word that holds its size and its opcode. -/
theorem encode_of_le (hsize : instruction.wordCount ≤ size)
    (hmax : instruction.wordCount ≤ Frame.maxWords) (buffer : Vector Word size) :
    ∃ written first,
      instruction.signature.encode instruction buffer = (.ok instruction.wordCount, written) ∧
        written.toList = first :: instruction.payload ++ buffer.toList.drop instruction.wordCount ∧
        Frame.wordsOf first = instruction.wordCount ∧
        Frame.opcodeOf first = instruction.signature.opcode := by
  obtain ⟨written, hencode, hwritten⟩ := encode_eq_ok buffer hsize hmax
  obtain ⟨-, hwords, hopcode⟩ := Frame.head_eq_ok_iff.mp (Instruction.head_eq_ok hmax)
  exact ⟨written, _, hencode, hwritten, hwords, hopcode⟩

/-- Encoding never runs over the end of the buffer, whatever instruction it is given.

* An instruction of another signature is refused, and so is one for which the buffer is too short or a first
  word too small. The buffer is then as it was.
* Any other instruction is written at the front. Its first word holds its size and the opcode, the words
  behind it are its own, and what follows in the buffer is as it was.

An operand alone runs over the end exactly if it takes more words than there are behind the cursor, and
otherwise moves the cursor by as many as it takes. -/
theorem encode_all_or_nothing (signature : Signature) (instruction : Instruction) {size : Nat}
    (buffer : Vector Word size) :
    (signature.encode instruction buffer).1 ≠ .error .overrun ∧
      (instruction.signature ≠ signature → signature.encode instruction buffer =
        (.error (.foreignInstruction instruction.signature.opcode signature.name), buffer)) ∧
      (instruction.signature = signature →
        (size < instruction.wordCount ∨ Frame.maxWords < instruction.wordCount →
          signature.encode instruction buffer =
            (.error (.badSize instruction.wordCount), buffer)) ∧
        (instruction.wordCount ≤ size → instruction.wordCount ≤ Frame.maxWords →
          ∃ written first,
            signature.encode instruction buffer = (.ok instruction.wordCount, written) ∧
              written.toList =
                first :: instruction.payload ++ buffer.toList.drop instruction.wordCount ∧
              instruction.payload.length + 1 = instruction.wordCount ∧
              Frame.wordsOf first = instruction.wordCount ∧
              Frame.opcodeOf first = signature.opcode)) ∧
      ∀ (shape : Shape) (value : shape.Value) (cursor : Cursor size),
        (shape.write value cursor = none ↔ size - cursor.position < shape.wordCount value) ∧
          ∀ next, shape.write value cursor = some next →
            next.position = cursor.position + shape.wordCount value := by
  refine ⟨?_, fun h => encode_of_foreign h buffer, ?_,
    fun shape value cursor => ⟨Shape.write_eq_none_iff, fun next => Shape.position_of_write⟩⟩
  · by_cases hsame : instruction.signature = signature
    · subst hsame
      by_cases hrefused : size < instruction.wordCount ∨ Frame.maxWords < instruction.wordCount
      · rw [encode_of_lt hrefused]
        simp
      · obtain ⟨written, first, hencode, -⟩ :=
          encode_of_le (show instruction.wordCount ≤ size by omega) (by omega) buffer
        rw [hencode]
        simp
    · rw [encode_of_foreign hsame]
      simp
  · rintro rfl
    refine ⟨fun hrefused => encode_of_lt hrefused buffer, fun hsize hmax => ?_⟩
    obtain ⟨written, first, hencode, hwritten, hwords, hopcode⟩ := encode_of_le hsize hmax buffer
    exact ⟨written, first, hencode, hwritten, instruction.length_payload, hwords, hopcode⟩

/-- A list of texts, each with an optional list behind it. -/
def nested : Signature :=
  ⟨"Nested", 300, .body, [⟨"parts", .list (.pair .text (.optional (.list .word)))⟩], []⟩

/-- Two texts are encoded in a buffer with one word to spare, and refused in one that is a word too short. -/
theorem encode_all_or_nothing_nested :
    (∃ written first, nested.encode ⟨nested, [("abcd", none), ("ab", some [7])], ()⟩
        (Vector.replicate 6 0xAAAAAAAA) = (.ok 5, written) ∧
      written.toList = [first, 0x64636261, 0, 0x00006261, 7, 0xAAAAAAAA] ∧
      Frame.wordsOf first = 5 ∧ Frame.opcodeOf first = 300) ∧
    nested.encode ⟨nested, [("abcd", none), ("ab", some [7])], ()⟩ (Vector.replicate 4 0xAAAAAAAA) =
      (.error (.badSize 5), Vector.replicate 4 0xAAAAAAAA) := by
  have hcontract {size : Nat} (buffer : Vector Word size) := encode_all_or_nothing nested
    ⟨nested, [("abcd", none), ("ab", some [7])], ()⟩ buffer
  constructor
  · obtain ⟨-, -, hsame, -⟩ := hcontract (Vector.replicate 6 0xAAAAAAAA)
    obtain ⟨written, first, hencode, hwritten, -, hwords, hopcode⟩ :=
      (hsame rfl).2 (by decide +kernel) (by decide +kernel)
    refine ⟨written, first, hencode, ?_, hwords, hopcode⟩
    rw [hwritten]
    exact congrArg (first :: ·) (by decide +kernel)
  · obtain ⟨-, -, hsame, -⟩ := hcontract (Vector.replicate 4 0xAAAAAAAA)
    exact (hsame rfl).1 (by decide +kernel)

end Signature

end ShaderBinary
