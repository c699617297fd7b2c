import ShaderBinary.Proofs.Instruction.Extending
import ShaderBinary.Standard.Signatures

/-!
# The failures of the standard instructions

What decoding a standard instruction says about its operands is true: words that are in excess can be left
out, and operands that are missing can be supplied. The list of standard signatures enters by two facts about
the shapes of their operands, `completable_of_mem` and `closed_of_mem`.
-/

namespace ShaderBinary
namespace Standard

/-- An operand that takes whatever remains is followed by none that need words. -/
theorem completable_of_mem : ∀ signature ∈ signatures,
    Operands.completable signature.slots = true := by
  decide +kernel

/-- Only an operand that is optional or a list does not tell where it ends. -/
theorem closed_of_mem : ∀ signature ∈ signatures, ∀ slot ∈ signature.slots,
    slot.shape.dispensable = false → slot.shape.closed = true := by
  decide +kernel

/-- What decoding a standard instruction says about its operands is true, and is said of its opcode.

* If words are in excess, there are as many as it says, and at the end: without them an instruction is
  decoded, and with others behind them there are as many more.
* If operands are missing, they can be supplied.
* If no operand is optional or a list, the words of an instruction are the only ones: of any proper front
  of them operands are missing, or the text that it ends inside is bad, and all words behind them are in
  excess. -/
theorem operand_failures_truthful {signature : Signature} (h : signature ∈ signatures)
    (payload : List Word) :
    (∀ opcode count, signature.decode payload = .error (.excessOperands opcode count) →
      opcode = signature.opcode ∧ 1 ≤ count ∧ count ≤ payload.length ∧
        (∃ instruction, signature.decode (payload.take (payload.length - count)) = .ok instruction) ∧
        ∀ more, signature.decode (payload ++ more) =
          .error (.excessOperands signature.opcode (count + more.length))) ∧
      (∀ opcode, signature.decode payload = .error (.missingOperands opcode) →
        opcode = signature.opcode ∧
          ∃ more instruction, more ≠ [] ∧ signature.decode (payload ++ more) = .ok instruction) ∧
      ((∀ slot ∈ signature.slots, slot.shape.dispensable = false) →
        ∀ instruction, signature.decode payload = .ok instruction →
          (∀ k < payload.length, signature.decode (payload.take k) =
            .error (if Operands.insideText instruction.signature.slots instruction.operands k
              then .badText signature.opcode else .missingOperands signature.opcode)) ∧
          ∀ more ≠ [], signature.decode (payload ++ more) =
            .error (.excessOperands signature.opcode more.length)) := by
  refine ⟨fun opcode count hfails => ?_, fun opcode hfails => ?_, fun hfixed instruction hdecode => ?_⟩
  · obtain ⟨words, excess, instruction, rfl, hexcess, rfl, hdecode, hmore⟩ :=
      Signature.decode_of_excess hfails
    refine ⟨(Signature.read_of_decode_excess hfails).1, List.length_pos_iff.mpr hexcess, by simp, ?_,
      fun more => ?_⟩
    · exact ⟨instruction, by simpa using hdecode⟩
    · rw [List.append_assoc, hmore (excess ++ more) (by simp [hexcess]), List.length_append]
  · exact ⟨(Signature.read_of_decode_missing hfails).1,
      Signature.exists_decode_append_of_missing (completable_of_mem signature h) hfails⟩
  · have hclosed : Operands.Closed signature.slots := fun slot hslot =>
      closed_of_mem signature h slot hslot (hfixed slot hslot)
    exact ⟨fun k hk => Signature.decode_take_of_closed hclosed hdecode hk,
      fun more hmore => Signature.decode_append_of_closed hclosed hdecode hmore⟩

/-- A name is two operands, and both tell where they end. -/
def nameSignature : Signature :=
  ⟨"OpName", 5, .debug, [⟨"target", .id⟩, ⟨"name", .text⟩], []⟩

/-- The last operand is a list of pairs. -/
def phiSignature : Signature :=
  ⟨"OpPhi", 245, .body, [⟨"result_type", .id⟩, ⟨"result", .id⟩,
    ⟨"incoming", .list (.pair .id .id)⟩], []⟩

/-- A name is cut in its text, before it, and followed by two words; a list of pairs ends inside a pair. -/
theorem operand_failures_truthful_name :
    nameSignature ∈ signatures ∧ phiSignature ∈ signatures ∧
      nameSignature.decode [1, 0x6E69616D] = .error (.badText 5) ∧
      nameSignature.decode [1] = .error (.missingOperands 5) ∧
      nameSignature.decode [1, 0x6E69616D, 0, 8, 9] = .error (.excessOperands 5 2) ∧
      ∃ more instruction, more ≠ [] ∧
        phiSignature.decode ([1, 2, 10, 11, 12] ++ more) = .ok instruction := by
  have hnameMem : nameSignature ∈ signatures := by decide +kernel
  have hphiMem : phiSignature ∈ signatures := by decide +kernel
  obtain ⟨-, -, hname⟩ := operand_failures_truthful hnameMem [1, 0x6E69616D, 0]
  obtain ⟨-, hphi, -⟩ := operand_failures_truthful hphiMem [1, 2, 10, 11, 12]
  obtain ⟨hfront, hmore⟩ := hname (by decide) ⟨nameSignature, ⟨1⟩, "main", ()⟩ (by decide +kernel)
  refine ⟨hnameMem, hphiMem, hfront 2 (by decide), hfront 1 (by decide), hmore [8, 9] (by decide), ?_⟩
  exact (hphi 245 (by decide +kernel)).2

end Standard
end ShaderBinary
