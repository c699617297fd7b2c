import ShaderBinary.Standard.Signatures
import ShaderBinary.Proofs.Dialect

/-!
# The standard instructions

The facts about the list of standard signatures that depend on the list: their opcodes are different and
not reserved, and all but one have operands that tell where they end. The exception is the signature of
a source, whose file and text are both optional: a source with a text and without a file is written as
if the first word of the text were the file (`SourceWithoutFile`).

`decode_encode_iff` says exactly which standard instructions are decoded again from what they are
encoded as.
-/

namespace ShaderBinary
namespace Standard

open Operand

/-- The signature of the language, the file and the text that a module was compiled from. -/
def sourceSignature : Signature :=
  ⟨"OpSource", 3, .debug,
    [⟨"language", .selector sourceLanguage⟩, ⟨"version", .word⟩, ⟨"file", .optional .id⟩,
      ⟨"source", .optional .text⟩], []⟩

/-- The text of a source is given, but not the file that it stands in. -/
def SourceWithoutFile (instruction : Instruction) : Prop :=
  ∃ language version text,
    instruction = ⟨sourceSignature, language, version, none, some text, ()⟩

theorem nodup_opcodes : (signatures.map Signature.opcode).Nodup := by decide +kernel

theorem opcode_ne_reserved : ∀ signature ∈ signatures, signature.opcode ≠ reservedOpcode := by
  decide +kernel

theorem plain_or_eq_sourceSignature : ∀ signature ∈ signatures,
    Operands.plain signature.slots = true ∨ signature = sourceSignature := by
  decide +kernel

theorem dialect_ofSignatures : dialect.OfSignatures :=
  Dialect.ofSignatures_empty.bindSignatures signatures

/-- The standard dialect with the codec of a name bound to an opcode that no standard signature has. -/
def crossBound : Dialect :=
  dialect.bind 1000 (Signature.codec ⟨"OpName", 5, .debug, [⟨"target", .id⟩, ⟨"name", .text⟩], []⟩)

/-- An instruction with that opcode, of a signature that `crossBound` has no codec for. -/
def foreign : Instruction :=
  ⟨⟨"Foreign", 1000, .body, [], []⟩, ()⟩

theorem crossBound_ofSignatureCodecs : crossBound.OfSignatureCodecs :=
  dialect_ofSignatures.ofSignatureCodecs.bind _ _

theorem dialect_knows {signature : Signature} (h : signature ∈ signatures) :
    dialect.Knows signature :=
  Dialect.codecFor_eq_ok_iff.mpr ⟨opcode_ne_reserved signature h,
    Dialect.find?_bindSignatures_of_mem nodup_opcodes h .empty⟩

/-- The first word behind the version is taken for the file. -/
theorem read_sourceSignature (language version w : Word) (later : List Word) :
    Operands.read sourceSignature.slots (language :: version :: w :: later) =
      Reading.map (fun source => (⟨language⟩, version, some ⟨w⟩, source))
        (Operands.read [⟨"source", .optional .text⟩] later) := by
  have hread : Operands.read sourceSignature.slots (language :: version :: w :: later) =
      Reading.map (Prod.mk ⟨language⟩) (Reading.map (Prod.mk version)
        (Reading.map (Prod.mk (some ⟨w⟩))
          (Operands.read [⟨"source", .optional .text⟩] later))) := rfl
  rw [hread]
  rcases Operands.read [⟨"source", .optional .text⟩] later with ⟨_ | _, _⟩ <;> rfl

/-- Without a file, the text of a source is not read back. -/
theorem decode_payload_ne_of_sourceWithoutFile {instruction : Instruction}
    (h : SourceWithoutFile instruction) :
    instruction.signature.decode instruction.payload ≠ .ok instruction := by
  obtain ⟨language, version, text, rfl⟩ := h
  obtain ⟨w, more, hpack⟩ : ∃ w more, Text.pack (Text.bytes text) = w :: more :=
    List.exists_cons_of_length_eq_add_one (Text.length_pack _)
  have hpayload : Instruction.payload
      ⟨sourceSignature, language, version, none, some text, ()⟩ =
        language.raw :: version :: w :: more := by
    rw [← hpack, ← List.append_nil (Text.pack (Text.bytes text))]
    rfl
  rw [hpayload]
  intro hdecode
  unfold Signature.decode at hdecode
  split at hdecode
  · cases hdecode
  · next operands hread =>
    -- Whatever becomes of the other words, the file that was read is not missing.
    rw [read_sourceSignature] at hread
    obtain ⟨source, -, rfl⟩ := Reading.map_eq_ok hread
    cases hdecode
  · cases hdecode

theorem recoverable_of_nulFree {instruction : Instruction}
    (hsignature : instruction.signature ∈ signatures)
    (hnulFree : Operands.NulFree instruction.signature.slots instruction.operands)
    (hfile : ¬SourceWithoutFile instruction) :
    Operands.Recoverable instruction.signature.slots instruction.operands := by
  rcases plain_or_eq_sourceSignature _ hsignature with hplain | hsource
  · exact Operands.recoverable_of_plain hplain hnulFree
  · obtain ⟨signature, operands⟩ := instruction
    cases hsource
    obtain ⟨language, version, file, source, _⟩ := operands
    have htext : (Shape.optional .text).Recoverable source :=
      Shape.recoverable_of_trailing rfl hnulFree.2.2.2.1
    -- A file keeps the text apart from it; without one there must be no text either.
    cases file with
    | some file =>
        exact ⟨.inl trivial, .inl trivial, .inl ⟨trivial, List.cons_ne_nil _ _⟩,
          .inr ⟨htext, rfl⟩, trivial⟩
    | none =>
        cases source with
        | none =>
            exact ⟨.inl trivial, .inl trivial, .inr ⟨trivial, rfl⟩, .inr ⟨htext, rfl⟩, trivial⟩
        | some text => exact absurd ⟨language, version, text, rfl⟩ hfile

/-- A standard instruction without a zero byte in its texts is read back, unless it is a source without
a file. -/
theorem decode_payload_iff {instruction : Instruction}
    (hsignature : instruction.signature ∈ signatures)
    (hnulFree : Operands.NulFree instruction.signature.slots instruction.operands) :
    instruction.signature.decode instruction.payload = .ok instruction ↔
      ¬SourceWithoutFile instruction :=
  ⟨fun hdecode hsource => decode_payload_ne_of_sourceWithoutFile hsource hdecode,
    fun hfile => Signature.decode_payload (recoverable_of_nulFree hsignature hnulFree hfile)⟩

/-- A standard instruction that fits can be encoded in a buffer of its size, and is decoded from it again
exactly if none of its texts holds a zero byte and it is no source with a text and without a file. -/
theorem decode_encode_iff {instruction : Instruction}
    (hsignature : instruction.signature ∈ signatures)
    (hmax : instruction.wordCount ≤ Frame.maxWords)
    (buffer : Vector Word instruction.wordCount) :
    ∃ encoded, dialect.encode instruction buffer = (.ok instruction.wordCount, encoded) ∧
      (dialect.decode encoded.toList = .ok instruction ↔
        Operands.NulFree instruction.signature.slots instruction.operands ∧
          ¬SourceWithoutFile instruction) := by
  have hknows := dialect_knows hsignature
  obtain ⟨encoded, hencode, hwords⟩ :=
    Dialect.encode_eq_ok hknows buffer (Nat.le_refl _) hmax
  rw [List.drop_eq_nil_of_le (Nat.le_of_eq buffer.length_toList), List.append_nil] at hwords
  refine ⟨encoded, hencode, ?_⟩
  rw [hwords, Dialect.decode_words hknows hmax]
  constructor
  · intro hdecode
    have hnulFree := Operands.nulFree_of_read (Signature.read_of_decode hdecode).2
    exact ⟨hnulFree, (decode_payload_iff hsignature hnulFree).mp hdecode⟩
  · rintro ⟨hnulFree, hfile⟩
    exact (decode_payload_iff hsignature hnulFree).mpr hfile

/-- A line of a source is decoded again, as its file is given before its text is. -/
theorem decode_encode_source_file :
    ∃ encoded, dialect.encode ⟨sourceSignature, ⟨2⟩, 450, some ⟨1⟩, some "ab", ()⟩
        (Vector.replicate 5 0) = (.ok 5, encoded) ∧ dialect.decode encoded.toList =
          .ok ⟨sourceSignature, ⟨2⟩, 450, some ⟨1⟩, some "ab", ()⟩ := by
  obtain ⟨encoded, hencode, hdecode⟩ := decode_encode_iff
    (show (Instruction.mk sourceSignature (⟨2⟩, 450, some ⟨1⟩, some "ab", ())).signature ∈
      signatures by decide +kernel) (by decide +kernel) (Vector.replicate 5 0)
  refine ⟨encoded, hencode, hdecode.mpr ⟨⟨trivial, trivial, trivial, ?_, trivial⟩, ?_⟩⟩
  · show (0 : UInt8) ∉ Text.bytes "ab"
    decide +kernel
  · rintro ⟨language, version, text, h⟩
    cases h

end Standard
end ShaderBinary
