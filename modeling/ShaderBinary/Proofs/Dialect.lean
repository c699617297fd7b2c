import ShaderBinary.Dialect
import ShaderBinary.Proofs.Instruction

/-!
# Dialects made of signatures

* `Dialect.Knows`: the dialect binds a signature's opcode to the signature's codec.
* `Dialect.OfSignatureCodecs`: every codec of the dialect is that of a signature, which may have been bound to
  the opcode of another one, or to one that no signature has.
* `Dialect.OfSignatures`: besides, every codec is bound to the opcode of its own signature. Dialects that were
  built with `bindSignatures` are of this kind, also where one opcode was bound more than once.

`decode_words` says what a dialect does to the words of a known instruction, and `encode_eq_ok` what it writes.
Whatever the codecs of signatures are bound to, what they do not write they refuse
(`OfSignatureCodecs.settles`), in a way that does not depend on the buffer (`Dialect.Refuses`), and what they
do not decode is wrong with the words (`OfSignatureCodecs.ofWords_of_decode`). Only where they are bound to
their own opcodes is what was decoded also known (`words_of_decode`), and decoded again from what is written
(`decode_words_of_decode`).
-/

namespace ShaderBinary
namespace Dialect

/-! ## Bindings -/

theorem find?_insertBinding (opcode : Opcode) (codec : Codec) (other : Opcode)
    (bindings : List (Opcode × Codec)) :
    (insertBinding opcode codec bindings).find? (fun binding => binding.1 == other) =
      if opcode = other then some (opcode, codec)
      else bindings.find? fun binding => binding.1 == other := by
  induction bindings with
  | nil => by_cases hsame : opcode = other <;> simp [insertBinding, hsame]
  | cons first later ih =>
      unfold insertBinding
      split
      · by_cases hsame : opcode = other <;> simp [hsame]
      · split
        · next hfirst =>
          subst hfirst
          by_cases hsame : first.1 = other <;> simp [hsame]
        · next hfirst =>
          by_cases hother : first.1 = other
          · have hopcode : opcode ≠ other := hother ▸ hfirst
            have hmatches : (first.1 == other) = true := beq_iff_eq.mpr hother
            simp only [List.find?_cons, hmatches, if_neg hopcode]
          · have hdiffers : (first.1 == other) = false := beq_eq_false_iff_ne.mpr hother
            simp only [List.find?_cons, hdiffers, ih]

theorem find?_bind (dialect : Dialect) (opcode : Opcode) (codec : Codec) (other : Opcode) :
    (dialect.bind opcode codec).find? other =
      if opcode = other then some codec else dialect.find? other := by
  unfold find? bind
  rw [find?_insertBinding]
  split <;> rfl

theorem find?_bindSignature (dialect : Dialect) (signature : Signature) (opcode : Opcode) :
    (dialect.bindSignature signature).find? opcode =
      if signature.opcode = opcode then some signature.codec else dialect.find? opcode :=
  find?_bind dialect _ _ opcode

/-- Every codec of the dialect is that of a signature, whatever opcode it is bound to. -/
def OfSignatureCodecs (dialect : Dialect) : Prop :=
  ∀ opcode codec, dialect.find? opcode = some codec →
    ∃ signature : Signature, codec = signature.codec

/-- Every opcode that is bound is bound to the codec of a signature that has this opcode. -/
def OfSignatures (dialect : Dialect) : Prop :=
  ∀ opcode codec, dialect.find? opcode = some codec →
    ∃ signature : Signature, signature.opcode = opcode ∧ codec = signature.codec

/-- The dialect binds the signature's opcode to its codec. -/
def Knows (dialect : Dialect) (signature : Signature) : Prop :=
  dialect.codecFor signature.opcode = .ok signature.codec

theorem OfSignatures.ofSignatureCodecs {dialect : Dialect} (h : dialect.OfSignatures) :
    dialect.OfSignatureCodecs := by
  intro opcode codec hfind
  obtain ⟨signature, -, hcodec⟩ := h opcode codec hfind
  exact ⟨signature, hcodec⟩

/-- The codec of a signature can be bound to any opcode. -/
theorem OfSignatureCodecs.bind {dialect : Dialect} (h : dialect.OfSignatureCodecs) (opcode : Opcode)
    (signature : Signature) : (dialect.bind opcode signature.codec).OfSignatureCodecs := by
  intro other codec hfind
  rw [find?_bind] at hfind
  split at hfind
  · exact ⟨signature, (Option.some.inj hfind).symm⟩
  · exact h other codec hfind

theorem ofSignatures_empty : empty.OfSignatures := by
  intro opcode codec h
  cases h

theorem OfSignatures.bindSignature {dialect : Dialect} (h : dialect.OfSignatures)
    (signature : Signature) : (dialect.bindSignature signature).OfSignatures := by
  intro opcode codec hfind
  rw [find?_bindSignature] at hfind
  split at hfind
  · next hsame => exact ⟨signature, hsame, (Option.some.inj hfind).symm⟩
  · exact h opcode codec hfind

theorem OfSignatures.bindSignatures {dialect : Dialect} (h : dialect.OfSignatures)
    (signatures : List Signature) : (dialect.bindSignatures signatures).OfSignatures := by
  induction signatures generalizing dialect with
  | nil => exact h
  | cons signature later ih => exact ih (h.bindSignature signature)

/-- An opcode that none of the signatures has keeps its codec. -/
theorem find?_bindSignatures_of_notMem {opcode : Opcode} {signatures : List Signature}
    (h : opcode ∉ signatures.map Signature.opcode) (dialect : Dialect) :
    (dialect.bindSignatures signatures).find? opcode = dialect.find? opcode := by
  induction signatures generalizing dialect with
  | nil => rfl
  | cons signature later ih =>
      rw [List.map_cons, List.mem_cons, not_or] at h
      exact (ih h.2 (dialect.bindSignature signature)).trans
        ((find?_bindSignature dialect signature opcode).trans (if_neg fun hsame => h.1 hsame.symm))

/-- Signatures with different opcodes are all bound. -/
theorem find?_bindSignatures_of_mem {signature : Signature} {signatures : List Signature}
    (hnodup : (signatures.map Signature.opcode).Nodup) (h : signature ∈ signatures)
    (dialect : Dialect) :
    (dialect.bindSignatures signatures).find? signature.opcode = some signature.codec := by
  induction signatures generalizing dialect with
  | nil => cases h
  | cons first later ih =>
      obtain ⟨hfirst, hlater⟩ := List.nodup_cons.mp hnodup
      rcases List.mem_cons.mp h with rfl | hmem
      · exact (find?_bindSignatures_of_notMem hfirst (dialect.bindSignature signature)).trans
          ((find?_bindSignature dialect signature _).trans (if_pos rfl))
      · exact ih hlater hmem (dialect.bindSignature first)

theorem codecFor_eq_ok_iff {dialect : Dialect} {opcode : Opcode} {codec : Codec} :
    dialect.codecFor opcode = .ok codec ↔
      opcode ≠ reservedOpcode ∧ dialect.find? opcode = some codec := by
  unfold codecFor
  by_cases hreserved : opcode = reservedOpcode
  · simp [hreserved]
  · rw [if_neg hreserved]
    cases dialect.find? opcode <;> simp [hreserved]

end Dialect

/-! ## Failures -/

/-- The failures that tell what is wrong with the words of an instruction. -/
inductive Failure.OfWords : Failure → Prop
  | size : OfWords (.badSize 0)
  | missing (opcode : Opcode) : OfWords (.missingOperands opcode)
  | excess (opcode : Opcode) (count : Nat) : OfWords (.excessOperands opcode count)
  | text (opcode : Opcode) : OfWords (.badText opcode)
  | unknown (opcode : Opcode) : OfWords (.unknownOpcode opcode)
  | reserved (opcode : Opcode) : OfWords (.reservedOpcode opcode)

theorem Signature.ofWords_of_decode {signature : Signature} {payload : List Word} {failure : Failure}
    (h : signature.decode payload = .error failure) : failure.OfWords := by
  unfold decode at h
  split at h
  · next lack _ _ =>
    cases h
    cases lack with
    | words => exact .missing _
    | text => exact .text _
  · cases h
  · cases h
    exact .excess _ _

namespace Dialect

/-! ## Instructions -/

variable {dialect : Dialect} {instruction : Instruction}

/-- A known instruction that fits is written at the front of the buffer. -/
theorem encode_eq_ok {size : Nat} (hknows : dialect.Knows instruction.signature)
    (buffer : Vector Word size) (hsize : instruction.wordCount ≤ size)
    (hmax : instruction.wordCount ≤ Frame.maxWords) :
    ∃ written, dialect.encode instruction buffer = (.ok instruction.wordCount, written) ∧
      written.toList = instruction.words ++ buffer.toList.drop instruction.wordCount := by
  unfold encode
  rw [hknows]
  exact Signature.encode_eq_ok buffer hsize hmax

theorem encode_eq_error {size : Nat} (hknows : dialect.Knows instruction.signature)
    (buffer : Vector Word size) (hsize : instruction.wordCount ≤ size)
    (hmax : Frame.maxWords < instruction.wordCount) :
    dialect.encode instruction buffer = (.error (.badSize instruction.wordCount), buffer) := by
  unfold encode
  rw [hknows]
  exact Signature.encode_eq_error buffer hsize hmax

/-- An instruction that cannot be encoded, and what is said about it: no buffer that is long enough makes a
difference, and none is written to. -/
def Refuses (dialect : Dialect) (instruction : Instruction) (failure : Failure) : Prop :=
  ∀ (size : Nat) (buffer : Vector Word size), instruction.wordCount ≤ size →
    dialect.encode instruction buffer = (.error failure, buffer)

/-- An instruction is known and short enough, or is refused. -/
def Settles (dialect : Dialect) (instruction : Instruction) : Prop :=
  (dialect.Knows instruction.signature ∧ instruction.wordCount ≤ Frame.maxWords) ∨
    ∃ failure, dialect.Refuses instruction failure

theorem settles_of_knows (hknows : dialect.Knows instruction.signature) :
    dialect.Settles instruction := by
  rcases Nat.lt_or_ge Frame.maxWords instruction.wordCount with hlt | hle
  · exact .inr ⟨_, fun _ buffer hsize => encode_eq_error hknows buffer hsize hlt⟩
  · exact .inl ⟨hknows, hle⟩

/-- Codecs of signatures encode an instruction as its signature says or not at all. -/
theorem OfSignatureCodecs.settles (h : dialect.OfSignatureCodecs) (instruction : Instruction) :
    dialect.Settles instruction := by
  cases hcodec : dialect.codecFor instruction.signature.opcode with
  | error failure =>
      refine .inr ⟨failure, fun _ buffer _ => ?_⟩
      unfold encode
      rw [hcodec]
  | ok codec =>
      obtain ⟨signature, rfl⟩ := h _ codec (codecFor_eq_ok_iff.mp hcodec).2
      by_cases hsame : instruction.signature = signature
      · apply settles_of_knows
        rw [Knows, hcodec, hsame]
      · -- The opcode is bound to the codec of another signature.
        refine .inr ⟨.foreignInstruction instruction.signature.opcode signature.name,
          fun _ buffer _ => ?_⟩
        unfold encode
        rw [hcodec]
        exact if_pos hsame

/-- What an instruction is refused with, if it is. -/
def refusal? (dialect : Dialect) (instruction : Instruction) : Option Failure :=
  match dialect.encode instruction (Vector.replicate instruction.wordCount 0) with
  | (.error failure, _) => some failure
  | (.ok _, _) => none

theorem refusal?_of_knows (hknows : dialect.Knows instruction.signature)
    (hmax : instruction.wordCount ≤ Frame.maxWords) : dialect.refusal? instruction = none := by
  obtain ⟨written, hencode, -⟩ :=
    encode_eq_ok hknows (Vector.replicate instruction.wordCount 0) (Nat.le_refl _) hmax
  rw [refusal?, hencode]

theorem Refuses.refusal?_eq {failure : Failure} (h : dialect.Refuses instruction failure) :
    dialect.refusal? instruction = some failure := by
  rw [refusal?, h _ _ (Nat.le_refl _)]

/-- A known instruction is refused exactly if it is too long. -/
theorem refusal?_eq_none_iff (hknows : dialect.Knows instruction.signature) :
    dialect.refusal? instruction = none ↔ instruction.wordCount ≤ Frame.maxWords := by
  refine ⟨fun hnone => ?_, refusal?_of_knows hknows⟩
  by_contra hbeyond
  have hrefuses : dialect.Refuses instruction (.badSize instruction.wordCount) :=
    fun _ buffer hsize => encode_eq_error hknows buffer hsize (Nat.lt_of_not_le hbeyond)
  rw [hrefuses.refusal?_eq] at hnone
  cases hnone

/-- The instructions before the first one that is refused. -/
def encodable (dialect : Dialect) (code : List Instruction) : List Instruction :=
  code.takeWhile fun instruction => (dialect.refusal? instruction).isNone

theorem encodable_cons_of_none (h : dialect.refusal? instruction = none)
    (later : List Instruction) :
    dialect.encodable (instruction :: later) = instruction :: dialect.encodable later :=
  List.takeWhile_cons_of_pos (by rw [h]; rfl)

theorem encodable_cons_of_some {failure : Failure}
    (h : dialect.refusal? instruction = some failure) (later : List Instruction) :
    dialect.encodable (instruction :: later) = [] :=
  List.takeWhile_cons_of_neg (by rw [h]; exact Bool.false_ne_true)

/-- Without a refusal, all instructions are encodable. -/
theorem encodable_eq_self {code : List Instruction}
    (h : code.findSome? dialect.refusal? = none) : dialect.encodable code = code :=
  List.takeWhile_eq_self_iff.mpr fun instruction hinstruction => by
    rw [List.findSome?_eq_none_iff.mp h instruction hinstruction]
    rfl

/-- The opcode in the words of a known instruction finds its codec. -/
theorem decode_words (hknows : dialect.Knows instruction.signature)
    (hmax : instruction.wordCount ≤ Frame.maxWords) :
    dialect.decode instruction.words = instruction.signature.decode instruction.payload := by
  obtain ⟨-, -, hopcode⟩ := Frame.head_eq_ok_iff.mp (Instruction.head_eq_ok hmax)
  unfold decode Instruction.words
  simp only [hopcode]
  rw [hknows]
  rfl

/-- An instruction was decoded by the codec that the opcode in the first word is bound to. -/
theorem codec_of_decode {first : Word} {payload : List Word}
    (h : dialect.decode (first :: payload) = .ok instruction) :
    ∃ codec, dialect.codecFor (Frame.opcodeOf first) = .ok codec ∧
      codec.decode payload = .ok instruction := by
  unfold decode at h
  cases hcodec : dialect.codecFor (Frame.opcodeOf first) with
  | error failure => simp only [hcodec] at h; cases h
  | ok codec => exact ⟨codec, rfl, by simpa only [hcodec] using h⟩

/-- What signatures fail with tells what is wrong with the words. -/
theorem OfSignatureCodecs.ofWords_of_decode (h : dialect.OfSignatureCodecs) {frame : List Word} {failure : Failure}
    (hdecode : dialect.decode frame = .error failure) : failure.OfWords := by
  cases frame with
  | nil => cases hdecode; exact .size
  | cons first payload =>
      unfold decode at hdecode
      cases hcodec : dialect.codecFor (Frame.opcodeOf first) with
      | error found =>
          simp only [hcodec, Except.error.injEq] at hdecode
          subst hdecode
          unfold codecFor at hcodec
          split at hcodec
          · cases hcodec; exact .reserved _
          · split at hcodec <;> cases hcodec
            exact .unknown _
      | ok codec =>
          simp only [hcodec] at hdecode
          obtain ⟨signature, rfl⟩ := h _ codec (codecFor_eq_ok_iff.mp hcodec).2
          exact Signature.ofWords_of_decode hdecode

/-- Whatever was decoded from a frame is known, and its words are those of the frame once their padding
is cleared. -/
theorem words_of_decode (h : dialect.OfSignatures) {frame : List Word}
    (hframe : Frame.Announced frame) (hdecode : dialect.decode frame = .ok instruction) :
    dialect.Knows instruction.signature ∧ instruction.wordCount = frame.length ∧
      ClearsTo instruction.padding frame instruction.words := by
  obtain ⟨first, payload, rfl, hsize⟩ := hframe
  obtain ⟨codec, hcodec, hpayload⟩ := codec_of_decode hdecode
  obtain ⟨signature, hopcode, rfl⟩ := h _ codec (codecFor_eq_ok_iff.mp hcodec).2
  obtain ⟨rfl, hclears⟩ := Signature.payload_of_decode hpayload
  have hknows : dialect.Knows instruction.signature := by
    rw [Knows, hopcode, hcodec]
  have hcount : instruction.wordCount = payload.length + 1 := by
    rw [← instruction.length_padding, ← hclears.length_eq]
    rfl
  rw [← hcount] at hsize
  -- The first word is the one that encoding makes, as it holds the same size and opcode.
  have hfirst : Frame.head instruction.wordCount instruction.signature.opcode = .ok first :=
    Frame.head_eq_ok_iff.mpr ⟨instruction.wordCount_pos, hsize, hopcode.symm⟩
  rw [Instruction.head_eq_ok (hsize ▸ Frame.wordsOf_le first), Except.ok.injEq] at hfirst
  refine ⟨hknows, hcount, ?_⟩
  rw [Instruction.words, hfirst]
  exact (ClearsTo.single first).append hclears

/-- Whatever was decoded from a frame is decoded again from its own words. -/
theorem decode_words_of_decode (h : dialect.OfSignatures) {frame : List Word}
    (hframe : Frame.Announced frame) (hdecode : dialect.decode frame = .ok instruction) :
    dialect.decode instruction.words = .ok instruction := by
  obtain ⟨hknows, hcount, -⟩ := words_of_decode h hframe hdecode
  obtain ⟨first, payload, rfl, hsize⟩ := hframe
  have hmax : instruction.wordCount ≤ Frame.maxWords := by
    rw [hcount, List.length_cons, ← hsize]
    exact Frame.wordsOf_le first
  rw [decode_words hknows hmax]
  obtain ⟨codec, hcodec, hpayload⟩ := codec_of_decode hdecode
  obtain ⟨signature, -, rfl⟩ := h _ codec (codecFor_eq_ok_iff.mp hcodec).2
  exact Signature.decode_payload_of_decode hpayload

/-- The words of an instruction that fits are a frame. -/
theorem announced_words (hmax : instruction.wordCount ≤ Frame.maxWords) :
    Frame.Announced instruction.words := by
  obtain ⟨-, hsize, -⟩ := Frame.head_eq_ok_iff.mp (Instruction.head_eq_ok hmax)
  exact ⟨_, _, rfl, by rw [hsize, instruction.length_payload]⟩

end Dialect
end ShaderBinary
