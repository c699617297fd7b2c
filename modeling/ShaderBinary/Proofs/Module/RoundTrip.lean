import Mathlib.Data.List.Forall2
import ShaderBinary.Proofs.Module.Saving
import ShaderBinary.Proofs.Module.Verifying
import ShaderBinary.Proofs.Standard

/-!
# Saving and loading

* `Module.load_toBytes_iff`: a verified module of standard instructions is loaded again from what it was
  saved as, unless it holds a source with a text and without a file. Such a source is written without a
  mark for the missing file, and is read as one whose file is the first word of the text.
* `Module.toBytes_load_iff`: what was loaded is saved as the same bytes exactly if every padding byte
  was zero. Loading accepts any padding, and saving sets it to zero; this is all that can change
  (`Module.toBytes_of_madeOf`).
-/

namespace ShaderBinary

open Wire

namespace Module

variable {dialect : Dialect} {module : Module} {order : ByteOrder} {frames : List (List Word)}
  {bytes : List UInt8}

theorem load_ofBytes_eq_ok_iff (bytes : List UInt8) (module : Module) :
    load dialect (.ofBytes bytes) = .ok module ↔
      ∃ order frames, module.MadeOf dialect order frames bytes :=
  load_eq_ok_iff rfl (delivers_ofBytes bytes) module

/-! ## Loading what was saved -/

theorem instruction_failure?_of_verify (h : module.verify = .ok ()) :
    ∀ instruction ∈ module.code, instruction.failure? = none :=
  (verify_eq_ok_iff.mp h).1

/-- The bytes of a saved module are loaded as the module exactly if each of its instructions is decoded
from its words. -/
theorem load_image_iff (hsupported : module.header.Supported order)
    (hmax : ∀ instruction ∈ module.code, instruction.wordCount ≤ Frame.maxWords) :
    load dialect (.ofBytes (module.header.image order ++
        order.bytesOf (module.code.flatMap Instruction.words))) = .ok module ↔
      ∀ instruction ∈ module.code, dialect.decode instruction.words = .ok instruction := by
  have hannounced : ∀ frame ∈ module.code.map Instruction.words, Frame.Announced frame := by
    intro frame hframe
    obtain ⟨instruction, hinstruction, rfl⟩ := List.mem_map.mp hframe
    exact Dialect.announced_words (hmax instruction hinstruction)
  rw [load_ofBytes_eq_ok_iff]
  constructor
  · rintro ⟨order', frames, h⟩
    obtain rfl : order = order' := Except.ok.inj (hsupported.order_eq.symm.trans
      h.supported.order_eq)
    -- The bytes fix the words, and the words can be cut into frames in one way only.
    have hwords := order.bytesOf_injective (List.append_cancel_left h.bytes_eq)
    rw [List.flatMap_def] at hwords
    rw [← Frame.eq_of_flatten_eq hannounced h.announced hwords] at h
    have hdecoded := h.decoded
    rw [List.forall₂_map_left_iff, List.forall₂_same] at hdecoded
    exact hdecoded
  · intro hdecode
    refine ⟨order, module.code.map Instruction.words, hsupported, hannounced, ?_, ?_⟩
    · rw [List.forall₂_map_left_iff, List.forall₂_same]
      exact hdecode
    · rw [List.flatMap_def]

/-- A verified module of standard instructions that was saved is loaded again unchanged exactly if none
of its sources has a text without a file. -/
theorem load_toBytes_iff
    (hstandard : ∀ instruction ∈ module.code, instruction.signature ∈ Standard.signatures)
    (hverify : module.verify = .ok ()) (hsave : module.toBytes Standard.dialect = .ok bytes) :
    load Standard.dialect (.ofBytes bytes) = .ok module ↔
      ∀ instruction ∈ module.code, ¬Standard.SourceWithoutFile instruction := by
  have hknows : ∀ instruction ∈ module.code, Standard.dialect.Knows instruction.signature :=
    fun instruction h => Standard.dialect_knows (hstandard instruction h)
  have hfailure := instruction_failure?_of_verify hverify
  obtain ⟨order, hsupported, hmax, rfl⟩ := (toBytes_eq_ok_iff hknows bytes).mp hsave
  rw [load_image_iff hsupported hmax]
  refine forall₂_congr fun instruction h => ?_
  rw [Dialect.decode_words (hknows instruction h) (hmax instruction h)]
  exact Standard.decode_payload_iff (hstandard instruction h)
    (Instruction.nulFree_of_failure?_eq_none (hfailure instruction h))

/-- A module with a source and nothing else but what every module needs. -/
def ofSource (file : Option Operand.Id) (text : Option String) : Module where
  header := .ofOrder .little
  code :=
    [⟨Standard.sourceSignature, ⟨2⟩, 450, file, text, ()⟩,
      ⟨⟨"OpMemoryModel", 14, .memoryModel,
          [⟨"addressing_model", .selector Standard.addressingModel⟩,
            ⟨"memory_model", .selector Standard.memoryModel⟩], []⟩, ⟨0⟩, ⟨1⟩, ()⟩,
      ⟨⟨"OpEntryPoint", 15, .entryPoint,
          [⟨"execution_model", .selector Standard.executionModel⟩, ⟨"entry_point", .id⟩,
            ⟨"name", .text⟩, ⟨"interface", .list .id⟩], []⟩, ⟨0⟩, ⟨1⟩, "main", [], ()⟩,
      ⟨⟨"OpExecutionMode", 16, .executionMode,
          [⟨"entry_point", .id⟩, ⟨"mode", .selector Standard.executionMode⟩,
            ⟨"literals", .list .word⟩], []⟩, ⟨1⟩, ⟨0⟩, [], ()⟩]

/-- With a file, the text of a source is loaded again. -/
theorem load_ofSource_file :
    load Standard.dialect (.ofBytes (ByteOrder.little.bytesOf
      [0x03022307, 0x00010000, 0, 0, 0, 0x00050003, 2, 450, 7, 0x6261, 0x0003000E, 0, 1,
        0x0005000F, 0, 1, 0x6E69616D, 0, 0x00030010, 1, 0])) =
      .ok (ofSource (some ⟨7⟩) (some "ab")) := by
  refine (load_toBytes_iff (by decide +kernel) (by decide +kernel) (by decide +kernel)).mpr ?_
  rintro _ hmem ⟨language, version, text, rfl⟩
  simp [ofSource, Standard.sourceSignature] at hmem

/-- Without a file, the text of a source is loaded as a file. -/
theorem not_load_toBytes : ¬∀ (module : Module) (bytes : List UInt8),
    (∀ instruction ∈ module.code, instruction.signature ∈ Standard.signatures) →
    module.verify = .ok () → module.toBytes Standard.dialect = .ok bytes →
    load Standard.dialect (.ofBytes bytes) = .ok module := by
  intro h
  have hload := h (ofSource none (some "ab")) (ByteOrder.little.bytesOf
      [0x03022307, 0x00010000, 0, 0, 0, 0x00040003, 2, 450, 0x6261, 0x0003000E, 0, 1,
        0x0005000F, 0, 1, 0x6E69616D, 0, 0x00030010, 1, 0])
    (by decide +kernel) (by decide +kernel) (by decide +kernel)
  revert hload
  decide +kernel

/-! ## Saving what was loaded -/

/-- Which bytes of a saved module are padding. -/
def paddingMask (module : Module) : List Bool :=
  match module.header.order with
  | .error _ => []
  | .ok order =>
    List.replicate 20 false ++ order.paddingMask (module.code.flatMap Instruction.padding)

/-- The instructions of a module that was loaded are known and short enough, and their words are those
of its frames once their padding is cleared. -/
theorem clearsTo_of_decoded (hdialect : dialect.OfSignatures) {code : List Instruction}
    (hframes : ∀ frame ∈ frames, Frame.Announced frame)
    (h : List.Forall₂ (fun frame instruction => dialect.decode frame = .ok instruction)
      frames code) :
    (∀ instruction ∈ code, dialect.Knows instruction.signature ∧
        instruction.wordCount ≤ Frame.maxWords) ∧
      ClearsTo (code.flatMap Instruction.padding) frames.flatten
        (code.flatMap Instruction.words) := by
  induction h with
  | nil => exact ⟨by simp, .nil⟩
  | @cons frame instruction frames code hfirst hlater ih =>
      have hframe := hframes frame List.mem_cons_self
      obtain ⟨hknown, hclears⟩ := ih fun other hother => hframes other (List.mem_cons_of_mem _ hother)
      obtain ⟨hknows, hcount, hclearsFirst⟩ := Dialect.words_of_decode hdialect hframe hfirst
      obtain ⟨first, later, rfl, hsize⟩ := hframe
      -- A frame that was read is never too long to be written.
      have hmax : instruction.wordCount ≤ Frame.maxWords := by
        rw [hcount, List.length_cons, ← hsize]
        exact Frame.wordsOf_le first
      refine ⟨?_, hclearsFirst.append hclears⟩
      intro other hother
      rcases List.mem_cons.mp hother with rfl | hlater
      · exact ⟨hknows, hmax⟩
      · exact hknown other hlater

theorem padding_le_of_mem_code {code : List Instruction} :
    ∀ p ∈ code.flatMap Instruction.padding, p ≤ 4 := by
  intro p hp
  obtain ⟨instruction, -, hinstruction⟩ := List.mem_flatMap.mp hp
  exact Nat.le_succ_of_le (instruction.padding_le p hinstruction)

/-- Saving what was loaded clears the padding and changes nothing else. -/
theorem toBytes_of_madeOf (hdialect : dialect.OfSignatures)
    (h : module.MadeOf dialect order frames bytes) :
    module.toBytes dialect = .ok (clearBytes module.paddingMask bytes) ∧
      module.paddingMask.length = bytes.length := by
  obtain ⟨hknown, hclears⟩ := clearsTo_of_decoded hdialect h.announced h.decoded
  have hmask : module.paddingMask = List.replicate (module.header.image order).length false ++
      order.paddingMask (module.code.flatMap Instruction.padding) := by
    unfold paddingMask
    rw [h.supported.order_eq, Header.length_image]
  have hlength : (order.paddingMask (module.code.flatMap Instruction.padding)).length =
      (order.bytesOf frames.flatten).length := by
    rw [order.length_paddingMask padding_le_of_mem_code, hclears.length_eq,
      order.length_bytesOf]
  constructor
  · refine (toBytes_eq_ok_iff (fun instruction hi => (hknown instruction hi).1) _).mpr
      ⟨order, h.supported, fun instruction hi => (hknown instruction hi).2, ?_⟩
    rw [h.bytes_eq, hmask, clearBytes_append (List.length_replicate ..),
      clearBytes_replicate_false,
      ← order.bytesOf_clearPadding hclears.length_eq padding_le_of_mem_code,
      hclears.clearPadding_eq]
  · rw [hmask, h.bytes_eq, List.length_append, List.length_append, List.length_replicate, hlength]

/-- What was loaded can always be saved, and is saved as the same bytes exactly if every padding byte was
zero. -/
theorem toBytes_load_iff (hload : load Standard.dialect (.ofBytes bytes) = .ok module) :
    ∃ saved, module.toBytes Standard.dialect = .ok saved ∧
      (saved = bytes ↔ ∀ i : Nat, module.paddingMask[i]? = some true → bytes[i]? = some 0) := by
  obtain ⟨order, frames, h⟩ := (load_ofBytes_eq_ok_iff bytes module).mp hload
  obtain ⟨hsaved, hlength⟩ := toBytes_of_madeOf Standard.dialect_ofSignatures h
  exact ⟨_, hsaved, clearBytes_eq_self_iff hlength⟩

/-- A module with one text. -/
def ofText (text : String) : Module :=
  ⟨.ofOrder .little, [⟨⟨"OpString", 7, .debug, [⟨"result", .id⟩, ⟨"string", .text⟩], []⟩,
    ⟨1⟩, text, ()⟩]⟩

/-- A padding byte that is not zero is not saved. -/
theorem toBytes_ofText_ne :
    ∃ saved, (ofText "ab").toBytes Standard.dialect = .ok saved ∧
      saved ≠ ByteOrder.little.bytesOf
        [0x03022307, 0x00010000, 0, 0, 0, 0x00030007, 1, 0x01006261] := by
  obtain ⟨saved, hsaved, hiff⟩ := toBytes_load_iff
    (show load Standard.dialect (.ofBytes (ByteOrder.little.bytesOf
      [0x03022307, 0x00010000, 0, 0, 0, 0x00030007, 1, 0x01006261])) = .ok (ofText "ab") by
        decide +kernel)
  exact ⟨saved, hsaved, fun h => absurd (hiff.mp h 31 (by decide +kernel)) (by decide +kernel)⟩

theorem not_toBytes_load : ¬∀ (bytes : List UInt8) (module : Module),
    load Standard.dialect (.ofBytes bytes) = .ok module →
    module.toBytes Standard.dialect = .ok bytes := by
  intro h
  have hsave := h (ByteOrder.little.bytesOf
      [0x03022307, 0x00010000, 0, 0, 0, 0x00030007, 1, 0x01006261]) (ofText "ab")
    (by decide +kernel)
  revert hsave
  decide +kernel

end Module
end ShaderBinary
