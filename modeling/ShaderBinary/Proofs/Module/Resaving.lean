import ShaderBinary.Proofs.Module.RoundTrip

/-!
# Saving what was loaded

Whatever the signatures that a dialect is made of, a module that was loaded can be saved, and is loaded
again from what it was saved as. In between only padding has changed: `Module.paddingMask` marks the bytes
behind the terminators of texts, in their last words, and saving sets exactly these to zero
(`Module.resaved_of_load`).
-/

namespace ShaderBinary
namespace Module

variable {dialect : Dialect} {module : Module} {order : ByteOrder} {frames : List (List Word)}
  {bytes : List UInt8}

theorem paddingMask_eq (h : module.header.order = .ok order) :
    module.paddingMask = List.replicate 20 false ++
      order.paddingMask (module.code.flatMap Instruction.padding) := by
  unfold paddingMask
  rw [h]

/-- The padding of a module is behind the terminators of its texts. -/
theorem terminated_code (code : List Instruction) :
    Terminated (code.flatMap Instruction.padding) (code.flatMap Instruction.words) := by
  induction code with
  | nil => exact .nil
  | cons first later ih => exact first.terminated.append ih

/-- A padding byte of a module shares its word with a terminator, which is less significant. -/
theorem terminator_of_paddingMask (horder : module.header.order = .ok order) {i : Nat}
    (hi : module.paddingMask[i]? = some true) :
    ∃ t, t / 4 = i / 4 ∧ order.Below t i ∧ module.paddingMask[t]? = some false ∧
      (module.header.image order ++
        order.bytesOf (module.code.flatMap Instruction.words))[t]? = some 0 := by
  rw [paddingMask_eq horder] at hi ⊢
  by_cases hheader : i < 20
  · rw [List.getElem?_append_left (by rw [List.length_replicate]; exact hheader),
      List.getElem?_replicate, if_pos hheader] at hi
    cases hi
  · rw [List.getElem?_append_right (by rw [List.length_replicate]; omega),
      List.length_replicate] at hi
    have hle : ∀ p ∈ module.code.flatMap Instruction.padding, p ≤ 3 := by
      intro p hp
      obtain ⟨instruction, -, hinstruction⟩ := List.mem_flatMap.mp hp
      exact instruction.padding_le p hinstruction
    obtain ⟨t, ht, hbelow, hfalse, hzero⟩ :=
      order.terminator_of_paddingMask hle (terminated_code module.code) hi
    -- The header is made of whole words, so that the positions of both bytes move by as much.
    refine ⟨t + 20, by omega, ?_, ?_, ?_⟩
    · cases order <;> simp only [ByteOrder.Below] at hbelow ⊢ <;> omega
    · rw [List.getElem?_append_right (by rw [List.length_replicate]; omega),
        List.length_replicate, Nat.add_sub_cancel]
      exact hfalse
    · rw [List.getElem?_append_right (by rw [Header.length_image]; omega), Header.length_image,
        Nat.add_sub_cancel, hzero]

theorem decode_words_of_decoded (hdialect : dialect.OfSignatures) {code : List Instruction}
    (hframes : ∀ frame ∈ frames, Frame.Announced frame)
    (h : List.Forall₂ (fun frame instruction => dialect.decode frame = .ok instruction)
      frames code) :
    ∀ instruction ∈ code, dialect.decode instruction.words = .ok instruction := by
  induction h with
  | nil => simp
  | @cons frame instruction frames code hfirst hlater ih =>
      intro other hother
      rcases List.mem_cons.mp hother with rfl | hmem
      · exact Dialect.decode_words_of_decode hdialect (hframes frame List.mem_cons_self) hfirst
      · exact ih (fun frame hframe => hframes frame (List.mem_cons_of_mem _ hframe)) other hmem

/-- A module that was loaded can be saved. What is saved has the length of what was loaded, differs from
it at most in padding bytes, each of which is behind the terminator of a text in the same word and is
saved as zero, and is loaded as the same module. -/
theorem resaved_of_load (signatures : List Signature)
    (hload : load (Dialect.empty.bindSignatures signatures) (.ofBytes bytes) = .ok module) :
    ∃ order saved, module.header.order = .ok order ∧
      module.toBytes (Dialect.empty.bindSignatures signatures) = .ok saved ∧
      saved.length = bytes.length ∧ module.paddingMask.length = bytes.length ∧
      (∀ i : Nat, module.paddingMask[i]? = some false → saved[i]? = bytes[i]?) ∧
      (∀ i : Nat, module.paddingMask[i]? = some true → saved[i]? = some 0 ∧
        ∃ t, t / 4 = i / 4 ∧ order.Below t i ∧ module.paddingMask[t]? = some false ∧
          bytes[t]? = some 0) ∧
      (saved = bytes ↔ ∀ i : Nat, module.paddingMask[i]? = some true → bytes[i]? = some 0) ∧
      load (Dialect.empty.bindSignatures signatures) (.ofBytes saved) = .ok module := by
  have hdialect := Dialect.ofSignatures_empty.bindSignatures signatures
  obtain ⟨order, frames, h⟩ := (load_ofBytes_eq_ok_iff bytes module).mp hload
  obtain ⟨hsaved, hlength⟩ := toBytes_of_madeOf hdialect h
  obtain ⟨hknown, -⟩ := clearsTo_of_decoded hdialect h.announced h.decoded
  have hkept {i : Nat} (hi : module.paddingMask[i]? = some false) :=
    getElem?_clearBytes_of_false bytes hi
  -- What is saved is the image of the module, which is where terminators and instructions are found.
  obtain ⟨order', hsupported, hmax, himage⟩ :=
    (toBytes_eq_ok_iff (fun instruction hi => (hknown instruction hi).1) _).mp hsaved
  obtain rfl : order = order' :=
    Except.ok.inj (h.supported.order_eq.symm.trans hsupported.order_eq)
  refine ⟨order, _, h.supported.order_eq, hsaved, length_clearBytes hlength, hlength,
    fun i hi => hkept hi, fun i hi => ⟨getElem?_clearBytes_of_true hlength hi, ?_⟩,
    clearBytes_eq_self_iff hlength, ?_⟩
  · obtain ⟨t, hword, hbelow, hfalse, hzero⟩ := terminator_of_paddingMask h.supported.order_eq hi
    refine ⟨t, hword, hbelow, hfalse, ?_⟩
    rw [← hkept hfalse, himage, hzero]
  · rw [himage]
    exact (load_image_iff hsupported hmax).mpr
      (decode_words_of_decoded hdialect h.announced h.decoded)

/-- A signature whose operands are texts, each followed by a word unless it is the last one. -/
def namesSignature : Signature :=
  ⟨"Names", 1000, .debug, [⟨"names", .list (.pair .text (.optional .word))⟩], []⟩

/-- A big-endian module with two texts, the second of which is not followed by a word. -/
def ofNames : Module :=
  ⟨.ofOrder .big, [⟨namesSignature, [("ab", some 7), ("c", none)], ()⟩]⟩

/-- The byte behind the terminator of the first text is the first one of its word. -/
theorem resaved_ofNames : ∃ saved,
    ofNames.toBytes (Dialect.empty.bindSignatures [namesSignature]) = .ok saved ∧
      saved ≠ ByteOrder.big.bytesOf
        [0x03022307, 0x00010000, 0, 0, 0, 0x000403E8, 0x01006261, 7, 0x63] ∧
      load (Dialect.empty.bindSignatures [namesSignature]) (.ofBytes saved) = .ok ofNames := by
  obtain ⟨order, saved, -, hsaved, -, -, -, -, hiff, hload⟩ := resaved_of_load [namesSignature]
    (show load _ (.ofBytes (ByteOrder.big.bytesOf
      [0x03022307, 0x00010000, 0, 0, 0, 0x000403E8, 0x01006261, 7, 0x63])) = .ok ofNames by
        decide +kernel)
  exact ⟨saved, hsaved,
    fun h => absurd (hiff.mp h 24 (by decide +kernel)) (by decide +kernel), hload⟩

end Module
end ShaderBinary
