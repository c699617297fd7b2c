import Mathlib.Algebra.GroupWithZero.Nat
import ShaderBinary.Proofs.Module.Loading
import ShaderBinary.Proofs.Standard

/-!
# Loading what was cut off

The bytes of a module are cut off somewhere. Between two instructions that leaves a module with the first
of the instructions. Anywhere else loading finds the bytes truncated, and nothing else wrong with them,
whether the cut is in the header, in a word, or between the words of an instruction
(`Module.load_take`).
-/

namespace ShaderBinary

open Wire

/-! ## Frames -/

namespace Wire

variable {order : ByteOrder} {bytes left : List UInt8}

/-- A frame that is cut off is too short. -/
theorem Item.starts_take {words : List Word} (h : Frame.Announced words) {k : Nat} (hpos : 0 < k)
    (hlt : k < 4 * words.length) :
    Item.Starts order ((order.bytesOf words).take k) (.short ((order.bytesOf words).take k)) [] := by
  obtain ⟨first, later, rfl, hsize⟩ := h
  rw [List.length_cons] at hlt
  by_cases hfour : k < 4
  · refine .partWord (List.length_pos_iff.mp ?_) ?_
    · rw [List.length_take, ByteOrder.length_bytesOf, List.length_cons]
      omega
    · exact Nat.lt_of_le_of_lt (List.length_take_le _ _) hfour
  · obtain ⟨more, rfl⟩ : ∃ more, k = 4 + more := ⟨k - 4, by omega⟩
    rw [show order.bytesOf (first :: later) = order.bytesOf [first] ++ order.bytesOf later by simp,
      show 4 + more = 4 * [first].length + more from rfl, ByteOrder.take_bytesOf_append]
    refine .partFrame hsize ?_
    rw [List.length_take, ByteOrder.length_bytesOf]
    omega

/-- Bytes that are cut off inside of a frame are cut into the frames before it and what is left of it. -/
theorem items_take {frames : List (List Word)} (h : ∀ frame ∈ frames, Frame.Announced frame) {k : Nat}
    (hlt : k < (order.bytesOf frames.flatten).length)
    (hinside : ∀ j, k ≠ 4 * ((frames.take j).map List.length).sum) :
    ∃ j part, items order ((order.bytesOf frames.flatten).take k) =
      (frames.take j).map Item.frame ++ [.short part] := by
  induction frames generalizing k with
  | nil => exact absurd hlt (Nat.not_lt_zero k)
  | cons frame frames ih =>
      have hframe := h frame List.mem_cons_self
      rw [List.flatten_cons, ByteOrder.bytesOf_append] at hlt ⊢
      rw [List.length_append, ByteOrder.length_bytesOf] at hlt
      by_cases hfirst : k < 4 * frame.length
      · have hpos : 0 < k := Nat.pos_of_ne_zero (hinside 0)
        rw [List.take_append_of_le_length (by rw [ByteOrder.length_bytesOf]; omega),
          items_of_starts (Item.starts_take hframe hpos hfirst), items_nil]
        exact ⟨0, _, rfl⟩
      · -- The first frame is whole, and the cut is as far behind it.
        obtain ⟨more, rfl⟩ : ∃ more, k = 4 * frame.length + more := ⟨k - 4 * frame.length, by omega⟩
        have hlater : ∀ j, more ≠ 4 * ((frames.take j).map List.length).sum := by
          intro j hj
          apply hinside (j + 1)
          rw [List.take_succ_cons, List.map_cons, List.sum_cons, Nat.mul_add, ← hj]
        obtain ⟨j, part, hitems⟩ :=
          ih (fun other hother => h other (List.mem_cons_of_mem _ hother)) (by omega) hlater
        refine ⟨j + 1, part, ?_⟩
        rw [ByteOrder.take_bytesOf_append, items_of_starts (.frame _ hframe), hitems]
        rfl

end Wire

/-! ## Modules -/

namespace Module

variable {dialect : Dialect} {module : Module} {bytes : List UInt8}

/-- A module that is cut off between two frames is the module of the frames before. -/
theorem MadeOf.take {order : ByteOrder} {frames : List (List Word)}
    (h : module.MadeOf dialect order frames bytes) (j : Nat) :
    MadeOf dialect ⟨module.header, module.code.take j⟩ order (frames.take j)
      (bytes.take (20 + 4 * ((frames.take j).map List.length).sum)) where
  supported := h.supported
  announced := fun frame hframe => h.announced frame (List.mem_of_mem_take hframe)
  decoded := List.forall₂_take j h.decoded
  bytes_eq := by
    have hbytes : bytes = module.header.image order ++
        (order.bytesOf (frames.take j).flatten ++ order.bytesOf (frames.drop j).flatten) := by
      rw [← ByteOrder.bytesOf_append, ← List.flatten_append, List.take_append_drop]
      exact h.bytes_eq
    have hlength : (order.bytesOf (frames.take j).flatten).length =
        4 * ((frames.take j).map List.length).sum := by
      rw [ByteOrder.length_bytesOf, List.length_flatten]
    rw [hbytes, ← module.header.length_image order, ← hlength, List.take_length_add_append,
      List.take_left]

/-- Bytes of a module that are cut off anywhere else are truncated. -/
theorem MadeOf.load_take_of_inside {order : ByteOrder} {frames : List (List Word)}
    (h : module.MadeOf dialect order frames bytes) {k : Nat} (hlt : k < bytes.length)
    (hinside : ∀ j, k ≠ 20 + 4 * ((frames.take j).map List.length).sum) :
    load dialect (.ofBytes (bytes.take k)) = .error .truncated := by
  rw [h.bytes_eq] at hlt ⊢
  by_cases hheader : k < 20
  · have htake : (module.header.image order ++ order.bytesOf frames.flatten).take k =
        (module.header.image order).take k :=
      List.take_append_of_le_length (by rw [Header.length_image]; omega)
    rw [htake]
    obtain ⟨next, hread⟩ := Header.read_of_take h.supported hheader
      (show (Input.ofSource (.ofBytes _)).Holds _ from ⟨rfl, delivers_ofBytes _⟩)
    exact load_of_read_error hread
  · obtain ⟨more, rfl⟩ : ∃ more, k = 20 + more := ⟨k - 20, by omega⟩
    rw [List.length_append, Header.length_image] at hlt
    have hframes : ∀ j, more ≠ 4 * ((frames.take j).map List.length).sum :=
      fun j hj => hinside j (by rw [hj])
    obtain ⟨j, part, hitems⟩ := items_take h.announced
      (show more < (order.bytesOf frames.flatten).length by omega) hframes
    have htake : (module.header.image order ++ order.bytesOf frames.flatten).take (20 + more) =
        module.header.image order ++ (order.bytesOf frames.flatten).take more := by
      rw [← module.header.length_image order, List.take_length_add_append]
    rw [htake, load_image_append h.supported rfl (delivers_ofBytes _), hitems,
      Dialect.decodeItems_map_frame (List.forall₂_take j h.decoded)]
    rfl

/-- Bytes are made of frames in one way only. -/
theorem MadeOf.frames_eq {order : ByteOrder} {frames others : List (List Word)}
    (h : module.MadeOf dialect order frames bytes)
    (hothers : module.MadeOf dialect order others bytes) : frames = others := by
  have hbytes := List.append_cancel_left (h.bytes_eq.symm.trans hothers.bytes_eq)
  exact Frame.eq_of_flatten_eq h.announced hothers.announced (order.bytesOf_injective hbytes)

/-- The bytes of a module are those of a header and of frames. Cut off behind any number of the frames,
they are loaded as the module with as many of the instructions. Cut off anywhere else, they are
truncated. -/
theorem load_take (hload : load dialect (.ofBytes bytes) = .ok module) :
    ∃ order frames, module.MadeOf dialect order frames bytes ∧ ∀ k, k < bytes.length →
      (∀ j, k = 20 + 4 * ((frames.take j).map List.length).sum →
        load dialect (.ofBytes (bytes.take k)) = .ok ⟨module.header, module.code.take j⟩) ∧
      ((∀ j, k ≠ 20 + 4 * ((frames.take j).map List.length).sum) →
        load dialect (.ofBytes (bytes.take k)) = .error .truncated) := by
  obtain ⟨order, frames, h⟩ := (load_eq_ok_iff rfl (delivers_ofBytes bytes) module).mp hload
  refine ⟨order, frames, h, fun k hlt => ⟨?_, h.load_take_of_inside hlt⟩⟩
  rintro j rfl
  exact (load_eq_ok_iff rfl (delivers_ofBytes _) _).mpr ⟨order, frames.take j, h.take j⟩

/-- A module with a capability and a text. -/
def ofCapability : Module :=
  ⟨.ofOrder .little,
    [⟨⟨"OpCapability", 17, .preamble, [⟨"capability", .selector Standard.capability⟩], []⟩, ⟨1⟩, ()⟩,
      ⟨⟨"OpString", 7, .debug, [⟨"result", .id⟩, ⟨"string", .text⟩], []⟩, ⟨1⟩, "abcd", ()⟩]⟩

/-- Its bytes. -/
def capabilityBytes : List UInt8 :=
  ByteOrder.little.bytesOf
    [0x03022307, 0x00010000, 0, 0, 0, 0x00020011, 1, 0x00040007, 1, 0x64636261, 0]

theorem ofCapability_madeOf : ofCapability.MadeOf Standard.dialect .little
    [[0x00020011, 1], [0x00040007, 1, 0x64636261, 0]] capabilityBytes where
  supported := ⟨rfl, rfl⟩
  announced := by
    intro frame hframe
    rcases List.mem_pair.mp hframe with rfl | rfl
    · exact ⟨_, _, rfl, rfl⟩
    · exact ⟨_, _, rfl, rfl⟩
  decoded := .cons (by decide +kernel) (.cons (by decide +kernel) .nil)
  bytes_eq := by decide +kernel

/-- Behind the capability there is a module. In the last word of the text, which is its terminator, the
bytes are truncated. -/
theorem load_take_ofCapability :
    load Standard.dialect (.ofBytes (capabilityBytes.take 28)) =
        .ok ⟨ofCapability.header, ofCapability.code.take 1⟩ ∧
      load Standard.dialect (.ofBytes (capabilityBytes.take 41)) = .error .truncated := by
  obtain ⟨order, frames, h, hcut⟩ :=
    load_take (show load Standard.dialect (.ofBytes capabilityBytes) = .ok ofCapability by
      decide +kernel)
  obtain rfl : ByteOrder.little = order :=
    Except.ok.inj (ofCapability_madeOf.supported.order_eq.symm.trans h.supported.order_eq)
  obtain rfl := ofCapability_madeOf.frames_eq h
  refine ⟨(hcut 28 (by decide)).1 1 rfl, (hcut 41 (by decide)).2 fun j => ?_⟩
  match j with
  | 0 | 1 => decide
  | j + 2 => simp

end Module

end ShaderBinary
