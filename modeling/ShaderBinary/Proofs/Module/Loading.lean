import ShaderBinary.Module
import ShaderBinary.Proofs.Dialect
import ShaderBinary.Proofs.Header
import ShaderBinary.Proofs.Wire.Frames

/-!
# Loading modules

What follows a header is cut into items (`Wire.items`), and `Dialect.decodeItem` is what the dialect makes of
one of them:

* `Loading.frame?_of_starts` and `Loading.frame?_of_nil` are what one call for the next frame does, and
  `Loading.outcome_drainAfter` is what comes of calling until a failure or the end.
* `Module.load_image_append`: behind a supported header, loading decodes the items in order.
* `Module.load_eq_ok_iff` says when loading succeeds, and with which module: the bytes are the image of its
  header followed by frames, and the frames are decoded to its instructions in order.

How the source delivers the bytes does not matter.
-/

namespace ShaderBinary

open Wire

/-! ## Instructions -/

/-- What a dialect makes of an item. It is a frame that is decoded, and any other item is a failure. -/
def Dialect.decodeItem (dialect : Dialect) (item : Item) : Except Failure (Instruction × List Word) :=
  match item.words with
  | .error failure => .error failure
  | .ok words => (dialect.decode words).map fun instruction => (instruction, words)

/-- The instructions that items are decoded to, up to the first failure. -/
def Dialect.decodeItems (dialect : Dialect) : List Item → Except Failure (List Instruction)
  | [] => .ok []
  | item :: later =>
    match dialect.decodeItem item with
    | .error failure => .error failure
    | .ok (instruction, _) => (dialect.decodeItems later).map (instruction :: ·)

namespace Dialect

variable {dialect : Dialect} {item : Item} {later : List Item}

theorem decodeItems_cons_of_error {failure : Failure} (h : dialect.decodeItem item = .error failure) :
    dialect.decodeItems (item :: later) = .error failure := by
  rw [decodeItems, h]

theorem decodeItems_cons_of_ok {instruction : Instruction} {words : List Word}
    (h : dialect.decodeItem item = .ok (instruction, words)) :
    dialect.decodeItems (item :: later) = (dialect.decodeItems later).map (instruction :: ·) := by
  rw [decodeItems, h]

/-- Only frames are decoded. -/
theorem decodeItem_eq_ok_iff {instruction : Instruction} {words : List Word} :
    dialect.decodeItem item = .ok (instruction, words) ↔
      item = .frame words ∧ dialect.decode words = .ok instruction := by
  unfold decodeItem
  cases item with
  | empty first => simp [Item.words]
  | short bytes => simp [Item.words]
  | frame frame =>
      simp only [Item.words, Item.frame.injEq]
      rcases hdecode : dialect.decode frame with failure | decoded
      · simp only [Except.map, reduceCtorEq, false_iff, not_and]
        rintro rfl hother
        rw [hdecode] at hother
        cases hother
      · simp only [Except.map, Except.ok.injEq, Prod.mk.injEq]
        constructor
        · rintro ⟨rfl, rfl⟩
          exact ⟨rfl, hdecode⟩
        · rintro ⟨rfl, hother⟩
          exact ⟨Except.ok.inj (hdecode.symm.trans hother), rfl⟩

theorem decodeItems_map_frame {frames : List (List Word)} {code : List Instruction}
    (h : List.Forall₂ (fun frame instruction => dialect.decode frame = .ok instruction)
      frames code) (rest : List Item) :
    dialect.decodeItems (frames.map Item.frame ++ rest) =
      (dialect.decodeItems rest).map (code ++ ·) := by
  induction h with
  | nil =>
      change dialect.decodeItems rest = _
      rcases dialect.decodeItems rest with failure | code <;> rfl
  | cons hfirst hlater ih =>
      rw [List.map_cons, List.cons_append,
        decodeItems_cons_of_ok (decodeItem_eq_ok_iff.mpr ⟨rfl, hfirst⟩), ih]
      rcases dialect.decodeItems rest with failure | code <;> rfl

theorem decodeItems_eq_ok_iff {items : List Item} {code : List Instruction} :
    dialect.decodeItems items = .ok code ↔
      ∃ frames, items = frames.map Item.frame ∧
        List.Forall₂ (fun frame instruction => dialect.decode frame = .ok instruction)
          frames code := by
  constructor
  · intro h
    induction items generalizing code with
    | nil => cases h; exact ⟨[], rfl, .nil⟩
    | cons item later ih =>
        rcases hitem : dialect.decodeItem item with failure | ⟨instruction, words⟩
        · rw [decodeItems_cons_of_error hitem] at h
          cases h
        · rw [decodeItems_cons_of_ok hitem] at h
          rcases hlater : dialect.decodeItems later with failure | others
          · rw [hlater] at h
            cases h
          · rw [hlater] at h
            cases h
            obtain ⟨rfl, hdecode⟩ := decodeItem_eq_ok_iff.mp hitem
            obtain ⟨frames, rfl, hframes⟩ := ih hlater
            exact ⟨words :: frames, rfl, .cons hdecode hframes⟩
  · rintro ⟨frames, rfl, hframes⟩
    have h := decodeItems_map_frame hframes []
    rw [List.append_nil] at h
    rw [h]
    exact congrArg Except.ok (List.append_nil code)

end Dialect

namespace Loading

variable {dialect : Dialect} {loading : Loading} {bytes left : List UInt8} {item : Item}

/-- The header is read before any frame. -/
theorem header_ofSource (source : Source) :
    (ofSource source).header =
      ((Header.read (.ofSource source)).1, ⟨.ofInput (Header.read (.ofSource source)).2, 0⟩) :=
  rfl

theorem frame?_eq (dialect : Dialect) (loading : Loading) :
    loading.frame? dialect =
      match loading.frames.next? with
      | (.error failure, frames) => (.error failure, ⟨frames, loading.index⟩)
      | (.ok none, frames) => (.ok none, ⟨frames, loading.index⟩)
      | (.ok (some words), frames) =>
        match dialect.decode words with
        | .error failure => (.error failure, ⟨frames, loading.index⟩)
        | .ok instruction => (.ok (some (instruction, words)), ⟨frames, loading.index + 1⟩) :=
  rfl

theorem frame?_of_starts (dialect : Dialect) (h : loading.frames.input.Holds bytes)
    (hstarts : Item.Starts loading.frames.input.order bytes item left) :
    ∃ next, loading.frame? dialect = ((dialect.decodeItem item).map some, next) ∧
      loading.frames.input.Advances next.frames.input bytes left ∧
      next.byteOffset = loading.frames.input.offset ∧
      next.index = loading.index + if (dialect.decodeItem item).isOk then 1 else 0 := by
  obtain ⟨frames, hnext, hadvances, hstart⟩ := FrameInput.next?_of_starts h hstarts
  unfold Dialect.decodeItem
  rw [frame?_eq, hnext]
  rcases item.words with failure | words
  · exact ⟨_, rfl, hadvances, hstart, rfl⟩
  · rcases hdecode : dialect.decode words with failure | instruction
    · simp only [Except.map, hdecode]
      exact ⟨_, rfl, hadvances, hstart, rfl⟩
    · simp only [Except.map, hdecode]
      exact ⟨_, rfl, hadvances, hstart, rfl⟩

theorem frame?_of_nil (dialect : Dialect) (h : loading.frames.input.Holds []) :
    ∃ next, loading.frame? dialect = (.ok none, next) ∧
      loading.frames.input.Advances next.frames.input [] [] ∧
      next.byteOffset = loading.frames.input.offset ∧ next.index = loading.index := by
  obtain ⟨frames, hnext, hadvances, hstart⟩ := FrameInput.next?_of_nil h
  rw [frame?_eq, hnext]
  exact ⟨_, rfl, hadvances, hstart, rfl⟩

/-- The instructions that were read, if nothing failed. -/
def outcome (drained : List Instruction × Option Failure × Loading) :
    Except Failure (List Instruction) × Loading :=
  match drained with
  | (code, none, last) => (.ok code, last)
  | (_, some failure, last) => (.error failure, last)

/-- Everything that is left is read item by item, up to the first failure. -/
theorem outcome_drainAfter (dialect : Dialect) {bound : Nat} (h : loading.frames.input.Holds bytes)
    (hbound : bytes.length < bound) (taken : List Instruction) :
    (outcome (drainAfter dialect bound taken loading)).1 =
      (dialect.decodeItems (items loading.frames.input.order bytes)).map (taken.reverse ++ ·) := by
  generalize horder : loading.frames.input.order = order
  induction bytes using items_induction order generalizing loading bound taken with
  | nil =>
      obtain ⟨bound, rfl⟩ : ∃ more, bound = more + 1 := ⟨bound - 1, by omega⟩
      obtain ⟨next, hread, -⟩ := frame?_of_nil dialect h
      simp only [drainAfter, instruction?, hread, items_nil]
      exact congrArg Except.ok (List.append_nil _).symm
  | starts bytes item left hstarts ih =>
      obtain ⟨bound, rfl⟩ : ∃ more, bound = more + 1 := ⟨bound - 1, by omega⟩
      have hsize := hstarts.size_add
      have hpos := hstarts.size_pos
      subst horder
      obtain ⟨next, hread, hadvances, -⟩ := frame?_of_starts dialect h hstarts
      rw [items_of_starts hstarts]
      rcases hitem : dialect.decodeItem item with failure | ⟨instruction, words⟩
      · rw [Dialect.decodeItems_cons_of_error hitem]
        rw [hitem] at hread
        simp only [drainAfter, instruction?, hread, Except.map]
        rfl
      · rw [Dialect.decodeItems_cons_of_ok hitem]
        rw [hitem] at hread
        simp only [drainAfter, instruction?, hread, Except.map, Option.map_some]
        -- An item takes at least one byte, so that the bound lasts for what is left.
        have hlater := ih hadvances.holds (show left.length < bound by omega) (instruction :: taken)
          hadvances.order_eq
        rw [hlater]
        rcases dialect.decodeItems (items loading.frames.input.order left) with failure | code
        · rfl
        · simp only [Except.map, List.reverse_cons, List.append_assoc, List.singleton_append]

end Loading

/-! ## Modules -/

namespace Module

/-- These frames follow the header in the bytes of a module, and are its instructions. -/
structure MadeOf (dialect : Dialect) (module : Module) (order : ByteOrder)
    (frames : List (List Word)) (bytes : List UInt8) : Prop where
  supported : module.header.Supported order
  announced : ∀ frame ∈ frames, Frame.Announced frame
  decoded : List.Forall₂ (fun frame instruction => dialect.decode frame = .ok instruction)
    frames module.code
  bytes_eq : bytes = module.header.image order ++ order.bytesOf frames.flatten

section Load

variable {dialect : Dialect} {source : Source} {bytes : List UInt8} {header : Header}

theorem load_of_read {next : Input} (h : Header.read (.ofSource source) = (.ok header, next)) :
    load dialect source =
      (Loading.outcome (Loading.drain dialect ⟨.ofInput next, 0⟩)).1.map (Module.mk header) := by
  rw [load, Loading.header_ofSource, h]
  simp only
  rcases Loading.drain dialect ⟨.ofInput next, 0⟩ with ⟨code, _ | failure, last⟩ <;> rfl

theorem load_of_read_error {failure : Failure} {next : Input}
    (h : Header.read (.ofSource source) = (.error failure, next)) :
    load dialect source = .error failure := by
  rw [load, Loading.header_ofSource, h]

/-- What is loaded after a supported header is what the items of the other bytes are decoded to. -/
theorem load_image_append {order : ByteOrder} (h : header.Supported order)
    (hending : source.ending = .exhausted)
    (hdelivers : Delivers source.arrivals (header.image order ++ bytes)) :
    load dialect source = (dialect.decodeItems (items order bytes)).map (Module.mk header) := by
  have hholds : Input.Holds (.ofSource source) (header.image order ++ bytes) := ⟨hending, hdelivers⟩
  obtain ⟨next, hread, hleft, horder, -⟩ := Header.read_of_supported h hholds
  have hsize := size_of_delivers hleft.delivers
  have hdrain := Loading.outcome_drainAfter dialect
    (show (Loading.mk (.ofInput next) 0).frames.input.Holds bytes from hleft)
    (show bytes.length < next.source.size + 1 by omega) []
  rw [load_of_read hread, Loading.drain]
  rw [show (Loading.mk (.ofInput next) 0).frames.input = next from rfl] at hdrain ⊢
  rw [hdrain, horder]
  rcases dialect.decodeItems (items order bytes) with failure | code <;> rfl

/-- Loading succeeds exactly if the bytes are made of a header and frames that can be decoded, and it
gives what they are decoded to. -/
theorem load_eq_ok_iff (hending : source.ending = .exhausted)
    (hdelivers : Delivers source.arrivals bytes) (module : Module) :
    load dialect source = .ok module ↔ ∃ order frames, module.MadeOf dialect order frames bytes := by
  constructor
  · intro hload
    rcases hread : Header.read (.ofSource source) with ⟨failure | header, next⟩
    · rw [load_of_read_error hread] at hload
      cases hload
    · obtain ⟨order, left, hsupported, rfl, -⟩ := Header.image_of_read ⟨hending, hdelivers⟩ hread
      rw [load_image_append hsupported hending hdelivers] at hload
      rcases hitems : dialect.decodeItems (items order left) with failure | code
      · rw [hitems] at hload
        cases hload
      · rw [hitems] at hload
        cases hload
        obtain ⟨frames, hframes, hdecode⟩ := Dialect.decodeItems_eq_ok_iff.mp hitems
        obtain ⟨hannounced, rfl⟩ := items_eq_map_frame_iff.mp hframes
        exact ⟨order, frames, hsupported, hannounced, hdecode, rfl⟩
  · rintro ⟨order, frames, hsupported, hannounced, hdecode, rfl⟩
    rw [load_image_append hsupported hending hdelivers,
      items_eq_map_frame_iff.mpr ⟨hannounced, rfl⟩,
      Dialect.decodeItems_eq_ok_iff.mpr ⟨frames, rfl, hdecode⟩]
    rfl

end Load

end Module
end ShaderBinary
