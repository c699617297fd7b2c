import Mathlib.Algebra.GroupWithZero.Nat
import ShaderBinary.Proofs.Wire.Input
import ShaderBinary.Proofs.Wire.Items
import ShaderBinary.Proofs.Wire.Scratch

/-!
# Reading frames

Reading the next frame passes over the item at the front of what is left of an input, whatever it is
(`FrameInput.next?_of_starts`). It answers with the words of a frame, and with what is wrong with any other
item. Only if nothing is left is there no next frame (`FrameInput.next?_of_nil`). After any number of calls,
the next one passes over the next item (`FrameInput.next?_after_of_faces`), whatever the frames before have
left in the buffer.
-/

namespace ShaderBinary
namespace Wire
namespace FrameInput

variable {frames : FrameInput} {bytes left : List UInt8} {item : Item}

theorem next?_of_nil (h : frames.input.Holds []) :
    ∃ next, frames.next? = (.ok none, next) ∧ frames.input.Advances next.input [] [] ∧
      next.start = frames.input.offset := by
  obtain ⟨input, hread, hadvances⟩ := Input.words?_of_lt (show [].length < 4 * 1 by decide) h
  obtain ⟨scratch, hnext⟩ := next?_eq frames
  rw [hnext, Input.frame?, hread]
  exact ⟨_, rfl, hadvances, rfl⟩

theorem next?_of_starts (h : frames.input.Holds bytes)
    (hstarts : Item.Starts frames.input.order bytes item left) :
    ∃ next, frames.next? = (item.words.map some, next) ∧
      frames.input.Advances next.input bytes left ∧ next.start = frames.input.offset := by
  obtain ⟨scratch, hnext⟩ := next?_eq frames
  rw [hnext]
  unfold Input.frame?
  cases hstarts with
  | frame left hframe =>
      obtain ⟨first, later, rfl, hsize⟩ := hframe
      have hbytes : frames.input.order.bytesOf (first :: later) ++ left =
          frames.input.order.bytesOf [first] ++ (frames.input.order.bytesOf later ++ left) := by
        simp
      rw [hbytes] at h ⊢
      obtain ⟨afterFirst, hfirst, hadvances⟩ := Input.words?_append h
      rw [List.length_singleton] at hfirst
      have hholds := hadvances.holds
      rw [← hadvances.order_eq] at hholds
      obtain ⟨afterLater, hlater, hadvancesLater⟩ := Input.words_append hholds
      rw [hadvances.order_eq] at hadvancesLater
      simp only [hfirst, hsize, hlater]
      exact ⟨_, rfl, hadvances.trans hadvancesLater, rfl⟩
  | empty left hzero =>
      obtain ⟨afterFirst, hfirst, hadvances⟩ := Input.words?_append h
      rw [List.length_singleton] at hfirst
      simp only [hfirst, hzero]
      exact ⟨_, rfl, hadvances, rfl⟩
  | partWord hne hfour =>
      obtain ⟨next, hread, hadvances⟩ := Input.words?_of_lt (show bytes.length < 4 * 1 from hfour) h
      have hsome : bytes.isEmpty = false := by
        rw [List.isEmpty_eq_false_iff]
        exact hne
      rw [hsome] at hread
      rw [hread]
      exact ⟨_, rfl, hadvances, rfl⟩
  | partFrame hcount hrest =>
      -- The first word is there, and the others are not.
      obtain ⟨afterFirst, hfirst, hadvances⟩ := Input.words?_append h
      rw [List.length_singleton] at hfirst
      obtain ⟨next, hlater, hadvancesLater⟩ := Input.words_of_lt hrest hadvances.holds
      simp only [hfirst, hcount, hlater]
      exact ⟨_, rfl, hadvances.trans hadvancesLater, rfl⟩

/-! ## One frame after another -/

/-- These are the items that are still to be passed over. -/
def Faces (frames : FrameInput) (cut : List Item) : Prop :=
  ∃ bytes, frames.input.Holds bytes ∧ items frames.input.order bytes = cut

/-- The answer to a call for the next frame, if there is an item to be passed over. -/
def answer : Option Item → Except Failure (Option (List Word))
  | none => .ok none
  | some item => item.words.map some

variable {cut : List Item}

/-- One call passes over one item. -/
theorem next?_of_faces (h : frames.Faces cut) :
    ∃ next, frames.next? = (answer cut.head?, next) ∧ next.Faces cut.tail ∧
      next.start = frames.input.offset ∧
      next.input.offset = frames.input.offset + ((cut.take 1).map Item.size).sum := by
  obtain ⟨bytes, hholds, rfl⟩ := h
  by_cases hne : bytes = []
  · subst hne
    obtain ⟨next, hread, hadvances, hstart⟩ := next?_of_nil hholds
    rw [items_nil]
    exact ⟨next, hread, ⟨[], hadvances.holds, items_nil _⟩, hstart, hadvances.offset_add⟩
  · have hstarts := Item.starts_first frames.input.order hne
    obtain ⟨next, hread, hadvances, hstart⟩ := next?_of_starts hholds hstarts
    have hsize := hstarts.size_add
    have hadd := hadvances.offset_add
    rw [items_of_starts hstarts]
    refine ⟨next, hread, ⟨_, hadvances.holds, by rw [hadvances.order_eq]; rfl⟩, hstart, ?_⟩
    simp only [List.take_succ_cons, List.take_zero, List.map_cons, List.map_nil, List.sum_cons,
      List.sum_nil]
    omega

/-- After any number of calls, the next one passes over the next item. -/
theorem next?_after_of_faces (h : frames.Faces cut) (i : Nat) :
    ∃ next, (frames.after i).next? = (answer cut[i]?, next) ∧
      next.start = frames.input.offset + ((cut.take i).map Item.size).sum := by
  induction i generalizing frames cut with
  | zero =>
      obtain ⟨next, hread, -, hstart, -⟩ := next?_of_faces h
      rw [← List.head?_eq_getElem?]
      exact ⟨next, hread, hstart⟩
  | succ i ih =>
      obtain ⟨first, hread, hfaces, -, hoffset⟩ := next?_of_faces h
      obtain ⟨next, hnext, hstart⟩ := ih hfaces
      rw [after, hread]
      refine ⟨next, ?_⟩
      rw [hnext, hstart, hoffset]
      cases cut with
      | nil => simp
      | cons item later =>
          simp only [List.tail_cons, List.getElem?_cons_succ, List.take_succ_cons, List.take_zero,
            List.map_cons, List.map_nil, List.sum_cons, List.sum_nil]
          exact ⟨trivial, by omega⟩

end FrameInput
end Wire
end ShaderBinary
