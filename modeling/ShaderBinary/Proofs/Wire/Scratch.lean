import ShaderBinary.Proofs.Word

/-!
# The buffer that frames are read into

The buffer keeps its words from one frame to the next, so that behind a short frame stands what is left of
longer ones. None of it is handed out. Filling a part of the buffer answers as reading the words does, and
afterwards these words are that part (`Input.fill_eq`). As the whole front of the buffer is filled for a
frame, `Input.frame?`, which has no buffer, answers alike (`FrameInput.next?_eq`). Two readers of the same
input therefore answer alike in all calls, whatever their buffers held at the start
(`FrameInput.next?_after_congr`).
-/

namespace ShaderBinary
namespace Wire
namespace Input

/-! ## Words one by one -/

/-- Words behind others that were taken before. That there was a word before matters only at the end. -/
theorem wordsAfter_of_ne_nil {taken : List Word} (h : taken ≠ []) (count : Nat) (input : Input) :
    wordsAfter taken count input =
      ((input.words count).1.map fun words => some (taken.reverse ++ words), (input.words count).2) := by
  induction count generalizing taken input with
  | zero =>
      rw [wordsAfter, words, words?, wordsAfter]
      exact congrArg (fun words => (Except.ok (some words), input)) (List.append_nil _).symm
  | succ count ih =>
      rw [wordsAfter, words, words?, wordsAfter]
      rcases input.bytes? 4 with ⟨failure | _ | octets, next⟩
      · rfl
      · rw [List.isEmpty_eq_false_iff.mpr h]
        rfl
      · simp only
        rw [ih (List.cons_ne_nil _ _), ih (List.cons_ne_nil _ _)]
        rcases (next.words count).1 with failure | words
        · rfl
        · simp only [Except.map, List.reverse_cons, List.reverse_nil, List.nil_append,
            List.append_assoc, List.singleton_append]

theorem words_succ (count : Nat) (input : Input) :
    input.words (count + 1) =
      match input.bytes? 4 with
      | (.error failure, next) => (.error failure, next)
      | (.ok none, next) => (.error .truncated, next)
      | (.ok (some octets), next) =>
        ((next.words count).1.map (input.order.toWord octets :: ·), (next.words count).2) := by
  rw [words, words?, wordsAfter]
  rcases input.bytes? 4 with ⟨failure | _ | octets, next⟩
  · rfl
  · rfl
  · simp only
    rw [wordsAfter_of_ne_nil (List.cons_ne_nil _ _)]
    rcases (next.words count).1 with failure | words <;> rfl

/-! ## Filling a buffer -/

/-- A part of a buffer is filled if the words can be read. They then stand behind the words in front of
the part, which have not changed. -/
theorem fill_eq {size position count : Nat} (hroom : position + count ≤ size)
    (buffer : Vector Word size) (input : Input) :
    ∃ filled, input.fill position count hroom buffer =
        ((input.words count).1.map fun _ => (), filled, (input.words count).2) ∧
      ∀ words, (input.words count).1 = .ok words →
        filled.toList.take (position + count) = buffer.toList.take position ++ words := by
  induction count generalizing position buffer input with
  | zero =>
      refine ⟨buffer, rfl, ?_⟩
      rintro words ⟨⟩
      exact (List.append_nil _).symm
  | succ count ih =>
      rw [fill, words_succ]
      rcases input.bytes? 4 with ⟨failure | _ | octets, next⟩
      · exact ⟨buffer, rfl, nofun⟩
      · exact ⟨buffer, rfl, nofun⟩
      · have hposition : position < size := by omega
        obtain ⟨filled, hfill, hfront⟩ := ih (show position + 1 + count ≤ size by omega)
          (buffer.set position (input.order.toWord octets) hposition) next
        refine ⟨filled, ?_, ?_⟩
        · simp only [hfill]
          rcases (next.words count).1 with failure | words <;> rfl
        · intro words hwords
          simp only at hwords
          rcases hlater : (next.words count).1 with failure | later <;> rw [hlater] at hwords <;>
            cases hwords
          have htake : (buffer.toList.take position ++ [input.order.toWord octets]).length =
              position + 1 := by
            rw [List.length_append, List.length_take, Vector.length_toList, List.length_singleton]
            omega
          rw [show position + (count + 1) = position + 1 + count by omega, hfront later hlater,
            toList_set_eq, List.append_cons, List.take_left' htake, ← List.append_cons]

/-- Whatever the buffer held, the frame is its first word and those that are read. -/
theorem frameInto_eq (first : Word) (later : Nat) (scratch : Array Word) (input : Input) :
    ∃ buffer, input.frameInto first later scratch =
      ((input.words later).1.map (first :: ·), buffer, (input.words later).2) := by
  have hroom := Frame.le_size_grown scratch (later + 1)
  obtain ⟨filled, hfill, hfront⟩ :=
    fill_eq (show 1 + later ≤ (Frame.grown scratch (later + 1)).size by omega)
      ((Frame.grown scratch (later + 1)).toVector.set 0 first (by omega)) input
  refine ⟨filled.toArray, ?_⟩
  unfold frameInto
  simp only [hfill]
  rcases hwords : (input.words later).1 with failure | words
  · rfl
  · have hframe := hfront words hwords
    rw [Nat.add_comm 1 later, toList_set_eq] at hframe
    simp only [Except.map]
    rw [toList_extract_zero, hframe]
    rfl

/-! ## Frames -/

/-- Reads the next frame, unless the source is exhausted before it. -/
def frame? (input : Input) : Except Failure (Option (List Word)) × Input :=
  match input.words? 1 with
  | (.error failure, next) => (.error failure, next)
  | (.ok (some [first]), next) =>
    match Frame.wordsOf first with
    | 0 => (.error (.badSize 0), next)
    | later + 1 => ((next.words later).1.map fun words => some (first :: words), (next.words later).2)
  | (.ok _, next) => (.ok none, next)

end Input

namespace FrameInput

/-- Only the buffer afterwards depends on the buffer. -/
theorem next?_eq (frames : FrameInput) :
    ∃ scratch, frames.next? =
      (frames.input.frame?.1, ⟨frames.input.frame?.2, frames.input.offset, scratch⟩) := by
  obtain ⟨input, start, scratch⟩ := frames
  unfold next? Input.frame?
  simp only
  rcases input.words? 1 with ⟨failure | _ | _ | ⟨first, _ | ⟨second, more⟩⟩, next⟩
  case ok.some.cons.nil =>
    simp only
    cases Frame.wordsOf first with
    | zero => exact ⟨scratch, rfl⟩
    | succ later =>
        obtain ⟨buffer, hframe⟩ := Input.frameInto_eq first later scratch next
        refine ⟨buffer, ?_⟩
        simp only [hframe]
        rcases (next.words later).1 with failure | words <;> rfl
  all_goals exact ⟨scratch, rfl⟩

/-- The input after so many calls for the next frame, whatever was answered. -/
def after : (calls : Nat) → FrameInput → FrameInput
  | 0, frames => frames
  | calls + 1, frames => after calls frames.next?.2

/-- In no call does the answer depend on what the buffer held before the first one. -/
theorem next?_after_congr {frames other : FrameInput} (h : frames.input = other.input) (calls : Nat) :
    (frames.after calls).next?.1 = (other.after calls).next?.1 ∧
      (frames.after calls).next?.2.input = (other.after calls).next?.2.input ∧
      (frames.after calls).next?.2.start = (other.after calls).next?.2.start := by
  induction calls generalizing frames other with
  | zero =>
      obtain ⟨_, hnext⟩ := next?_eq frames
      obtain ⟨_, hnext'⟩ := next?_eq other
      rw [after, after, hnext, hnext', h]
      exact ⟨rfl, rfl, rfl⟩
  | succ calls ih =>
      obtain ⟨_, hnext⟩ := next?_eq frames
      obtain ⟨_, hnext'⟩ := next?_eq other
      rw [after, after, hnext, hnext']
      exact ih (by rw [h])

end FrameInput

end Wire
end ShaderBinary
