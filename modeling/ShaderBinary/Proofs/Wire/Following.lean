import ShaderBinary.Proofs.Wire.Delivery
import ShaderBinary.Proofs.Wire.Scratch

/-!
# Two sources of the same bytes

An input `Follows` another one if both have the same bytes left, in whatever pieces. The other one is
exhausted when these are used up; the first one may fail instead.

`Agree` says what then becomes of an operation on both: it ends in the same way, or the first source failed
where the other one was exhausted too early. Nothing is said about the bytes, so that every operation
that is made of others agrees because these do (`words_agree`, `next?_agree`).
-/

namespace ShaderBinary
namespace Wire

/-- How an operation ended on two readers. Either it ended alike and they go on as `follows` says, and a
source that will fail has then brought one of the outcomes in `kept`; or that source failed, where the
operation fell `short` on the other one. -/
inductive Agree {α σ : Type} (ending : Ending) (follows : σ → σ → Prop)
    (kept short : Except Failure α → Prop) :
    Except Failure α × σ → Except Failure α × σ → Prop
  | alike {outcome : Except Failure α} {next other : σ} (hfollows : follows next other)
      (hkept : ending ≠ .exhausted → kept outcome) :
      Agree ending follows kept short (outcome, next) (outcome, other)
  | cut {reason : String} {next other : σ} {outcome : Except Failure α}
      (hending : ending = .failing reason) (hshort : short outcome) :
      Agree ending follows kept short (.error (.stream reason), next) (outcome, other)

/-- What is made of an outcome keeps an agreement, if it passes on the failure of a source. -/
theorem Agree.map {α β σ : Type} {ending : Ending} {follows : σ → σ → Prop}
    {kept short : Except Failure α → Prop} {kept' short' : Except Failure β → Prop}
    {result other : Except Failure α × σ} {f : Except Failure α → Except Failure β}
    (h : Agree ending follows kept short result other)
    (hstream : ∀ reason, f (.error (.stream reason)) = .error (.stream reason))
    (hkept : ∀ outcome, kept outcome → kept' (f outcome))
    (hshort : ∀ outcome, short outcome → short' (f outcome)) :
    Agree ending follows kept' short' (f result.1, result.2) (f other.1, other.2) := by
  cases h with
  | alike hfollows houtcome => exact .alike hfollows fun hending => hkept _ (houtcome hending)
  | cut hending houtcome =>
      simp only [hstream]
      exact .cut hending (hshort _ houtcome)

/-- The source was exhausted before there was what was asked for. -/
def FallsShort {α : Type} (outcome : Except Failure (Option α)) : Prop :=
  outcome = .ok none ∨ outcome = .error .truncated

variable {ending : Ending}

/-! ## Plain readers -/

namespace Plain

/-- The reader of the same bytes that is exhausted after them. -/
def exhausted (plain : Plain) : Plain :=
  { plain with ending := .exhausted }

/-- The readers have the same bytes left. The second one is exhausted after them. -/
def Follows (ending : Ending) (plain other : Plain) : Prop :=
  plain.ending = ending ∧ other = plain.exhausted

theorem take?_agree (plain : Plain) (unit count : Nat) :
    Agree plain.ending (Follows plain.ending)
      (fun outcome => ∃ bytes, outcome = .ok (some bytes) ∧ bytes.length = unit * count) FallsShort
      (plain.take? unit count) (plain.exhausted.take? unit count) := by
  obtain ⟨left, ending, order, offset⟩ := plain
  unfold exhausted
  by_cases hle : unit * count ≤ left.length
  · rw [take?_of_le hle, take?_of_le hle]
    have htake : (left.take (unit * count)).length = unit * count := by
      rw [List.length_take]
      omega
    exact .alike ⟨rfl, rfl⟩ fun _ => ⟨_, rfl, htake⟩
  · have hlt : left.length < unit * count := Nat.lt_of_not_le hle
    rw [take?_of_lt hlt, take?_of_lt hlt]
    unfold fallShort
    cases ending with
    | exhausted => exact .alike ⟨rfl, rfl⟩ fun hending => absurd rfl hending
    | failing reason =>
        refine .cut rfl ?_
        cases left.isEmpty with
        | true => exact .inl rfl
        | false => exact .inr rfl

theorem words?_agree (plain : Plain) (count : Nat) :
    Agree plain.ending (Follows plain.ending)
      (fun outcome => ∃ words, outcome = .ok (some words) ∧ words.length = count) FallsShort
      (plain.words? count) (plain.exhausted.words? count) := by
  rw [words?_eq, words?_eq]
  refine (plain.take?_agree 4 count).map (fun _ => rfl) ?_ ?_
  · rintro _ ⟨bytes, rfl, hlength⟩
    obtain ⟨words, rfl, rfl⟩ := plain.order.exists_bytesOf hlength
    refine ⟨words, ?_, rfl⟩
    simp only [Except.map, Option.map_some, ByteOrder.wordsOf_bytesOf]
  · rintro _ (rfl | rfl)
    · exact .inl rfl
    · exact .inr rfl

theorem words_agree (plain : Plain) (count : Nat) :
    Agree plain.ending (Follows plain.ending)
      (fun outcome => ∃ words, outcome = .ok words ∧ words.length = count) (· = .error .truncated)
      (plain.words count) (plain.exhausted.words count) := by
  rw [words_eq, words_eq]
  refine (plain.words?_agree count).map (fun _ => rfl) ?_ ?_
  · rintro _ ⟨words, rfl, hlength⟩
    exact ⟨words, rfl, hlength⟩
  · rintro _ (rfl | rfl)
    · rfl
    · rfl

end Plain

/-! ## Inputs -/

namespace Input

/-- The inputs have the same bytes left. The second one is exhausted after them. -/
def Follows (ending : Ending) (input other : Input) : Prop :=
  ∃ plain : Plain, plain.ending = ending ∧ input.Presents plain ∧ other.Presents plain.exhausted

variable {input other : Input}

theorem Follows.offset_eq (h : input.Follows ending other) : input.offset = other.offset := by
  obtain ⟨plain, -, hinput, hother⟩ := h
  exact hinput.offset_eq.trans hother.offset_eq.symm

theorem Follows.withOrder (h : input.Follows ending other) (order : ByteOrder) :
    Follows ending { input with order := order } { other with order := order } := by
  obtain ⟨plain, hending, hinput, hother⟩ := h
  exact ⟨{ plain with order := order }, hending, hinput.withOrder order, hother.withOrder order⟩

/-- What becomes of an operation on plain readers becomes of it on inputs that present them. -/
theorem agree_of_presents {α : Type} {kept short : Except Failure α → Prop}
    {result result' : Except Failure α × Plain}
    (h : Agree ending (Plain.Follows ending) kept short result result') {next next' : Input}
    (hnext : next.Presents result.2) (hnext' : next'.Presents result'.2) :
    Agree ending (Follows ending) kept short (result.1, next) (result'.1, next') := by
  cases h with
  | alike hfollows hkept =>
      obtain ⟨hending, rfl⟩ := hfollows
      exact .alike ⟨_, hending, hnext, hnext'⟩ hkept
  | cut hending hshort => exact .cut hending hshort

theorem bytes?_agree (h : input.Follows ending other) (count : Nat) :
    Agree ending (Follows ending)
      (fun outcome => ∃ bytes, outcome = .ok (some bytes) ∧ bytes.length = count) FallsShort
      (input.bytes? count) (other.bytes? count) := by
  obtain ⟨plain, rfl, hinput, hother⟩ := h
  obtain ⟨next, hread, hnext⟩ := bytes?_of_presents hinput count
  obtain ⟨next', hread', hnext'⟩ := bytes?_of_presents hother count
  have hagree := plain.take?_agree count 1
  rw [Nat.mul_one] at hagree
  rw [hread, hread']
  exact agree_of_presents hagree hnext hnext'

theorem words?_agree (h : input.Follows ending other) (count : Nat) :
    Agree ending (Follows ending)
      (fun outcome => ∃ words, outcome = .ok (some words) ∧ words.length = count) FallsShort
      (input.words? count) (other.words? count) := by
  obtain ⟨plain, rfl, hinput, hother⟩ := h
  obtain ⟨next, hread, hnext⟩ := words?_of_presents hinput count
  obtain ⟨next', hread', hnext'⟩ := words?_of_presents hother count
  rw [hread, hread']
  exact agree_of_presents (plain.words?_agree count) hnext hnext'

theorem words_agree (h : input.Follows ending other) (count : Nat) :
    Agree ending (Follows ending)
      (fun outcome => ∃ words, outcome = .ok words ∧ words.length = count) (· = .error .truncated)
      (input.words count) (other.words count) := by
  obtain ⟨plain, rfl, hinput, hother⟩ := h
  obtain ⟨next, hread, hnext⟩ := words_of_presents hinput count
  obtain ⟨next', hread', hnext'⟩ := words_of_presents hother count
  rw [hread, hread']
  exact agree_of_presents (plain.words_agree count) hnext hnext'

end Input

/-! ## Frames -/

namespace Input

variable {input other : Input}

theorem frame?_agree (h : input.Follows ending other) :
    Agree ending (Follows ending)
      (fun outcome => outcome ≠ .ok none ∧ outcome ≠ .error .truncated) FallsShort
      input.frame? other.frame? := by
  have hfirst := words?_agree h 1
  unfold frame?
  generalize input.words? 1 = result at hfirst ⊢
  generalize other.words? 1 = result' at hfirst ⊢
  cases hfirst with
  | cut hending hshort =>
      rcases hshort with rfl | rfl
      · exact .cut hending (.inl rfl)
      · exact .cut hending (.inr rfl)
  | @alike outcome next next' hfollows hkept =>
      rcases outcome with failure | _ | words
      · exact .alike hfollows fun hending => absurd (hkept hending) (by simp)
      · exact .alike hfollows fun hending => absurd (hkept hending) (by simp)
      · rcases words with _ | ⟨first, _ | ⟨second, more⟩⟩
        · exact .alike hfollows fun hending => absurd (hkept hending) (by simp)
        · cases hsize : Frame.wordsOf first with
          | zero =>
              simp only [hsize]
              exact .alike hfollows fun _ => ⟨nofun, nofun⟩
          | succ later =>
              simp only [hsize]
              refine (words_agree hfollows later).map
                (f := Except.map fun words => some (first :: words)) (fun _ => rfl) ?_ ?_
              · rintro _ ⟨words, rfl, -⟩
                exact ⟨nofun, nofun⟩
              · rintro _ rfl
                exact .inr rfl
        · exact .alike hfollows fun hending => absurd (hkept hending) (by simp)

end Input

namespace FrameInput

/-- The inputs have the same bytes left, and the last frame started in the same place. -/
def Follows (ending : Ending) (frames other : FrameInput) : Prop :=
  frames.input.Follows ending other.input ∧ frames.start = other.start

variable {frames other : FrameInput}

/-- The buffers may differ, before and after. -/
theorem next?_agree (h : frames.Follows ending other) :
    Agree ending (Follows ending)
      (fun outcome => outcome ≠ .ok none ∧ outcome ≠ .error .truncated) FallsShort
      frames.next? other.next? := by
  have hframe := Input.frame?_agree h.1
  obtain ⟨scratch, hnext⟩ := next?_eq frames
  obtain ⟨scratch', hnext'⟩ := next?_eq other
  rw [hnext, hnext', h.1.offset_eq]
  generalize frames.input.frame? = result at hframe ⊢
  generalize other.input.frame? = result' at hframe ⊢
  cases hframe with
  | alike hfollows hkept => exact .alike ⟨hfollows, rfl⟩ hkept
  | cut hending hshort => exact .cut hending hshort

end FrameInput

end Wire
end ShaderBinary
