import ShaderBinary.Layout.Check
import ShaderBinary.Proofs.Layout.Stage

/-!
# What greedy matchers find

A repetition takes rounds until one of them refuses or breaks, and its bound is there only to make it
end. `Advances` says that a matcher takes something whenever it matches; for such a matcher the bound is
never what ends a repetition, and `Matcher.many_cases` is the rule for it: an invariant that every round
keeps holds where the repetition ends, and there the matcher refuses or breaks.
`Matcher.many_single_cases` is the same rule for repetitions of single categories, with the stage that
the repetition has come to as part of the invariant.
-/

namespace ShaderBinary
namespace Layout

/-! ## Progress -/

namespace Matcher

/-- What is left after a match is no longer than what stood there before. -/
def NeverLengthens (matcher : Matcher) : Prop :=
  ∀ categories left, matcher categories = .matched left → left.length ≤ categories.length

/-- A match takes at least one category, and there is none where nothing is left. -/
structure Advances (matcher : Matcher) : Prop where
  refuses_nil : matcher [] = .refused []
  shortens : ∀ categories left,
    matcher categories = .matched left → left.length < categories.length

theorem Advances.neverLengthens {matcher : Matcher} (h : matcher.Advances) :
    matcher.NeverLengthens :=
  fun categories left hmatch => Nat.le_of_lt (h.shortens categories left hmatch)

theorem single_advances (accepts : Category → Bool) : (single accepts).Advances where
  refuses_nil := rfl
  shortens := by
    intro categories left hmatch
    cases categories with
    | nil => cases hmatch
    | cons category later =>
        cases haccepts : accepts category with
        | true =>
            simp only [single, haccepts, if_true, Match.matched.injEq] at hmatch
            rw [← hmatch]
            exact Nat.lt_succ_self _
        | false => simp [single, haccepts] at hmatch

theorem one_advances (expected : Category) : (one expected).Advances :=
  single_advances _

theorem andThen_eq_matched {first second : Matcher} {categories left : List Category}
    (h : first.andThen second categories = .matched left) :
    ∃ middle, first categories = .matched middle ∧ second middle = .matched left := by
  unfold andThen at h
  cases hfirst : first categories with
  | matched middle => exact ⟨middle, rfl, by rwa [hfirst] at h⟩
  | refused place => rw [hfirst] at h; cases h
  | broken place => rw [hfirst] at h; cases h

theorem NeverLengthens.andThen {first second : Matcher} (hfirst : first.NeverLengthens)
    (hsecond : second.NeverLengthens) : (first.andThen second).NeverLengthens := by
  intro categories left hmatch
  obtain ⟨middle, hmiddle, hleft⟩ := andThen_eq_matched hmatch
  exact Nat.le_trans (hsecond middle left hleft) (hfirst categories middle hmiddle)

theorem Advances.andThen {first second : Matcher} (hfirst : first.Advances)
    (hsecond : second.NeverLengthens) : (first.andThen second).Advances where
  refuses_nil := by unfold Matcher.andThen; rw [hfirst.refuses_nil]
  shortens := by
    intro categories left hmatch
    obtain ⟨middle, hmiddle, hleft⟩ := andThen_eq_matched hmatch
    exact Nat.lt_of_le_of_lt (hsecond middle left hleft)
      (hfirst.shortens categories middle hmiddle)

theorem NeverLengthens.committed {matcher : Matcher} (h : matcher.NeverLengthens) :
    matcher.committed.NeverLengthens := by
  intro categories left hmatch
  unfold Matcher.committed at hmatch
  cases hmatcher : matcher categories with
  | matched middle =>
      rw [hmatcher] at hmatch
      cases hmatch
      exact h categories left hmatcher
  | refused place => rw [hmatcher] at hmatch; cases hmatch
  | broken place => rw [hmatcher] at hmatch; cases hmatch

theorem NeverLengthens.many {matcher : Matcher} (h : matcher.NeverLengthens) (bound : Nat) :
    (matcher.many bound).NeverLengthens := by
  induction bound with
  | zero =>
      intro categories left hmatch
      cases hmatch
      exact Nat.le_refl _
  | succ bound ih =>
      intro categories left hmatch
      unfold Matcher.many at hmatch
      cases hmatcher : matcher categories with
      | matched middle =>
          rw [hmatcher] at hmatch
          exact Nat.le_trans (ih middle left hmatch) (h categories middle hmatcher)
      | refused place => rw [hmatcher] at hmatch; cases hmatch; exact Nat.le_refl _
      | broken place => rw [hmatcher] at hmatch; cases hmatch

theorem NeverLengthens.many1 {matcher : Matcher} (h : matcher.NeverLengthens) (bound : Nat) :
    (matcher.many1 bound).NeverLengthens := by
  intro categories left hmatch
  unfold Matcher.many1 at hmatch
  cases hmatcher : matcher categories with
  | matched middle =>
      rw [hmatcher] at hmatch
      exact Nat.le_trans (h.many bound middle left hmatch) (h categories middle hmatcher)
  | refused place => rw [hmatcher] at hmatch; cases hmatch
  | broken place => rw [hmatcher] at hmatch; cases hmatch

/-- Where a repetition ends. Each round keeps the invariant or ends the repetition, and the bound never
does, because a round takes a category. -/
theorem many_cases {matcher : Matcher} (h : matcher.Advances)
    {Inv Refused Broken : List Category → Prop} {limit : Nat}
    (hround : ∀ categories : List Category, categories.length ≤ limit → Inv categories →
      (∃ left, matcher categories = .matched left ∧ Inv left) ∨
        (∃ place, matcher categories = .refused place ∧ Refused categories) ∨
          ∃ place, matcher categories = .broken place ∧ Broken place)
    {bound : Nat} {categories : List Category} (hbound : categories.length ≤ bound)
    (hlimit : categories.length ≤ limit) (hinv : Inv categories) :
    (∃ left, matcher.many bound categories = .matched left ∧ Inv left ∧ Refused left) ∨
      ∃ place, matcher.many bound categories = .broken place ∧ Broken place := by
  induction bound generalizing categories with
  | zero =>
      have hnil : categories = [] := List.eq_nil_of_length_eq_zero (by omega)
      subst hnil
      -- Where nothing is left, every matcher that advances refuses.
      rcases hround [] hlimit hinv with ⟨left, hmatch, -⟩ | ⟨place, -, hrefused⟩ | ⟨place, hbroken, -⟩
      · rw [h.refuses_nil] at hmatch; cases hmatch
      · exact .inl ⟨[], rfl, hinv, hrefused⟩
      · rw [h.refuses_nil] at hbroken; cases hbroken
  | succ bound ih =>
      unfold Matcher.many
      rcases hround categories hlimit hinv with
        ⟨left, hmatch, hleft⟩ | ⟨place, hrefused, hend⟩ | ⟨place, hbroken, hend⟩
      · -- The round has used up some of the bound, but no more of it than of the sequence.
        have hshorter := h.shortens categories left hmatch
        rw [hmatch]
        exact ih (by omega) (by omega) hleft
      · rw [hrefused]
        exact .inl ⟨categories, rfl, hinv, hend⟩
      · rw [hbroken]
        exact .inr ⟨place, rfl, hend⟩

/-! ## Single categories -/

/-- What a matcher of one category answers. -/
theorem single_cases (accepts : Category → Bool) (categories : List Category) :
    (∃ category later, categories = category :: later ∧ accepts category = true ∧
        single accepts categories = .matched later) ∨
      (∀ category, categories.head? = some category → accepts category = false) ∧
        single accepts categories = .refused categories := by
  cases categories with
  | nil => exact .inr ⟨by simp, rfl⟩
  | cons category later =>
      cases haccepts : accepts category with
      | true => exact .inl ⟨category, later, rfl, haccepts, by simp [single, haccepts]⟩
      | false => exact .inr ⟨by simp [haccepts], by simp [single, haccepts]⟩

theorem one_cases (expected : Category) (categories : List Category) :
    (∃ later, categories = expected :: later ∧ one expected categories = .matched later) ∨
      categories.head? ≠ some expected ∧ one expected categories = .refused categories := by
  rcases single_cases (fun category => category = expected) categories with
    ⟨category, later, rfl, haccepts, hone⟩ | ⟨hhead, hone⟩
  · obtain rfl := of_decide_eq_true haccepts
    exact .inl ⟨later, rfl, hone⟩
  · exact .inr ⟨fun h => of_decide_eq_false (hhead expected h) rfl, hone⟩

/-- Where a repetition of single categories ends: at a stage that their stages lead to, in front of a
category that is not accepted. -/
theorem many_single_cases {accepts : Category → Bool} (Inv : Stage → List Category → Prop)
    (hstep : ∀ stage category later, Inv stage (category :: later) → accepts category = true →
      ∃ next, stage.next? category = some next ∧ Inv next later)
    {bound : Nat} {categories : List Category} {stage : Stage}
    (hbound : categories.length ≤ bound) (hinv : Inv stage categories) :
    ∃ left reached, (single accepts).many bound categories = .matched left ∧
      stage.Arrives categories reached left ∧ Inv reached left ∧
      ∀ category, left.head? = some category → accepts category = false := by
  have hround : ∀ earlier : List Category, earlier.length ≤ bound →
      (∃ reached, stage.Arrives categories reached earlier ∧ Inv reached earlier) →
      (∃ left, single accepts earlier = .matched left ∧
          ∃ reached, stage.Arrives categories reached left ∧ Inv reached left) ∨
        (∃ place, single accepts earlier = .refused place ∧
            ∀ category, earlier.head? = some category → accepts category = false) ∨
          ∃ place, single accepts earlier = .broken place ∧ False := by
    rintro earlier - ⟨middle, harrives, hmiddle⟩
    rcases single_cases accepts earlier with
      ⟨category, later, rfl, haccepts, hsingle⟩ | ⟨hhead, hsingle⟩
    · obtain ⟨next, hnext, hinvNext⟩ := hstep middle category later hmiddle haccepts
      exact .inl ⟨later, hsingle, next, harrives.snoc hnext, hinvNext⟩
    · exact .inr (.inl ⟨earlier, hsingle, hhead⟩)
  rcases many_cases (single_advances accepts) hround hbound hbound ⟨stage, .refl _ _, hinv⟩ with
    ⟨left, hmany, ⟨reached, harrives, hreached⟩, hhead⟩ | ⟨_, _, hnever⟩
  · exact ⟨left, reached, hmany, harrives, hreached, hhead⟩
  · exact hnever.elim

/-- The case of categories that all lead back to the stage they are found at. -/
theorem many_single_of_loop {accepts : Category → Bool} {stage : Stage}
    (hloop : ∀ category, accepts category = true → stage.next? category = some stage)
    {bound : Nat} {categories : List Category} (hbound : categories.length ≤ bound) :
    ∃ left, (single accepts).many bound categories = .matched left ∧
      stage.Arrives categories stage left ∧
      ∀ category, left.head? = some category → accepts category = false := by
  have hstep : ∀ (among : Stage) (category : Category) (_ : List Category),
      among = stage → accepts category = true →
        ∃ next, among.next? category = some next ∧ next = stage := by
    rintro _ category - rfl haccepts
    exact ⟨_, hloop category haccepts, rfl⟩
  obtain ⟨left, _, hmany, harrives, rfl, hhead⟩ :=
    many_single_cases (fun among _ => among = stage) hstep hbound rfl
  exact ⟨left, hmany, harrives, hhead⟩

end Matcher

end Layout
end ShaderBinary
