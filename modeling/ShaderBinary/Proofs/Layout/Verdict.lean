import ShaderBinary.Proofs.Layout.Grammar
import ShaderBinary.Proofs.Layout.Sections

/-!
# The answers of the layout check

* `check_eq_ok_iff`: the check accepts exactly the sequences of the layout grammar.
* `check_eq_error_iff`: it rejects a sequence with the one violation that `Diagnosis` names. Wherever
  a violation has a position, that is the end of the longest front that can still be completed
  (`LongestViable`); only a repeated memory model is reported before that is looked for.

`Viable`, `LongestViable`, `UnfinishedFunction` and `Diagnosis` speak about the grammar and about the
sequence alone. That the stages know the same is shown by `viable_iff`, `longestViable_iff` and
`unfinishedFunction_iff`.
-/

namespace ShaderBinary
namespace Layout

/-! ## Counting the memory models -/

theorem length_memoryModelsFrom (position : Nat) (categories : List Category) :
    (memoryModelsFrom position categories).length = categories.count .memoryModel := by
  induction categories generalizing position with
  | nil => rfl
  | cons category later ih =>
      unfold memoryModelsFrom
      by_cases hmodel : category = .memoryModel
      · rw [if_pos hmodel, List.length_cons, ih, hmodel, List.count_cons_self]
      · rw [if_neg hmodel, ih, List.count_cons_of_ne hmodel]

/-- The first of the positions is that of the first memory model, and the others are those behind it. -/
theorem memoryModelsFrom_eq_cons {position first : Nat} {categories : List Category}
    {others : List Nat} (h : memoryModelsFrom position categories = first :: others) :
    ∃ before after, categories = before ++ .memoryModel :: after ∧
      before.count .memoryModel = 0 ∧ first = position + before.length ∧
      others = memoryModelsFrom (first + 1) after := by
  induction categories generalizing position with
  | nil => cases h
  | cons category later ih =>
      unfold memoryModelsFrom at h
      by_cases hmodel : category = .memoryModel
      · rw [if_pos hmodel] at h
        obtain ⟨rfl, rfl⟩ := List.cons.inj h
        exact ⟨[], later, by rw [hmodel]; rfl, rfl, rfl, rfl⟩
      · rw [if_neg hmodel] at h
        obtain ⟨before, after, rfl, hcount, hfirst, hothers⟩ := ih h
        refine ⟨category :: before, after, rfl, ?_, ?_, hothers⟩
        · rw [List.count_cons_of_ne hmodel, hcount]
        · rw [hfirst, List.length_cons]
          omega

/-- The second of the positions is that of the memory model with one before it. -/
theorem second_memoryModel {first second : Nat} {categories : List Category} {others : List Nat}
    (h : memoryModelsFrom 0 categories = first :: second :: others) :
    categories[second]? = some .memoryModel ∧
      (categories.take second).count .memoryModel = 1 := by
  obtain ⟨before, between, rfl, hbefore, hfirst, hothers⟩ := memoryModelsFrom_eq_cons h
  obtain ⟨middle, after, rfl, hmiddle, hsecond, -⟩ := memoryModelsFrom_eq_cons hothers.symm
  have hplace : second = (before ++ .memoryModel :: middle).length := by
    rw [List.length_append, List.length_cons]
    omega
  have hsplit : before ++ .memoryModel :: (middle ++ .memoryModel :: after) =
      (before ++ .memoryModel :: middle) ++ .memoryModel :: after := by
    rw [List.append_assoc, List.cons_append]
  rw [hsplit, hplace]
  constructor
  · rw [List.getElem?_append_right (Nat.le_refl _), Nat.sub_self, List.getElem?_cons_zero]
  · rw [List.take_left, List.count_append, List.count_cons_self, hbefore, hmiddle]

/-- A memory model counts from the next position on. -/
theorem count_take_lt {categories : List Category} {earlier later : Nat}
    (hearlier : categories[earlier]? = some .memoryModel) (hlt : earlier < later) :
    (categories.take earlier).count .memoryModel < (categories.take later).count .memoryModel := by
  have hsublist : (categories.take (earlier + 1)).Sublist (categories.take later) :=
    List.take_sublist_take_left hlt
  have hle := hsublist.count_le .memoryModel
  rw [List.take_add_one, hearlier, List.count_append, Option.toList_some,
    List.count_singleton_self] at hle
  exact hle

/-- No two memory models have the same number of memory models before them. -/
theorem eq_of_count_take_eq {categories : List Category} {one other : Nat}
    (hone : categories[one]? = some .memoryModel)
    (hother : categories[other]? = some .memoryModel)
    (hcount : (categories.take one).count .memoryModel =
      (categories.take other).count .memoryModel) : one = other := by
  rcases Nat.lt_trichotomy one other with hlt | heq | hlt
  · exact absurd hcount (Nat.ne_of_lt (count_take_lt hone hlt))
  · exact heq
  · exact absurd hcount.symm (Nat.ne_of_lt (count_take_lt hother hlt))

/-- A memory model with another one before it is not the only one. -/
theorem one_lt_count_of_second {categories : List Category} {second : Nat}
    (hsecond : categories[second]? = some .memoryModel)
    (hbefore : (categories.take second).count .memoryModel = 1) :
    1 < categories.count .memoryModel := by
  obtain ⟨hlt, -⟩ := List.getElem?_eq_some_iff.mp hsecond
  have hcount := count_take_lt hsecond hlt
  rwa [hbefore, List.take_length] at hcount

/-! ## Accepted sequences -/

theorem count_memoryModel_of_mem_layouts {categories : List Category}
    (h : categories ∈ Grammar.layouts) : categories.count .memoryModel = 1 := by
  obtain ⟨reached, hrun, hfinal⟩ := (Grammar.mem_layouts_iff categories).mp h
  have hcount := Stage.count_memoryModel_of_run hrun
  cases reached <;> simp_all [Stage.memoryModels, Stage.final]

/-- With one memory model, the sections decide. -/
theorem check_eq_checkSections {categories : List Category}
    (h : categories.count .memoryModel = 1) :
    check categories = checkSections categories.length categories := by
  have hlength := length_memoryModelsFrom 0 categories
  rw [h, List.length_eq_one_iff] at hlength
  obtain ⟨position, hposition⟩ := hlength
  unfold check
  simp only [hposition]

theorem Stage.verdict_eq_ok_iff {reached : Stage} {length : Nat} {left : List Category} :
    reached.verdict length left = .ok () ↔ left = [] ∧ reached.final = true := by
  unfold Stage.verdict
  cases left <;> cases hfinal : reached.final <;> simp

/-- A sequence is stuck at a final stage, with nothing left, exactly if it is followed to its end. -/
theorem mem_layouts_iff_of_stuck {reached : Stage} {categories left : List Category}
    (harrives : Stage.preamble.Arrives categories reached left) (hstuck : reached.Stuck left) :
    categories ∈ Grammar.layouts ↔ left = [] ∧ reached.final = true := by
  rw [Grammar.mem_layouts_iff]
  constructor
  · rintro ⟨last, hrun, hfinal⟩
    obtain ⟨taken, rfl, htaken⟩ := harrives
    rw [Stage.run_append, htaken] at hrun
    cases left with
    | nil => cases hrun; exact ⟨rfl, hfinal⟩
    | cons category later =>
        rw [Option.bind_some, Stage.run_cons, hstuck category rfl] at hrun
        cases hrun
  · rintro ⟨rfl, hfinal⟩
    exact ⟨reached, Stage.arrives_nil_iff.mp harrives, hfinal⟩

/-- The check accepts exactly the sequences of the layout grammar. -/
theorem check_eq_ok_iff (categories : List Category) :
    check categories = .ok () ↔ categories ∈ Grammar.layouts := by
  by_cases hcount : categories.count .memoryModel = 1
  · obtain ⟨reached, left, harrives, hstuck, hanswer⟩ :=
      checkSections_decided (Nat.le_refl categories.length)
    rw [check_eq_checkSections hcount, hanswer, Stage.verdict_eq_ok_iff,
      mem_layouts_iff_of_stuck harrives hstuck]
  · have hnotLayout : categories ∉ Grammar.layouts :=
      fun h => hcount (count_memoryModel_of_mem_layouts h)
    have hlength := length_memoryModelsFrom 0 categories
    unfold check
    simp only [hnotLayout, iff_false]
    rcases hmodels : memoryModelsFrom 0 categories with _ | ⟨first, _ | ⟨second, others⟩⟩
    · simp
    · rw [hmodels] at hlength
      exact absurd hlength.symm hcount
    · simp

/-! ## Rejected sequences -/

/-- A sequence that can be completed to the layout of a module. -/
def Viable (front : List Category) : Prop :=
  ∃ completion, front ++ completion ∈ Grammar.layouts

/-- The longest front of a sequence that can be completed has `n` categories. -/
structure LongestViable (categories : List Category) (n : Nat) : Prop where
  within : n ≤ categories.length
  viable : Viable (categories.take n)
  longest : ∀ m, m ≤ categories.length → Viable (categories.take m) → m ≤ n

/-- The last function that was started has not been ended. -/
def UnfinishedFunction (front : List Category) : Prop :=
  ∃ before inside, front = before ++ .function :: inside ∧ .functionEnd ∉ inside

/-- What is wrong with a sequence whose longest front that can be completed has `n` categories. -/
inductive Diagnosis (categories : List Category) (n : Nat) : Violation → Prop
  | noMemoryModel (hcount : categories.count .memoryModel = 0) :
      Diagnosis categories n (.noMemoryModel n)
  | severalMemoryModels {second : Nat} (hsecond : categories[second]? = some .memoryModel)
      (hbefore : (categories.take second).count .memoryModel = 1) :
      Diagnosis categories n (.severalMemoryModels second (categories.count .memoryModel))
  | noExecutionMode (hcount : categories.count .memoryModel = 1)
      (hlast : (categories.take n).getLast? = some .entryPoint) :
      Diagnosis categories n (.noExecutionMode (n - 1))
  | noEntryPoint (hcount : categories.count .memoryModel = 1)
      (hlast : (categories.take n).getLast? = some .memoryModel) :
      Diagnosis categories n (.noEntryPoint n)
  | brokenFunction (hcount : categories.count .memoryModel = 1)
      (hunfinished : UnfinishedFunction (categories.take n)) :
      Diagnosis categories n (.brokenFunction n categories[n]?)
  | misplaced {category : Category} (hcount : categories.count .memoryModel = 1)
      (hentry : (categories.take n).getLast? ≠ some .entryPoint)
      (hmodel : (categories.take n).getLast? ≠ some .memoryModel)
      (hfinished : ¬UnfinishedFunction (categories.take n))
      (hfound : categories[n]? = some category) :
      Diagnosis categories n (.misplaced n category)

namespace Stage

/-- A sequence that leads from a stage to the end of a module. -/
def completion : Stage → List Category
  | preamble => [.memoryModel, .entryPoint, .executionMode]
  | memoryModel => [.entryPoint, .executionMode]
  | entryPoint => [.executionMode]
  | executionModes | annotations | declarations | functions => []
  | parameters => [.label, .terminator, .functionEnd]
  | block => [.terminator, .functionEnd]
  | afterBlock => [.functionEnd]

theorem run_completion (stage : Stage) :
    ∃ reached, stage.run stage.completion = some reached ∧ reached.final = true := by
  cases stage <;> exact ⟨_, rfl, rfl⟩

end Stage

/-- What can be completed is what can be followed. -/
theorem viable_iff (front : List Category) :
    Viable front ↔ ∃ reached, Stage.preamble.run front = some reached := by
  constructor
  · rintro ⟨completion, hlayout⟩
    obtain ⟨last, hrun, -⟩ := (Grammar.mem_layouts_iff _).mp hlayout
    rw [Stage.run_append, Option.bind_eq_some_iff] at hrun
    obtain ⟨reached, hfront, -⟩ := hrun
    exact ⟨reached, hfront⟩
  · rintro ⟨reached, hfront⟩
    obtain ⟨last, hrun, hfinal⟩ := reached.run_completion
    refine ⟨reached.completion, (Grammar.mem_layouts_iff _).mpr ⟨last, ?_, hfinal⟩⟩
    rw [Stage.run_append, hfront]
    exact hrun

/-- The longest front that can be completed ends where the stages are stuck. -/
theorem longestViable_iff {reached : Stage} {categories left : List Category}
    (harrives : Stage.preamble.Arrives categories reached left) (hstuck : reached.Stuck left)
    (n : Nat) : LongestViable categories n ↔ n = categories.length - left.length := by
  have hviable : Viable (categories.take (categories.length - left.length)) :=
    (viable_iff _).mpr ⟨reached, harrives.run_take⟩
  have hlongest : ∀ m, m ≤ categories.length → Viable (categories.take m) →
      m ≤ categories.length - left.length := by
    intro m hm hfront
    by_contra hbeyond
    obtain ⟨other, hrun⟩ := (viable_iff _).mp hfront
    have hnone := Stage.run_take_eq_none_of_stuck harrives hstuck (Nat.lt_of_not_le hbeyond) hm
    rw [hnone] at hrun
    cases hrun
  constructor
  · intro h
    exact Nat.le_antisymm (hlongest n h.within h.viable) (h.longest _ (Nat.sub_le _ _) hviable)
  · rintro rfl
    exact ⟨Nat.sub_le _ _, hviable, hlongest⟩

/-- The last category before a stage. -/
theorem getLast?_iff_of_run {front : List Category} {reached : Stage}
    (h : Stage.preamble.run front = some reached) :
    (front.getLast? = some .entryPoint ↔ reached = .entryPoint) ∧
      (front.getLast? = some .memoryModel ↔ reached = .memoryModel) := by
  rcases List.eq_nil_or_concat' front with rfl | ⟨before, category, rfl⟩
  · cases h
    simp
  · rw [Stage.run_append, Option.bind_eq_some_iff] at h
    obtain ⟨middle, -, hlast⟩ := h
    rw [Stage.run_cons, Option.bind_eq_some_iff] at hlast
    obtain ⟨next, hnext, hreached⟩ := hlast
    obtain rfl := Option.some.inj hreached
    rw [List.getLast?_concat]
    cases middle <;> cases category <;> simp_all [Stage.next?, Category.insideBlock] <;>
      subst hnext <;> simp

theorem unfinishedFunction_snoc (before : List Category) (category : Category) :
    UnfinishedFunction (before ++ [category]) ↔
      category = .function ∨ UnfinishedFunction before ∧ category ≠ .functionEnd := by
  constructor
  · rintro ⟨earlier, inside, heq, hnotEnded⟩
    rcases List.eq_nil_or_concat' inside with rfl | ⟨middle, last, rfl⟩
    · exact .inl (by simpa using (List.append_inj' heq rfl).2)
    · rw [← List.cons_append, ← List.append_assoc] at heq
      obtain ⟨hbefore, hlast⟩ := List.append_inj' heq rfl
      obtain rfl : category = last := by simpa using hlast
      rw [List.mem_append, not_or] at hnotEnded
      refine .inr ⟨⟨earlier, middle, hbefore, hnotEnded.1⟩, fun h => hnotEnded.2 ?_⟩
      rw [h]
      exact List.mem_singleton_self _
  · rintro (rfl | ⟨⟨earlier, inside, rfl, hnotEnded⟩, hother⟩)
    · exact ⟨before, [], rfl, List.not_mem_nil⟩
    · refine ⟨earlier, inside ++ [category], by rw [List.append_assoc, List.cons_append], ?_⟩
      rw [List.mem_append, List.mem_singleton, not_or]
      exact ⟨hnotEnded, hother.symm⟩

/-- A front ends inside a function if its stage is part of one. -/
theorem unfinishedFunction_iff {front : List Category} {reached : Stage}
    (h : Stage.preamble.run front = some reached) :
    UnfinishedFunction front ↔ reached.insideFunction = true := by
  induction front using List.reverseRecOn generalizing reached with
  | nil =>
      cases h
      simp [UnfinishedFunction, Stage.insideFunction]
  | append_singleton before category ih =>
      rw [Stage.run_append, Option.bind_eq_some_iff] at h
      obtain ⟨middle, hmiddle, hlast⟩ := h
      rw [Stage.run_cons, Option.bind_eq_some_iff] at hlast
      obtain ⟨next, hnext, hreached⟩ := hlast
      obtain rfl := Option.some.inj hreached
      rw [unfinishedFunction_snoc, ih hmiddle]
      cases middle <;> cases category <;> simp_all [Stage.next?, Category.insideBlock] <;>
        subst hnext <;> simp [Stage.insideFunction]

theorem Stage.verdict_eq_error_iff {reached : Stage} {length : Nat} {left : List Category}
    {violation : Violation} : reached.verdict length left = .error violation ↔
      ¬(left = [] ∧ reached.final = true) ∧
        violation = reached.violationAt (length - left.length) left := by
  unfold Stage.verdict
  cases left <;> cases hfinal : reached.final <;> simp [eq_comm]

theorem Stage.violationAt_of_insideFunction {stage : Stage} (h : stage.insideFunction = true)
    (position : Nat) (left : List Category) :
    stage.violationAt position left = .brokenFunction position left.head? := by
  simp [Stage.violationAt, h]

theorem Stage.violationAt_of_ne {stage : Stage} (hinside : ¬stage.insideFunction = true)
    (hentry : stage ≠ .entryPoint) (hmodel : stage ≠ .memoryModel) (position : Nat)
    (left : List Category) : stage.violationAt position left = misplacedAt position left := by
  cases stage <;> simp_all [Stage.violationAt]

/-- What the diagnosis finds at the end of the part that was followed is what the stage and the rest
say. -/
theorem Diagnosis.verdict_eq {reached : Stage} {categories left : List Category}
    {violation : Violation} (harrives : Stage.preamble.Arrives categories reached left)
    (hcount : categories.count .memoryModel = 1)
    (h : Diagnosis categories (categories.length - left.length) violation) :
    reached.verdict categories.length left = .error violation := by
  have hrun := harrives.run_take
  obtain ⟨hentry, hmodel⟩ := getLast?_iff_of_run hrun
  have hinside := unfinishedFunction_iff hrun
  have hfound : categories[categories.length - left.length]? = left.head? := by
    rw [← List.head?_drop, harrives.drop_eq]
  rw [Stage.verdict_eq_error_iff]
  cases h with
  | noMemoryModel hnone => omega
  | severalMemoryModels hsecond hbefore =>
      have hseveral := one_lt_count_of_second hsecond hbefore
      omega
  | noExecutionMode _ hlast =>
      obtain rfl := hentry.mp hlast
      exact ⟨fun h => Bool.noConfusion h.2, rfl⟩
  | noEntryPoint _ hlast =>
      obtain rfl := hmodel.mp hlast
      exact ⟨fun h => Bool.noConfusion h.2, rfl⟩
  | brokenFunction _ hunfinished =>
      have hstage := hinside.mp hunfinished
      rw [hfound]
      refine ⟨fun h => ?_, (Stage.violationAt_of_insideFunction hstage _ _).symm⟩
      cases reached <;> simp_all [Stage.insideFunction, Stage.final]
  | misplaced _ hnotEntry hnotModel hfinished hplace =>
      rw [hfound] at hplace
      obtain ⟨later, rfl⟩ := List.head?_eq_some_iff.mp hplace
      refine ⟨fun h => List.cons_ne_nil _ _ h.1, ?_⟩
      rw [Stage.violationAt_of_ne (mt hinside.mpr hfinished) (mt hentry.mpr hnotEntry)
        (mt hmodel.mpr hnotModel)]
      rfl

/-- What the stage and the rest say is found by the diagnosis. -/
theorem diagnosis_of_verdict {reached : Stage} {categories left : List Category}
    {violation : Violation} (harrives : Stage.preamble.Arrives categories reached left)
    (hcount : categories.count .memoryModel = 1)
    (h : reached.verdict categories.length left = .error violation) :
    Diagnosis categories (categories.length - left.length) violation := by
  have hrun := harrives.run_take
  obtain ⟨hentry, hmodel⟩ := getLast?_iff_of_run hrun
  have hinside := unfinishedFunction_iff hrun
  have hfound : categories[categories.length - left.length]? = left.head? := by
    rw [← List.head?_drop, harrives.drop_eq]
  -- At its end a sequence has passed its memory model.
  have hpreamble : left = [] → reached ≠ .preamble := by
    rintro rfl rfl
    have hmodels := Stage.count_memoryModel_of_run (Stage.arrives_nil_iff.mp harrives)
    rw [hcount] at hmodels
    cases hmodels
  obtain ⟨hrejected, rfl⟩ := Stage.verdict_eq_error_iff.mp h
  by_cases hstage : reached.insideFunction = true
  · rw [Stage.violationAt_of_insideFunction hstage, ← hfound]
    exact .brokenFunction hcount (hinside.mpr hstage)
  by_cases hnotEntry : reached = .entryPoint
  · rw [hnotEntry]
    exact .noExecutionMode hcount (hentry.mpr hnotEntry)
  by_cases hnotModel : reached = .memoryModel
  · rw [hnotModel]
    exact .noEntryPoint hcount (hmodel.mpr hnotModel)
  rw [Stage.violationAt_of_ne hstage hnotEntry hnotModel]
  cases left with
  | nil => cases reached <;> simp_all [Stage.insideFunction, Stage.final]
  | cons category later =>
      exact .misplaced hcount (mt hentry.mp hnotEntry) (mt hmodel.mp hnotModel)
        (mt hinside.mp hstage) hfound

/-- Without a memory model, the stages are stuck where the preamble ends. -/
theorem longestViable_of_no_memoryModel {categories : List Category}
    (hcount : categories.count .memoryModel = 0) (n : Nat) :
    LongestViable categories n ↔
      n = categories.length - ((preamble categories.length categories).leftOr categories).length := by
  obtain ⟨left, hpreamble, harrives, hhead⟩ := preamble_cases (Nat.le_refl categories.length)
  have hstuck : Stage.preamble.Stuck left := by
    intro category hcategory
    have hbefore := hhead category hcategory
    -- The preamble ends in front of something else than a memory model, as there is none.
    have hother : category ≠ .memoryModel := by
      rintro rfl
      obtain ⟨taken, rfl, -⟩ := harrives
      obtain ⟨later, rfl⟩ := List.head?_eq_some_iff.mp hcategory
      simp at hcount
    cases category <;> simp_all [beforeMemoryModel, Stage.next?]
  rw [hpreamble, longestViable_iff harrives hstuck]
  rfl

/-- The check rejects a sequence with what is wrong behind its longest front that can be completed. -/
theorem check_eq_error_iff (categories : List Category) (violation : Violation) :
    check categories = .error violation ↔
      ∃ n, LongestViable categories n ∧ Diagnosis categories n violation := by
  obtain ⟨reached, left, harrives, hstuck, hanswer⟩ :=
    checkSections_decided (Nat.le_refl categories.length)
  have hlength := length_memoryModelsFrom 0 categories
  by_cases hone : categories.count .memoryModel = 1
  · rw [check_eq_checkSections hone, hanswer]
    simp only [longestViable_iff harrives hstuck, exists_eq_left]
    exact ⟨diagnosis_of_verdict harrives hone, fun h => h.verdict_eq harrives hone⟩
  · rcases hmodels : memoryModelsFrom 0 categories with _ | ⟨first, _ | ⟨second, others⟩⟩
    · rw [hmodels, List.length_nil] at hlength
      -- No memory model: only the first constructor is left.
      unfold check
      simp only [hmodels, longestViable_of_no_memoryModel hlength.symm, exists_eq_left,
        Except.error.injEq]
      constructor
      · rintro rfl
        exact .noMemoryModel hlength.symm
      · intro h
        cases h with
        | noMemoryModel => rfl
        | severalMemoryModels hsecond hbefore =>
            have hseveral := one_lt_count_of_second hsecond hbefore
            omega
        | _ => omega
    · rw [hmodels] at hlength
      exact absurd hlength.symm hone
    · obtain ⟨hsecond, hbefore⟩ := second_memoryModel hmodels
      rw [hmodels, List.length_cons, List.length_cons] at hlength
      -- Several memory models: the position of the second one is determined by the sequence.
      unfold check
      simp only [hmodels, longestViable_iff harrives hstuck, exists_eq_left, Except.error.injEq,
        hlength]
      constructor
      · rintro rfl
        exact .severalMemoryModels hsecond hbefore
      · intro h
        cases h with
        | severalMemoryModels hother hbeforeOther =>
            rw [eq_of_count_take_eq hsecond hother (hbefore.trans hbeforeOther.symm)]
        | _ => omega

/-- Up to the label the sequence can be completed, and then it is inside of a function. -/
example : check [.memoryModel, .entryPoint, .executionMode, .function, .label, .function] =
    .error (.brokenFunction 5 (some .function)) := by
  decide

end Layout
end ShaderBinary
