import ShaderBinary.Proofs.Layout.Matching

/-!
# The sections follow the stages

The layout is checked by greedy matchers, some of which commit themselves, while the stages look at
one category at a time. This module shows that both come to the same place.

* `block_cases`, `function_cases` and `entryPoint_cases` say for one matcher each where the stages
  stand after a match, a refusal and a break.
* `functions_cases`, `annotations_cases`, `declarations_cases` and `entryPoints_cases` say the same of
  the repetitions that are made of them.
* `checkSections_decided` puts the sections together: the answer of the check is determined by the
  stage at which a sequence is stuck and by what is left there (`Stage.verdict`).
-/

namespace ShaderBinary
namespace Layout

open Matcher Stage

variable {stage : Stage} {bound : Nat} {categories : List Category}

/-! ## Function definitions -/

/-- What the matcher of a block answers where a label may stand. -/
theorem block_cases (stage : Stage) (hstage : stage.next? .label = some .block)
    (hbound : categories.length ≤ bound) :
    (∃ left, block bound categories = .matched left ∧ stage.Arrives categories .afterBlock left) ∨
      (block bound categories = .refused categories ∧ categories.head? ≠ some .label) ∨
      ∃ place, block bound categories = .broken place ∧ stage.Arrives categories .block place ∧
        Stage.block.Stuck place := by
  unfold block andThen
  rcases one_cases .label categories with ⟨later, rfl, hone⟩ | ⟨hhead, hone⟩
  · rw [List.length_cons] at hbound
    have hloop : ∀ category : Category, category.insideBlock = true →
        Stage.block.next? category = some .block := by
      intro category hinside
      cases category <;> simp_all [Category.insideBlock, next?]
    obtain ⟨left, hmany, harrives, hhead⟩ := many_single_of_loop hloop (Nat.le_of_succ_le hbound)
    have hlabel : stage.Arrives (.label :: later) .block left := harrives.cons hstage
    -- Behind the label the block is committed to, so that a refusal of its end is a break.
    simp only [hone, committed, hmany]
    rcases one_cases .terminator left with ⟨afterLeft, rfl, hterminator⟩ | ⟨hleft, hterminator⟩
    · simp only [hterminator]
      exact .inl ⟨afterLeft, rfl, hlabel.snoc rfl⟩
    · simp only [hterminator]
      refine .inr (.inr ⟨left, rfl, hlabel, fun category hcategory => ?_⟩)
      have houtside := hhead category hcategory
      have hother : category ≠ .terminator := fun h => hleft (h ▸ hcategory)
      cases category <;> simp_all [Category.insideBlock, next?]
  · exact .inr (.inl ⟨by simp only [hone], hhead⟩)

theorem block_advances (bound : Nat) : (block bound).Advances :=
  (one_advances _).andThen
    (((single_advances _).neverLengthens.many bound).andThen
      (one_advances _).neverLengthens).committed

/-- What the matcher of the blocks after the first one answers: it does not refuse. -/
theorem many_block_cases (hbound : categories.length ≤ bound) :
    (∃ left, (block bound).many bound categories = .matched left ∧
        Stage.afterBlock.Arrives categories .afterBlock left ∧ left.head? ≠ some .label) ∨
      ∃ place, (block bound).many bound categories = .broken place ∧
        Stage.afterBlock.Arrives categories .block place ∧ Stage.block.Stuck place := by
  refine many_cases (block_advances bound) (fun earlier hearlier harrives => ?_) hbound hbound
    (.refl _ _)
  rcases block_cases .afterBlock rfl hearlier with
    ⟨left, hblock, hround⟩ | ⟨hblock, hhead⟩ | ⟨place, hblock, hround, hstuck⟩
  · exact .inl ⟨left, hblock, harrives.trans hround⟩
  · exact .inr (.inl ⟨earlier, hblock, hhead⟩)
  · exact .inr (.inr ⟨place, hblock, harrives.trans hround, hstuck⟩)

/-- A matcher inside a function definition leads from one stage to another, or stops, with a refusal or
a break, at the place where the stages are stuck. -/
def LeadsTo (matcher : Matcher) (stage goal : Stage) (categories : List Category) : Prop :=
  (∃ left, matcher categories = .matched left ∧ stage.Arrives categories goal left) ∨
    ∃ place reached, (matcher categories = .refused place ∨ matcher categories = .broken place) ∧
      stage.Arrives categories reached place ∧ reached.insideFunction = true ∧ reached.Stuck place

theorem LeadsTo.andThen {first second : Matcher} {middle goal : Stage}
    (hfirst : LeadsTo first stage middle categories)
    (hsecond : ∀ left, left.length ≤ categories.length → LeadsTo second middle goal left) :
    LeadsTo (first.andThen second) stage goal categories := by
  unfold LeadsTo Matcher.andThen
  rcases hfirst with ⟨left, hmatch, harrives⟩ | ⟨place, reached, hstop, hplace⟩
  · rcases hsecond left harrives.length_le with
      ⟨rest, hrest, hgoal⟩ | ⟨place, reached, hstop, hreached, hstuck⟩
    · exact .inl ⟨rest, by simp only [hmatch, hrest], harrives.trans hgoal⟩
    · exact .inr ⟨place, reached, by simp only [hmatch]; exact hstop, harrives.trans hreached, hstuck⟩
  · refine .inr ⟨place, reached, ?_, hplace⟩
    rcases hstop with hrefused | hbroken
    · exact .inl (by simp only [hrefused])
    · exact .inr (by simp only [hbroken])

/-- The parameters of a function and its first block. -/
theorem parameters_leadsTo (hbound : categories.length ≤ bound) :
    LeadsTo (((one .functionParameter).many bound).andThen (block bound)) .parameters .afterBlock
      categories := by
  have hloop : ∀ category, decide (category = .functionParameter) = true →
      Stage.parameters.next? category = some .parameters := by
    intro category hparameter
    rw [of_decide_eq_true hparameter]
    rfl
  obtain ⟨left, hmany, harrives, hhead⟩ := many_single_of_loop hloop hbound
  have hmatched : (one .functionParameter).many bound categories = .matched left := hmany
  have hlength := harrives.length_le
  unfold LeadsTo Matcher.andThen
  simp only [hmatched]
  rcases block_cases .parameters rfl (show left.length ≤ bound by omega) with
    ⟨rest, hblock, hfirst⟩ | ⟨hblock, hlabel⟩ | ⟨place, hblock, hfirst, hstuck⟩
  · exact .inl ⟨rest, hblock, harrives.trans hfirst⟩
  · refine .inr ⟨left, .parameters, .inl hblock, harrives, rfl, fun category hcategory => ?_⟩
    have hother : category ≠ .label := fun h => hlabel (h ▸ hcategory)
    have hother' := of_decide_eq_false (hhead category hcategory)
    cases category <;> simp_all [next?]
  · exact .inr ⟨place, .block, .inr hblock, harrives.trans hfirst, rfl, hstuck⟩

/-- The blocks of a function after the first one, and its end. -/
theorem blocks_leadsTo (hbound : categories.length ≤ bound) :
    LeadsTo (((block bound).many bound).andThen (one .functionEnd)) .afterBlock .functions
      categories := by
  unfold LeadsTo Matcher.andThen
  rcases many_block_cases hbound with
    ⟨left, hmany, harrives, hlabel⟩ | ⟨place, hmany, harrives, hstuck⟩
  · simp only [hmany]
    rcases one_cases .functionEnd left with ⟨later, rfl, hend⟩ | ⟨hhead, hend⟩
    · exact .inl ⟨later, hend, harrives.snoc rfl⟩
    · refine .inr ⟨left, .afterBlock, .inl hend, harrives, rfl, fun category hcategory => ?_⟩
      have hother : category ≠ .label := fun h => hlabel (h ▸ hcategory)
      have hother' : category ≠ .functionEnd := fun h => hhead (h ▸ hcategory)
      cases category <;> simp_all [next?]
  · exact .inr ⟨place, .block, .inr (by simp only [hmany]), harrives, rfl, hstuck⟩

/-- What the matcher of a function definition answers where one may start. -/
theorem function_cases (hstage : stage.next? .function = some .parameters)
    (hbound : categories.length ≤ bound) :
    (∃ left, function bound categories = .matched left ∧
        stage.Arrives categories .functions left) ∨
      (function bound categories = .refused categories ∧ categories.head? ≠ some .function) ∨
      ∃ place reached, function bound categories = .broken place ∧
        stage.Arrives categories reached place ∧ reached.insideFunction = true ∧
        reached.Stuck place := by
  unfold function
  rw [Matcher.andThen]
  rcases one_cases .function categories with ⟨later, rfl, hone⟩ | ⟨hhead, hone⟩
  · rw [List.length_cons] at hbound
    have hstart {reached : Stage} {left : List Category}
        (h : Stage.parameters.Arrives later reached left) :
        stage.Arrives (.function :: later) reached left := h.cons hstage
    have hbody := (parameters_leadsTo (Nat.le_of_succ_le hbound)).andThen
      fun left hleft => blocks_leadsTo (show left.length ≤ bound by omega)
    rcases hbody with ⟨left, hmatch, harrives⟩ | ⟨place, reached, hstop, harrives, hinside, hstuck⟩
    · exact .inl ⟨left, by simp only [hone, committed, hmatch], hstart harrives⟩
    · refine .inr (.inr ⟨place, reached, ?_, hstart harrives, hinside, hstuck⟩)
      rcases hstop with hrefused | hbroken
      · simp only [hone, committed, hrefused]
      · simp only [hone, committed, hbroken]
  · exact .inr (.inl ⟨by simp only [hone], hhead⟩)

theorem function_advances (bound : Nat) : (function bound).Advances := by
  refine (one_advances _).andThen (NeverLengthens.committed ?_)
  refine ((NeverLengthens.many ?_ bound).andThen ?_).andThen ((NeverLengthens.many ?_ bound).andThen ?_)
  · exact (one_advances _).neverLengthens
  · exact (block_advances bound).neverLengthens
  · exact (block_advances bound).neverLengthens
  · exact (one_advances _).neverLengthens

/-! ## The sections of a module -/

/-- Nothing but the accepted categories can stand first in what is left. -/
def Stage.StuckUnless (accepts : Category → Bool) (stage : Stage) (left : List Category) : Prop :=
  ∀ category, left.head? = some category → accepts category = false →
    stage.next? category = none

/-- Whether a category starts a function definition. -/
def startsFunction (category : Category) : Bool :=
  category = .function

theorem final_of_next?_function (h : stage.next? .function = some .parameters) :
    stage.final = true ∧ stage.insideFunction = false := by
  cases stage <;> simp_all [next?, final, insideFunction, Category.insideBlock]

/-- Where the function definitions end: in front of something that cannot stand there, or inside of one
that is broken. -/
theorem functions_cases (hstage : stage.next? .function = some .parameters)
    (hstuck : stage.StuckUnless startsFunction categories) (hbound : categories.length ≤ bound) :
    (∃ left reached, functions bound categories = .matched left ∧
        stage.Arrives categories reached left ∧ reached.next? .function = some .parameters ∧
        reached.Stuck left) ∨
      ∃ place reached, functions bound categories = .broken place ∧
        stage.Arrives categories reached place ∧ reached.insideFunction = true ∧
        reached.Stuck place := by
  have hround : ∀ earlier : List Category, earlier.length ≤ bound →
      (∃ reached, stage.Arrives categories reached earlier ∧
        reached.next? .function = some .parameters ∧
        reached.StuckUnless startsFunction earlier) →
      (∃ left, function bound earlier = .matched left ∧
          ∃ reached, stage.Arrives categories reached left ∧
            reached.next? .function = some .parameters ∧
            reached.StuckUnless startsFunction left) ∨
        (∃ place, function bound earlier = .refused place ∧ earlier.head? ≠ some .function) ∨
          ∃ place, function bound earlier = .broken place ∧
            ∃ reached, stage.Arrives categories reached place ∧ reached.insideFunction = true ∧
              reached.Stuck place := by
    rintro earlier hearlier ⟨reached, harrives, hnext, -⟩
    rcases function_cases hnext hearlier with
      ⟨left, hfunction, hdefinition⟩ | ⟨hfunction, hhead⟩ | ⟨place, inside, hfunction, hbreak, hplace⟩
    · -- Behind a function definition only another one can stand.
      refine .inl ⟨left, hfunction, .functions, harrives.trans hdefinition, rfl, ?_⟩
      intro category _ hother
      cases category <;> simp_all [startsFunction, next?]
    · exact .inr (.inl ⟨earlier, hfunction, hhead⟩)
    · exact .inr (.inr ⟨place, hfunction, inside, harrives.trans hbreak, hplace⟩)
  rcases many_cases (function_advances bound) hround hbound hbound
      ⟨stage, .refl _ _, hstage, hstuck⟩ with
    ⟨left, hmany, ⟨reached, harrives, hnext, hunless⟩, hhead⟩ | ⟨place, hmany, reached, hplace⟩
  · refine .inl ⟨left, reached, hmany, harrives, hnext, fun category hcategory => ?_⟩
    refine hunless category hcategory (decide_eq_false fun h => hhead ?_)
    rw [hcategory, h]
  · exact .inr ⟨place, reached, hmany, hplace⟩

/-- Whether a category may stand after the entry points. -/
def afterEntryPoint (category : Category) : Bool :=
  amongAnnotations category || amongDeclarations category || startsFunction category

/-- Whether a category may stand after the annotations. -/
def afterAnnotation (category : Category) : Bool :=
  category = .declaration || startsFunction category

/-- Where the annotations end. -/
theorem annotations_cases (hstuck : Stage.executionModes.StuckUnless afterEntryPoint categories)
    (hbound : categories.length ≤ bound) :
    ∃ left reached, annotations bound categories = .matched left ∧
      Stage.executionModes.Arrives categories reached left ∧
      (reached = .executionModes ∨ reached = .annotations) ∧
      reached.StuckUnless afterAnnotation left := by
  have hstep : ∀ (among : Stage) (category : Category) (later : List Category),
      ((among = .executionModes ∨ among = .annotations) ∧
        among.StuckUnless afterEntryPoint (category :: later)) →
      amongAnnotations category = true →
      ∃ next, among.next? category = some next ∧
        ((next = .executionModes ∨ next = .annotations) ∧
          next.StuckUnless afterEntryPoint later) := by
    rintro among category later ⟨hamong, -⟩ haccepts
    have hunless : Stage.annotations.StuckUnless afterEntryPoint later := by
      intro category _ hother
      cases category <;>
        simp_all [afterEntryPoint, amongAnnotations, amongDeclarations, startsFunction, next?]
    -- Every annotation leads to the same stage, whatever it was found behind.
    refine ⟨.annotations, ?_, .inr rfl, hunless⟩
    rcases hamong with rfl | rfl <;> cases category <;> simp_all [amongAnnotations, next?]
  obtain ⟨left, reached, hmany, harrives, ⟨hreached, hunless⟩, hhead⟩ :=
    many_single_cases
      (fun among left => (among = .executionModes ∨ among = .annotations) ∧
        among.StuckUnless afterEntryPoint left) hstep hbound ⟨.inl rfl, hstuck⟩
  refine ⟨left, reached, hmany, harrives, hreached, fun category hcategory hother => ?_⟩
  have hnotAmong := hhead category hcategory
  refine hunless category hcategory ?_
  cases category <;>
    simp_all [afterEntryPoint, afterAnnotation, amongAnnotations, amongDeclarations]

/-- Where the declarations end. -/
theorem declarations_cases (hstage : stage = .executionModes ∨ stage = .annotations)
    (hstuck : stage.StuckUnless afterAnnotation categories) (hbound : categories.length ≤ bound) :
    ∃ left reached, declarations bound categories = .matched left ∧
      stage.Arrives categories reached left ∧ reached.next? .function = some .parameters ∧
      reached.StuckUnless startsFunction left := by
  have hstep : ∀ (among : Stage) (category : Category) (later : List Category),
      (among = .declarations ∨ (among = .executionModes ∨ among = .annotations) ∧
        among.StuckUnless afterAnnotation (category :: later)) →
      amongDeclarations category = true →
      ∃ next, among.next? category = some next ∧
        (next = .declarations ∨ (next = .executionModes ∨ next = .annotations) ∧
          next.StuckUnless afterAnnotation later) := by
    rintro among category later hamong haccepts
    refine ⟨.declarations, ?_, .inl rfl⟩
    rcases hamong with rfl | ⟨hamong, hunless⟩
    · cases category <;> simp_all [amongDeclarations, next?]
    · -- The annotations have taken all debug instructions, so this one is a declaration.
      have hcategory := hunless category rfl
      rcases hamong with rfl | rfl <;> cases category <;>
        simp_all [amongDeclarations, afterAnnotation, startsFunction, next?]
  obtain ⟨left, reached, hmany, harrives, hreached, hhead⟩ :=
    many_single_cases
      (fun among left => among = .declarations ∨ (among = .executionModes ∨ among = .annotations) ∧
        among.StuckUnless afterAnnotation left) hstep hbound (.inr ⟨hstage, hstuck⟩)
  refine ⟨left, reached, hmany, harrives, ?_, fun category hcategory hother => ?_⟩
  · rcases hreached with rfl | ⟨rfl | rfl, -⟩ <;> rfl
  · have hnotAmong := hhead category hcategory
    rcases hreached with rfl | ⟨-, hunless⟩
    · cases category <;> simp_all [amongDeclarations, startsFunction, next?]
    · refine hunless category hcategory ?_
      cases category <;> simp_all [amongDeclarations, afterAnnotation]

/-- An entry point cannot be taken: there is none, or it has no execution mode. -/
def NoEntryPoint (left : List Category) : Prop :=
  left.head? ≠ some .entryPoint ∨
    ∃ later, left = .entryPoint :: later ∧ Stage.entryPoint.Stuck later

/-- The matcher of an entry point and its execution modes. -/
theorem entryPoint_cases (stage : Stage)
    (hstage : stage.next? .entryPoint = some .entryPoint)
    (hbound : categories.length ≤ bound) :
    (∃ left, entryPoint bound categories = .matched left ∧
        stage.Arrives categories .executionModes left ∧ left.head? ≠ some .executionMode) ∨
      ∃ place, entryPoint bound categories = .refused place ∧ NoEntryPoint categories := by
  unfold entryPoint Matcher.andThen
  rcases one_cases .entryPoint categories with ⟨later, rfl, hone⟩ | ⟨hhead, hone⟩
  · rw [List.length_cons] at hbound
    unfold many1
    rcases one_cases .executionMode later with ⟨modes, rfl, hmode⟩ | ⟨hhead, hmode⟩
    · rw [List.length_cons] at hbound
      have hloop : ∀ category, decide (category = .executionMode) = true →
          Stage.executionModes.next? category = some .executionModes := by
        intro category hmode
        rw [of_decide_eq_true hmode]
        rfl
      obtain ⟨left, hmany, harrives, hhead⟩ :=
        many_single_of_loop hloop (show modes.length ≤ bound by omega)
      have hmatched : (one .executionMode).many bound modes = .matched left := hmany
      refine .inl ⟨left, by simp only [hone, hmode, hmatched], ?_, ?_⟩
      · have hfirst : Stage.entryPoint.Arrives (.executionMode :: modes) .executionModes left :=
          harrives.cons rfl
        exact hfirst.cons hstage
      · exact fun h => of_decide_eq_false (hhead _ h) rfl
    · refine .inr ⟨later, by simp only [hone, hmode], .inr ⟨later, rfl, ?_⟩⟩
      intro category hcategory
      have hother : category ≠ .executionMode := fun h => hhead (h ▸ hcategory)
      cases category <;> simp_all [next?]
  · exact .inr ⟨categories, by simp only [hone], .inl hhead⟩

theorem entryPoint_advances (bound : Nat) : (entryPoint bound).Advances :=
  (one_advances _).andThen ((one_advances _).neverLengthens.many1 bound)

/-- Where the entry points end. -/
theorem entryPoints_cases (hbound : categories.length ≤ bound) :
    (∃ left, entryPoints bound categories = .matched left ∧
        Stage.memoryModel.Arrives categories .executionModes left ∧
        left.head? ≠ some .executionMode ∧ NoEntryPoint left) ∨
      (∃ place, entryPoints bound categories = .refused place) ∧ NoEntryPoint categories := by
  unfold entryPoints
  rw [many1]
  rcases entryPoint_cases .memoryModel rfl hbound with
    ⟨afterFirst, hfirst, harrives, hhead⟩ | ⟨place, hfirst, hnone⟩
  · have hlength := harrives.length_le
    have hround : ∀ earlier : List Category, earlier.length ≤ bound →
        (Stage.memoryModel.Arrives categories .executionModes earlier ∧
          earlier.head? ≠ some .executionMode) →
        (∃ left, entryPoint bound earlier = .matched left ∧
            Stage.memoryModel.Arrives categories .executionModes left ∧
            left.head? ≠ some .executionMode) ∨
          (∃ place, entryPoint bound earlier = .refused place ∧ NoEntryPoint earlier) ∨
            ∃ place, entryPoint bound earlier = .broken place ∧ False := by
      rintro earlier hearlier ⟨hbefore, -⟩
      rcases entryPoint_cases .executionModes rfl hearlier with
        ⟨left, hgroup, hafter, hleft⟩ | ⟨place, hgroup, hnone⟩
      · exact .inl ⟨left, hgroup, hbefore.trans hafter, hleft⟩
      · exact .inr (.inl ⟨place, hgroup, hnone⟩)
    have hafterFirst : afterFirst.length ≤ bound := by omega
    simp only [hfirst]
    rcases many_cases (entryPoint_advances bound) hround hafterFirst hafterFirst
        ⟨harrives, hhead⟩ with
      ⟨left, hmany, ⟨hreached, hmode⟩, hnone⟩ | ⟨_, _, hnever⟩
    · exact .inl ⟨left, hmany, hreached, hmode, hnone⟩
    · exact hnever.elim
  · exact .inr ⟨⟨categories, by simp only [hfirst]⟩, hnone⟩

/-! ## The whole check -/

/-- What is wrong at a stage that cannot be followed further. `position` is where `left` starts. -/
def Stage.violationAt (stage : Stage) (position : Nat) (left : List Category) : Violation :=
  if stage.insideFunction then .brokenFunction position left.head?
  else
    match stage with
    | entryPoint => .noExecutionMode (position - 1)
    | memoryModel => .noEntryPoint position
    | _ => misplacedAt position left

/-- The answer for a sequence of the given length that is stuck at a stage, where `left` is left. -/
def Stage.verdict (stage : Stage) (length : Nat) (left : List Category) : Except Violation Unit :=
  if left.isEmpty && stage.final then .ok ()
  else .error (stage.violationAt (length - left.length) left)

/-- The answer of the check is that of the place where the stages are stuck. -/
def Decided (stage : Stage) (length : Nat) (categories : List Category)
    (answer : Except Violation Unit) : Prop :=
  ∃ reached left, stage.Arrives categories reached left ∧ reached.Stuck left ∧
    answer = reached.verdict length left

theorem Decided.of_arrives {reached : Stage} {length : Nat} {left : List Category}
    {answer : Except Violation Unit} (harrives : stage.Arrives categories reached left)
    (h : Decided reached length left answer) : Decided stage length categories answer := by
  obtain ⟨last, rest, hlast, hstuck, hanswer⟩ := h
  exact ⟨last, rest, harrives.trans hlast, hstuck, hanswer⟩

theorem checkAfterEntryPoints_decided
    (hstuck : Stage.executionModes.StuckUnless afterEntryPoint categories)
    (hbound : categories.length ≤ bound) :
    Decided .executionModes bound categories (checkAfterEntryPoints bound categories) := by
  obtain ⟨afterAnnotations, reached, hannotations, harrives, hreached, hunless⟩ :=
    annotations_cases hstuck hbound
  have hlength := harrives.length_le
  obtain ⟨afterDeclarations, last, hdeclarations, hlast, hnext, hfunction⟩ :=
    declarations_cases hreached hunless (show afterAnnotations.length ≤ bound by omega)
  have hlengthLast := hlast.length_le
  refine .of_arrives (harrives.trans hlast) ?_
  unfold checkAfterEntryPoints
  simp only [hannotations, hdeclarations, Match.leftOr]
  rcases functions_cases hnext hfunction (show afterDeclarations.length ≤ bound by omega) with
    ⟨rest, final, hfunctions, hrest, hfinal, hplace⟩ |
      ⟨place, inside, hfunctions, hrest, hinside, hplace⟩
  · obtain ⟨hisFinal, hnotInside⟩ := final_of_next?_function hfinal
    refine ⟨final, rest, hrest, hplace, ?_⟩
    simp only [hfunctions, Stage.verdict, hisFinal, Bool.and_true]
    cases rest with
    | nil => rfl
    | cons category later =>
        cases final <;> simp_all [violationAt, misplacedAt, next?, insideFunction]
  · refine ⟨inside, place, hrest, hplace, ?_⟩
    have hnotFinal : inside.final = false := by
      cases inside <;> simp_all [insideFunction, Stage.final]
    simp only [hfunctions, Stage.verdict, hnotFinal, violationAt, hinside, Bool.and_false, if_true,
      Bool.false_eq_true, if_false]

/-- Where the preamble ends. -/
theorem preamble_cases (hbound : categories.length ≤ bound) :
    ∃ left, preamble bound categories = .matched left ∧
      Stage.preamble.Arrives categories .preamble left ∧
      ∀ category, left.head? = some category → beforeMemoryModel category = false := by
  refine many_single_of_loop (fun category haccepts => ?_) hbound
  cases category <;> simp_all [beforeMemoryModel, next?]

/-- Without a first entry point, the answer is that of the place behind the memory model or behind the
entry point that has no execution mode. -/
theorem noEntryPointAt_decided (h : NoEntryPoint categories) (length : Nat) :
    Decided .memoryModel length categories
      (.error (noEntryPointAt (length - categories.length) categories)) := by
  rcases h with hhead | ⟨later, rfl, hstuck⟩
  · refine ⟨.memoryModel, categories, .refl _ _, fun category hcategory => ?_, ?_⟩
    · have hother : category ≠ .entryPoint := fun h => hhead (h ▸ hcategory)
      cases category <;> simp_all [next?]
    · simp [noEntryPointAt, hhead, Stage.verdict, Stage.final, violationAt, insideFunction]
  · -- The entry point itself can stand here; what is behind it cannot.
    refine ⟨.entryPoint, later, .cons rfl (.refl _ _), hstuck, ?_⟩
    simp [noEntryPointAt, Stage.verdict, Stage.final, violationAt, insideFunction, Nat.sub_sub]

/-- Behind the execution modes there is either an entry point without an execution mode, or what comes
after all entry points. -/
theorem afterEntryPoints_decided (hmode : categories.head? ≠ some .executionMode)
    (hnone : NoEntryPoint categories) (hbound : categories.length ≤ bound) :
    Decided .executionModes bound categories
      (if categories.head? = some .entryPoint then
        .error (.noExecutionMode (bound - categories.length))
      else checkAfterEntryPoints bound categories) := by
  rcases hnone with hhead | ⟨later, rfl, hstuck⟩
  · rw [if_neg hhead]
    refine checkAfterEntryPoints_decided (fun category hcategory hother => ?_) hbound
    have hnotMode : category ≠ .executionMode := fun h => hmode (h ▸ hcategory)
    have hnotEntry : category ≠ .entryPoint := fun h => hhead (h ▸ hcategory)
    cases category <;>
      simp_all [afterEntryPoint, amongAnnotations, amongDeclarations, startsFunction, next?]
  · refine ⟨.entryPoint, later, .cons rfl (.refl _ _), hstuck, ?_⟩
    simp [Stage.verdict, Stage.final, violationAt, insideFunction, Nat.sub_sub]

/-- The matchers of the sections come to the place where the stages are stuck. -/
theorem checkSections_decided (hbound : categories.length ≤ bound) :
    Decided .preamble bound categories (checkSections bound categories) := by
  obtain ⟨afterPreamble, hpreamble, harrives, hhead⟩ := preamble_cases hbound
  have hlength := harrives.length_le
  refine .of_arrives harrives ?_
  unfold checkSections
  simp only [hpreamble, Match.leftOr]
  rcases one_cases .memoryModel afterPreamble with ⟨afterModel, rfl, hmodel⟩ | ⟨hother, hmodel⟩
  · rw [List.length_cons] at hlength
    refine .of_arrives (.cons rfl (.refl .memoryModel afterModel)) ?_
    simp only [hmodel]
    rcases entryPoints_cases (show afterModel.length ≤ bound by omega) with
      ⟨left, hentryPoints, hentries, hmode, hnone⟩ | ⟨⟨place, hentryPoints⟩, hnone⟩
    · have hleft := hentries.length_le
      simp only [hentryPoints]
      exact .of_arrives hentries (afterEntryPoints_decided hmode hnone (by omega))
    · simp only [hentryPoints]
      exact noEntryPointAt_decided hnone bound
  · refine ⟨.preamble, afterPreamble, .refl _ _, fun category hcategory => ?_, ?_⟩
    · have hnotBefore := hhead category hcategory
      have hnotModel : category ≠ .memoryModel := fun h => hother (h ▸ hcategory)
      cases category <;> simp_all [beforeMemoryModel, next?]
    · simp [hmodel, Stage.verdict, Stage.final, violationAt, insideFunction]

end Layout
end ShaderBinary
