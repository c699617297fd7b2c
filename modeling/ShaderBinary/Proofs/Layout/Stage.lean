import ShaderBinary.Layout.Category

/-!
# The stages of a module

Read from its first instruction on, a module is always at one stage, and the category of the next
instruction decides which stage follows. There is one stage for every place in the layout grammar
that allows different continuations.

* `next?` is the table of stages, `run` follows a whole sequence, and `final` says where a module may
  end.
* `Arrives` follows a part of a sequence and names the rest; `Stuck` says that the rest cannot be
  followed. No front that goes beyond that place can be followed (`run_take_eq_none_of_stuck`), so that
  there is no other such place.
* `count_memoryModel_of_run` reads off a stage how many memory models stand before it.

A debug instruction between the execution modes and the first declaration counts as an annotation,
which is the earlier of its two readings and the one after which more can follow.
-/

namespace ShaderBinary
namespace Layout

/-- How far a module has come. -/
inductive Stage
  /-- Before the memory model. -/
  | preamble
  /-- Right after the memory model. -/
  | memoryModel
  /-- Right after an entry point. -/
  | entryPoint
  /-- After an execution mode. -/
  | executionModes
  /-- Among debug instructions and annotations. -/
  | annotations
  /-- After the first declaration. -/
  | declarations
  /-- After the start of a function, before its first block. -/
  | parameters
  /-- Inside a block. -/
  | block
  /-- After a block of a function. -/
  | afterBlock
  /-- After a function. -/
  | functions
deriving DecidableEq

namespace Stage

/-- The stage that an instruction of the given category leads to, if one may stand here. -/
def next? : Stage → Category → Option Stage
  | preamble, .preamble => some preamble
  | preamble, .debug => some preamble
  | preamble, .memoryModel => some memoryModel
  | memoryModel, .entryPoint => some entryPoint
  | entryPoint, .executionMode => some executionModes
  | executionModes, .executionMode => some executionModes
  | executionModes, .entryPoint => some entryPoint
  | executionModes, .debug => some annotations
  | executionModes, .decoration => some annotations
  | executionModes, .declaration => some declarations
  | executionModes, .function => some parameters
  | annotations, .debug => some annotations
  | annotations, .decoration => some annotations
  | annotations, .declaration => some declarations
  | annotations, .function => some parameters
  | declarations, .declaration => some declarations
  | declarations, .debug => some declarations
  | declarations, .function => some parameters
  | parameters, .functionParameter => some parameters
  | parameters, .label => some block
  | block, .terminator => some afterBlock
  | block, category => if category.insideBlock then some block else none
  | afterBlock, .label => some block
  | afterBlock, .functionEnd => some functions
  | functions, .function => some parameters
  | _, _ => none

/-- Whether a module may end at this stage. -/
def final : Stage → Bool
  | executionModes | annotations | declarations | functions => true
  | _ => false

/-- Whether this stage is part of a function definition. -/
def insideFunction : Stage → Bool
  | parameters | block | afterBlock => true
  | _ => false

/-- The stage reached after a whole sequence, if every category of it may stand where it does. -/
def run : Stage → List Category → Option Stage
  | stage, [] => some stage
  | stage, category :: later => (stage.next? category).bind fun next => run next later

@[simp] theorem run_nil (stage : Stage) : stage.run [] = some stage := rfl

theorem run_cons (stage : Stage) (category : Category) (later : List Category) :
    stage.run (category :: later) =
      (stage.next? category).bind fun next => next.run later := rfl

theorem run_append (stage : Stage) (earlier later : List Category) :
    stage.run (earlier ++ later) = (stage.run earlier).bind fun next => next.run later := by
  induction earlier generalizing stage with
  | nil => rfl
  | cons category earlier ih =>
      rw [List.cons_append, run_cons, run_cons, Option.bind_assoc]
      exact Option.bind_congr fun next _ => ih next

/-- A front of `categories` can be followed from one stage to another, and `left` is the rest. -/
def Arrives (stage : Stage) (categories : List Category) (reached : Stage)
    (left : List Category) : Prop :=
  ∃ taken, categories = taken ++ left ∧ stage.run taken = some reached

/-- The first category of what is left cannot stand at a stage, or nothing is left. -/
def Stuck (stage : Stage) (left : List Category) : Prop :=
  ∀ category, left.head? = some category → stage.next? category = none

theorem Arrives.refl (stage : Stage) (categories : List Category) :
    stage.Arrives categories stage categories :=
  ⟨[], rfl, rfl⟩

theorem Arrives.cons {stage next reached : Stage} {category : Category}
    {later left : List Category} (hnext : stage.next? category = some next)
    (h : next.Arrives later reached left) :
    stage.Arrives (category :: later) reached left := by
  obtain ⟨taken, rfl, hrun⟩ := h
  exact ⟨category :: taken, rfl, by rw [run_cons, hnext]; exact hrun⟩

theorem Arrives.trans {stage middle reached : Stage} {categories between left : List Category}
    (first : stage.Arrives categories middle between)
    (last : middle.Arrives between reached left) :
    stage.Arrives categories reached left := by
  obtain ⟨taken, rfl, hrun⟩ := first
  obtain ⟨more, rfl, hmore⟩ := last
  refine ⟨taken ++ more, by rw [List.append_assoc], ?_⟩
  rw [run_append, hrun]
  exact hmore

/-- One more category. -/
theorem Arrives.snoc {stage middle reached : Stage} {category : Category}
    {categories left : List Category} (first : stage.Arrives categories middle (category :: left))
    (hnext : middle.next? category = some reached) :
    stage.Arrives categories reached left :=
  first.trans ((Arrives.refl reached left).cons hnext)

/-- What can be followed to the end is what `run` follows. -/
theorem arrives_nil_iff {stage reached : Stage} {categories : List Category} :
    stage.Arrives categories reached [] ↔ stage.run categories = some reached := by
  constructor
  · rintro ⟨taken, rfl, hrun⟩
    rwa [List.append_nil]
  · intro hrun
    exact ⟨categories, (List.append_nil _).symm, hrun⟩

theorem Arrives.length_le {stage reached : Stage} {categories left : List Category}
    (h : stage.Arrives categories reached left) : left.length ≤ categories.length := by
  obtain ⟨taken, rfl, -⟩ := h
  rw [List.length_append]
  omega

/-- What was followed is the front whose length the rest lacks. -/
theorem Arrives.run_take {stage reached : Stage} {categories left : List Category}
    (h : stage.Arrives categories reached left) :
    stage.run (categories.take (categories.length - left.length)) = some reached := by
  obtain ⟨taken, rfl, hrun⟩ := h
  rwa [List.length_append, Nat.add_sub_cancel, List.take_left]

theorem Arrives.drop_eq {stage reached : Stage} {categories left : List Category}
    (h : stage.Arrives categories reached left) :
    categories.drop (categories.length - left.length) = left := by
  obtain ⟨taken, rfl, -⟩ := h
  rw [List.length_append, Nat.add_sub_cancel, List.drop_left]

/-- Nothing beyond the place where a sequence is stuck can be followed. -/
theorem run_take_eq_none_of_stuck {stage reached : Stage} {categories left : List Category}
    (h : stage.Arrives categories reached left) (hstuck : reached.Stuck left) {n : Nat}
    (hbeyond : categories.length - left.length < n) (hn : n ≤ categories.length) :
    stage.run (categories.take n) = none := by
  obtain ⟨taken, rfl, hrun⟩ := h
  rw [List.length_append] at hbeyond hn
  cases left with
  | nil => simp only [List.length_nil] at hbeyond hn; omega
  | cons category later =>
      -- A longer front takes the category at which the sequence is stuck.
      obtain ⟨more, rfl⟩ : ∃ more, n = taken.length + (more + 1) :=
        ⟨n - taken.length - 1, by omega⟩
      rw [List.take_length_add_append, List.take_succ_cons, run_append, hrun]
      change reached.run (category :: later.take more) = none
      rw [run_cons, hstuck category rfl]
      rfl

/-! ## What a stage says about the sequence before it -/

/-- How many memory models stand before a stage. -/
def memoryModels : Stage → Nat
  | preamble => 0
  | _ => 1

theorem memoryModels_of_next? {stage next : Stage} {category : Category}
    (h : stage.next? category = some next) :
    next.memoryModels = stage.memoryModels + if category = .memoryModel then 1 else 0 := by
  cases stage <;> cases category <;> simp_all [next?, Category.insideBlock] <;> subst h <;> rfl

/-- A sequence that can be followed has as many memory models as its stages say. -/
theorem count_memoryModel_of_run {stage reached : Stage} {categories : List Category}
    (h : stage.run categories = some reached) :
    categories.count .memoryModel + stage.memoryModels = reached.memoryModels := by
  induction categories generalizing stage with
  | nil => cases h; simp
  | cons category later ih =>
      rw [run_cons, Option.bind_eq_some_iff] at h
      obtain ⟨next, hnext, hrun⟩ := h
      have hstep := memoryModels_of_next? hnext
      have hlater := ih hrun
      rw [List.count_cons]
      simp only [beq_iff_eq]
      omega

end Stage

end Layout
end ShaderBinary
