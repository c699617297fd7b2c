import Mathlib.Computability.Language
import ShaderBinary.Proofs.Layout.Stage

/-!
# The layout grammar

`Grammar.layouts` is the language of module layouts, written as a regular expression over the
categories. `residual` gives every stage the language of what may still follow it; `mem_residual_iff`
says that the stages follow exactly those sequences, and `mem_layouts_iff` is the case of a whole
module.
-/

namespace ShaderBinary
namespace Layout
namespace Grammar

open Computability

/-- The language of one sequence, which is one category long. -/
def only (category : Category) : Language Category := {[category]}

/-- One or more sequences of a language after one another. -/
def plus (language : Language Category) : Language Category := language * language∗

/-- A block of a function. -/
def blocks : Language Category :=
  only .label * (only .body + only .declaration + only .debug)∗ * only .terminator

/-- A function definition. -/
def functions : Language Category :=
  only .function * (only .functionParameter)∗ * plus blocks * only .functionEnd

/-- The layout of a module. -/
def layouts : Language Category :=
  (only .preamble + only .debug)∗ * only .memoryModel *
    plus (only .entryPoint * plus (only .executionMode)) *
    (only .debug + only .decoration)∗ * (only .declaration + only .debug)∗ * functions∗

/-! ## Sequences of these languages, category by category -/

section Membership

variable {category first : Category} {later : List Category} {language rest : Language Category}

theorem cons_mem_only_mul :
    first :: later ∈ only category * rest ↔ first = category ∧ later ∈ rest := by
  constructor
  · rintro ⟨_, rfl, word, hword, heq⟩
    obtain ⟨rfl, rfl⟩ := List.cons.inj heq
    exact ⟨rfl, hword⟩
  · rintro ⟨rfl, hlater⟩
    exact ⟨[first], rfl, later, hlater, rfl⟩

theorem nil_notMem_only_mul : [] ∉ only category * rest := by
  rintro ⟨_, rfl, word, -, heq⟩
  cases heq

/-- A repetition starts with a round or is over. -/
theorem cons_mem_kstar_mul :
    first :: later ∈ language∗ * rest ↔
      first :: later ∈ language * (language∗ * rest) ∨ first :: later ∈ rest := by
  have hunfold : language∗ * rest = language * (language∗ * rest) + rest := by
    calc language∗ * rest
      _ = (1 + language * language∗) * rest := by
          rw [Language.one_add_self_mul_kstar_eq_kstar]
      _ = language * (language∗ * rest) + rest := by rw [add_mul, one_mul, mul_assoc, add_comm]
  exact iff_of_eq (congrArg (first :: later ∈ ·) hunfold)

/-- A repetition may be left out. -/
theorem mem_kstar_mul_of_mem {word : List Category} (h : word ∈ rest) : word ∈ language∗ * rest :=
  ⟨[], Language.nil_mem_kstar _, word, h, rfl⟩

theorem nil_mem_kstar_mul : [] ∈ language∗ * rest ↔ [] ∈ rest := by
  constructor
  · rintro ⟨front, -, word, hword, heq⟩
    obtain ⟨-, rfl⟩ := List.append_eq_nil_iff.mp heq
    exact hword
  · exact mem_kstar_mul_of_mem

end Membership

/-! ## What may follow a stage -/

/-- What may follow the execution modes of the last entry point. -/
def afterEntryPoints : Language Category :=
  (only .debug + only .decoration)∗ * ((only .declaration + only .debug)∗ * functions∗)

/-- What may follow an execution mode. -/
def afterExecutionMode : Language Category :=
  (only .executionMode)∗ *
    ((only .entryPoint * plus (only .executionMode))∗ * afterEntryPoints)

/-- What may follow a block. -/
def afterBlocks : Language Category :=
  blocks∗ * (only .functionEnd * functions∗)

/-- What may follow a category of the body of a block. -/
def afterBody : Language Category :=
  (only .body + only .declaration + only .debug)∗ * (only .terminator * afterBlocks)

/-- What may follow a stage up to the end of the module. -/
def residual : Stage → Language Category
  | .preamble =>
    (only .preamble + only .debug)∗ *
      (only .memoryModel * (only .entryPoint * (only .executionMode * afterExecutionMode)))
  | .memoryModel => only .entryPoint * (only .executionMode * afterExecutionMode)
  | .entryPoint => only .executionMode * afterExecutionMode
  | .executionModes => afterExecutionMode
  | .annotations => afterEntryPoints
  | .declarations => (only .declaration + only .debug)∗ * functions∗
  | .parameters => (only .functionParameter)∗ * (only .label * afterBody)
  | .block => afterBody
  | .afterBlock => afterBlocks
  | .functions => functions∗

theorem layouts_eq_residual : layouts = residual .preamble := by
  simp only [layouts, residual, plus, afterExecutionMode, afterEntryPoints, mul_assoc]

theorem nil_mem_residual (stage : Stage) : [] ∈ residual stage ↔ stage.final = true := by
  have hfunctions : [] ∈ functions∗ := Language.nil_mem_kstar _
  cases stage <;>
    simp [residual, afterExecutionMode, afterEntryPoints, afterBlocks, afterBody, Stage.final,
      nil_mem_kstar_mul, nil_notMem_only_mul, hfunctions]

section Continuations

variable (category : Category) (later : List Category)

theorem cons_mem_functions : category :: later ∈ functions∗ ↔
    category = .function ∧ later ∈ residual .parameters := by
  have hround : functions * functions∗ = only .function * residual .parameters := by
    simp only [functions, plus, blocks, residual, afterBody, afterBlocks, mul_assoc]
  rw [← mul_one functions∗, cons_mem_kstar_mul, mul_one, hround, cons_mem_only_mul]
  simp only [Language.mem_one, reduceCtorEq, or_false]

theorem cons_mem_declarations : category :: later ∈ residual .declarations ↔
    (category = .declaration ∨ category = .debug) ∧ later ∈ residual .declarations ∨
      category = .function ∧ later ∈ residual .parameters := by
  rw [residual, cons_mem_kstar_mul, cons_mem_functions]
  simp only [add_mul, Language.mem_add, cons_mem_only_mul, ← or_and_right]

/-- A debug instruction after the entry points may always be counted as an annotation. -/
theorem cons_mem_afterEntryPoints : category :: later ∈ afterEntryPoints ↔
    (category = .debug ∨ category = .decoration) ∧ later ∈ afterEntryPoints ∨
      category = .declaration ∧ later ∈ residual .declarations ∨
        category = .function ∧ later ∈ residual .parameters := by
  -- What may follow a declaration may also follow an annotation, which decides the debug instructions.
  have hearlier (h : later ∈ residual .declarations) : later ∈ afterEntryPoints :=
    mem_kstar_mul_of_mem h
  have hunfold : category :: later ∈ afterEntryPoints ↔
      (category = .debug ∨ category = .decoration) ∧ later ∈ afterEntryPoints ∨
        category :: later ∈ residual .declarations := by
    rw [afterEntryPoints, cons_mem_kstar_mul]
    simp only [add_mul, Language.mem_add, cons_mem_only_mul, ← or_and_right, residual]
  rw [hunfold, cons_mem_declarations]
  tauto

theorem cons_mem_afterExecutionMode : category :: later ∈ afterExecutionMode ↔
    category = .executionMode ∧ later ∈ afterExecutionMode ∨
      category = .entryPoint ∧ later ∈ residual .entryPoint ∨
        category :: later ∈ afterEntryPoints := by
  rw [afterExecutionMode, cons_mem_kstar_mul, cons_mem_kstar_mul]
  simp only [plus, mul_assoc, cons_mem_only_mul, residual, afterExecutionMode]

theorem cons_mem_afterBody : category :: later ∈ afterBody ↔
    (category = .body ∨ category = .declaration ∨ category = .debug) ∧ later ∈ afterBody ∨
      category = .terminator ∧ later ∈ afterBlocks := by
  rw [afterBody, cons_mem_kstar_mul]
  simp only [add_mul, Language.mem_add, cons_mem_only_mul, ← or_and_right, or_assoc]

theorem cons_mem_afterBlocks : category :: later ∈ afterBlocks ↔
    category = .label ∧ later ∈ afterBody ∨
      category = .functionEnd ∧ later ∈ functions∗ := by
  rw [afterBlocks, cons_mem_kstar_mul]
  simp only [blocks, mul_assoc, cons_mem_only_mul, afterBody, afterBlocks]

theorem cons_mem_parameters : category :: later ∈ residual .parameters ↔
    category = .functionParameter ∧ later ∈ residual .parameters ∨
      category = .label ∧ later ∈ afterBody := by
  rw [residual, cons_mem_kstar_mul]
  simp only [cons_mem_only_mul]

theorem cons_mem_preamble : category :: later ∈ residual .preamble ↔
    (category = .preamble ∨ category = .debug) ∧ later ∈ residual .preamble ∨
      category = .memoryModel ∧ later ∈ residual .memoryModel := by
  rw [residual, cons_mem_kstar_mul]
  simp only [add_mul, Language.mem_add, cons_mem_only_mul, ← or_and_right, residual]

/-- A category may stand at a stage if the table of stages says so, and then the sequence goes on from
the stage that it leads to. -/
theorem cons_mem_residual (stage : Stage) : category :: later ∈ residual stage ↔
    ∃ next, stage.next? category = some next ∧ later ∈ residual next := by
  cases stage with
  | preamble => rw [cons_mem_preamble]; cases category <;> simp [Stage.next?]
  | memoryModel =>
      rw [residual, cons_mem_only_mul]; cases category <;> simp [Stage.next?, residual]
  | entryPoint =>
      rw [residual, cons_mem_only_mul]; cases category <;> simp [Stage.next?, residual]
  | executionModes =>
      rw [residual, cons_mem_afterExecutionMode, cons_mem_afterEntryPoints]
      cases category <;> simp [Stage.next?, residual]
  | annotations =>
      rw [residual, cons_mem_afterEntryPoints]
      cases category <;> simp [Stage.next?, residual]
  | declarations => rw [cons_mem_declarations]; cases category <;> simp [Stage.next?]
  | parameters =>
      rw [cons_mem_parameters]; cases category <;> simp [Stage.next?, residual]
  | block =>
      rw [residual, cons_mem_afterBody]
      cases category <;> simp [Stage.next?, residual, Category.insideBlock]
  | afterBlock =>
      rw [residual, cons_mem_afterBlocks]; cases category <;> simp [Stage.next?, residual]
  | functions =>
      rw [residual, cons_mem_functions]; cases category <;> simp [Stage.next?]

end Continuations

/-- The stages follow exactly the sequences of their language. -/
theorem mem_residual_iff (stage : Stage) (categories : List Category) :
    categories ∈ residual stage ↔
      ∃ reached, stage.run categories = some reached ∧ reached.final = true := by
  induction categories generalizing stage with
  | nil => simp [nil_mem_residual]
  | cons category later ih =>
      rw [cons_mem_residual]
      simp only [Stage.run_cons, Option.bind_eq_some_iff]
      constructor
      · rintro ⟨next, hnext, hlater⟩
        obtain ⟨reached, hrun, hfinal⟩ := (ih next).mp hlater
        exact ⟨reached, ⟨next, hnext, hrun⟩, hfinal⟩
      · rintro ⟨reached, ⟨next, hnext, hrun⟩, hfinal⟩
        exact ⟨next, hnext, (ih next).mpr ⟨reached, hrun, hfinal⟩⟩

/-- The stages follow exactly the layouts of modules to one of their ends. -/
theorem mem_layouts_iff (categories : List Category) : categories ∈ layouts ↔
    ∃ reached, Stage.preamble.run categories = some reached ∧ reached.final = true := by
  rw [layouts_eq_residual, mem_residual_iff]

end Grammar
end Layout
end ShaderBinary
