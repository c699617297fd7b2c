import ShaderBinary.Module
import ShaderBinary.Proofs.Layout.Verdict
import ShaderBinary.Standard.Signatures

/-!
# Verifying and stripping

A module is verified if nothing is wrong with any of its instructions and its layout is accepted
(`verify_eq_ok_iff`). Stripping takes instructions away, so only the layout can suffer from it: every
place that allows debug instructions has to allow that there is none.

* `Stage.Strips` relates the stage a sequence is at to the stage it is at without its debug instructions.
  The two differ in one case: a debug instruction behind the execution modes makes the annotations begin,
  and without it they have not begun. What may follow there may also follow an execution mode.
* `Stage.Strips.next?` and `Stage.Strips.skip` take one instruction that stays and one that goes, and
  `Stage.Strips.run` follows a whole sequence.
* `IsStripped` says what it means that a module is another one without its debug instructions. Stripping
  makes the only such module, of any module; `verify_strip` adds that it makes a verified module of a
  verified one.
-/

namespace ShaderBinary

namespace Layout

namespace Stage

/-- Where a sequence of categories may be without its debug instructions, if it is at the first stage with
them. -/
inductive Strips : Stage → Stage → Prop
  | same (stage : Stage) : Strips stage stage
  | annotations : Strips annotations executionModes

variable {stage stripped next reached : Stage} {category : Category} {categories : List Category}

/-- A debug instruction leaves the stripped sequence where it is. -/
theorem Strips.skip (h : Strips stage stripped) (hnext : stage.next? .debug = some next) :
    Strips next stripped := by
  cases h with
  | same =>
      cases stage with
      | executionModes => cases hnext; exact .annotations
      -- Anywhere else a debug instruction leaves a sequence at its stage, or may not stand there.
      | preamble | annotations | declarations | block => cases hnext; exact .same _
      | memoryModel | entryPoint | parameters | afterBlock | functions => cases hnext
  | annotations =>
      cases hnext
      exact .annotations

/-- Any other instruction may also stand in the stripped sequence. -/
theorem Strips.next? (h : Strips stage stripped) (hnext : stage.next? category = some next)
    (hother : category ≠ .debug) :
    ∃ next', stripped.next? category = some next' ∧ Strips next next' := by
  cases h with
  | same => exact ⟨next, hnext, .same next⟩
  | annotations => cases category <;> cases hnext <;> exact ⟨_, rfl, .same _⟩

/-- A sequence that can be followed can be followed without its debug instructions. -/
theorem Strips.run (h : Strips stage stripped) (hrun : stage.run categories = some reached) :
    ∃ reached', stripped.run (categories.filter fun category => category ≠ .debug) = some reached' ∧
      Strips reached reached' := by
  induction categories generalizing stage stripped with
  | nil =>
      cases hrun
      exact ⟨stripped, rfl, h⟩
  | cons category later ih =>
      rw [run_cons, Option.bind_eq_some_iff] at hrun
      obtain ⟨next, hnext, hlater⟩ := hrun
      by_cases hdebug : category = .debug
      · subst hdebug
        exact ih (h.skip hnext) hlater
      · obtain ⟨next', hnext', hstrips⟩ := h.next? hnext hdebug
        obtain ⟨reached', hrun', hreached⟩ := ih hstrips hlater
        refine ⟨reached', ?_, hreached⟩
        rw [List.filter_cons, if_pos (decide_eq_true hdebug), run_cons, hnext']
        exact hrun'

theorem Strips.final (h : Strips stage stripped) (hfinal : stage.final = true) :
    stripped.final = true := by
  cases h with
  | same => exact hfinal
  | annotations => rfl

end Stage

theorem mem_layouts_filter {categories : List Category} (h : categories ∈ Grammar.layouts) :
    (categories.filter fun category => category ≠ .debug) ∈ Grammar.layouts := by
  obtain ⟨reached, hrun, hfinal⟩ := (Grammar.mem_layouts_iff categories).mp h
  obtain ⟨reached', hrun', hstrips⟩ := (Stage.Strips.same .preamble).run hrun
  exact (Grammar.mem_layouts_iff _).mpr ⟨reached', hrun', hstrips.final hfinal⟩

/-- A sequence with any other number of memory models is rejected. -/
theorem count_memoryModel_of_check {categories : List Category} (h : check categories = .ok ()) :
    categories.count .memoryModel = 1 := by
  rw [← length_memoryModelsFrom 0 categories]
  unfold check at h
  rcases hmodels : memoryModelsFrom 0 categories with _ | ⟨first, _ | ⟨second, others⟩⟩
  · simp [hmodels] at h
  · rfl
  · simp [hmodels] at h

/-- Among the sequences with one memory model, the check accepts the layouts. -/
theorem check_eq_ok_iff_of_count {categories : List Category}
    (hcount : categories.count .memoryModel = 1) :
    check categories = .ok () ↔ categories ∈ Grammar.layouts := by
  obtain ⟨reached, left, harrives, hstuck, hanswer⟩ :=
    checkSections_decided (Nat.le_refl categories.length)
  rw [check_eq_checkSections hcount, hanswer, Stage.verdict_eq_ok_iff,
    mem_layouts_iff_of_stuck harrives hstuck]

/-- The check accepts without its debug instructions what it accepts with them. -/
theorem check_filter {categories : List Category} (h : check categories = .ok ()) :
    check (categories.filter fun category => category ≠ .debug) = .ok () := by
  have hlayout := (check_eq_ok_iff_of_count (count_memoryModel_of_check h)).mp h
  have hstripped := mem_layouts_filter hlayout
  exact (check_eq_ok_iff_of_count (count_memoryModel_of_mem_layouts hstripped)).mpr hstripped

/-- The converse does not hold: no debug instruction may stand in front of the first block. -/
example :
    check [.memoryModel, .entryPoint, .executionMode, .function, .debug, .label, .terminator,
        .functionEnd] = .error (.brokenFunction 4 (some .debug)) ∧
      check [.memoryModel, .entryPoint, .executionMode, .function, .label, .terminator,
        .functionEnd] = .ok () := by
  decide

end Layout

namespace Module

/-- A module is verified if nothing is wrong with any of its instructions, nor with their order. -/
theorem verify_eq_ok_iff {module : Module} : module.verify = .ok () ↔
    (∀ instruction ∈ module.code, instruction.failure? = none) ∧
      Layout.check module.categories = .ok () := by
  unfold verify
  rw [← List.findSome?_eq_none_iff]
  cases module.code.findSome? Instruction.failure? with
  | some failure => simp
  | none => cases Layout.check module.categories <;> simp

/-- One module is another one without its debug instructions: nothing else is gone, and what is left is
in the same order. -/
structure IsStripped (stripped module : Module) : Prop where
  header : stripped.header = module.header
  order : stripped.code.Sublist module.code
  debug : ∀ instruction ∈ stripped.code, instruction.category ≠ .debug
  others : ∀ instruction, instruction.category ≠ .debug →
    stripped.code.count instruction = module.code.count instruction

theorem mem_strip_code {module : Module} {instruction : Instruction} :
    instruction ∈ module.strip.code ↔
      instruction ∈ module.code ∧ instruction.category ≠ .debug := by
  unfold strip
  rw [List.mem_filter, decide_eq_true_iff]

theorem isStripped_strip (module : Module) : module.strip.IsStripped module where
  header := rfl
  order := List.filter_sublist
  debug := fun _ hinstruction => (mem_strip_code.mp hinstruction).2
  others := fun _ hother => List.count_filter (decide_eq_true hother)

/-- There is no other such module. -/
theorem IsStripped.eq_strip {stripped module : Module} (h : stripped.IsStripped module) :
    stripped = module.strip := by
  have hstrip := module.isStripped_strip
  have hkept : stripped.strip.code = stripped.code :=
    List.filter_eq_self.mpr fun instruction hinstruction =>
      decide_eq_true (h.debug instruction hinstruction)
  have hsublist : stripped.code.Sublist module.strip.code := by
    rw [← hkept]
    exact h.order.filter _
  -- Both have the same instructions, so that one cannot be a proper part of the other.
  have hperm : stripped.code.Perm module.strip.code := by
    refine List.perm_iff_count.mpr fun instruction => ?_
    by_cases hdebug : instruction.category = .debug
    · rw [List.count_eq_zero_of_not_mem fun hmem => h.debug instruction hmem hdebug,
        List.count_eq_zero_of_not_mem fun hmem => hstrip.debug instruction hmem hdebug]
    · rw [h.others instruction hdebug, hstrip.others instruction hdebug]
  cases stripped
  obtain rfl := h.header
  exact congrArg (Module.mk _) (hsublist.eq_of_length hperm.length_eq)

theorem categories_strip (module : Module) :
    module.strip.categories = module.categories.filter fun category => category ≠ .debug := by
  unfold categories strip
  rw [List.filter_map]
  rfl

/-- Stripping takes the debug instructions out of a module, and nothing else; stripping again changes
nothing. A module that is verified still is when it is stripped, because a layout that is accepted is
accepted without its debug instructions. -/
theorem verify_strip (module : Module) :
    (∀ stripped : Module, stripped.IsStripped module ↔ stripped = module.strip) ∧
      module.strip.strip = module.strip ∧
      (module.verify = .ok () → module.strip.verify = .ok ()) ∧
      ∀ categories, Layout.check categories = .ok () →
        Layout.check (categories.filter fun category => category ≠ .debug) = .ok () := by
  refine ⟨fun stripped => ⟨IsStripped.eq_strip, ?_⟩, ?_, ?_, fun _ => Layout.check_filter⟩
  · rintro rfl
    exact module.isStripped_strip
  · unfold strip
    rw [List.filter_filter]
    simp only [Bool.and_self]
  · intro hverify
    obtain ⟨hinstructions, hlayout⟩ := verify_eq_ok_iff.mp hverify
    refine verify_eq_ok_iff.mpr ⟨fun instruction hinstruction => ?_, ?_⟩
    · exact hinstructions instruction (mem_strip_code.mp hinstruction).1
    · rw [categories_strip]
      exact Layout.check_filter hlayout

/-- A module with a debug instruction in each of the four places that allow them. -/
def ofDebug : Module :=
  let noLine : Instruction := ⟨⟨"OpNoLine", 317, .debug, [], []⟩, ()⟩
  ⟨.ofOrder .little,
    [noLine,
      ⟨⟨"OpMemoryModel", 14, .memoryModel, [⟨"addressing_model", .selector Standard.addressingModel⟩,
        ⟨"memory_model", .selector Standard.memoryModel⟩], []⟩, ⟨0⟩, ⟨1⟩, ()⟩,
      ⟨⟨"OpEntryPoint", 15, .entryPoint, [⟨"execution_model", .selector Standard.executionModel⟩,
        ⟨"entry_point", .id⟩, ⟨"name", .text⟩, ⟨"interface", .list .id⟩], []⟩,
        ⟨0⟩, ⟨1⟩, "main", [], ()⟩,
      ⟨⟨"OpExecutionMode", 16, .executionMode, [⟨"entry_point", .id⟩,
        ⟨"mode", .selector Standard.executionMode⟩, ⟨"literals", .list .word⟩], []⟩, ⟨1⟩, ⟨0⟩, [], ()⟩,
      noLine,
      ⟨⟨"OpTypeVoid", 19, .declaration, [⟨"result", .id⟩], []⟩, ⟨2⟩, ()⟩,
      noLine,
      ⟨⟨"OpFunction", 54, .function, [⟨"result_type", .id⟩, ⟨"result", .id⟩,
        ⟨"control", .mask Standard.functionControl⟩, ⟨"function_type", .id⟩], []⟩,
        ⟨2⟩, ⟨1⟩, ⟨0⟩, ⟨3⟩, ()⟩,
      ⟨⟨"OpLabel", 248, .label, [⟨"result", .id⟩], []⟩, ⟨4⟩, ()⟩,
      noLine,
      ⟨⟨"OpReturn", 253, .terminator, [], []⟩, ()⟩,
      ⟨⟨"OpFunctionEnd", 56, .functionEnd, [], []⟩, ()⟩]⟩

/-- Four instructions are gone, and what is left is verified. -/
theorem verify_strip_ofDebug :
    ofDebug.verify = .ok () ∧ ofDebug.strip.verify = .ok () ∧
      ofDebug.code.length = ofDebug.strip.code.length + 4 := by
  have hverify : ofDebug.verify = .ok () := by decide +kernel
  obtain ⟨-, -, hstrip, -⟩ := verify_strip ofDebug
  exact ⟨hverify, hstrip hverify, by decide +kernel⟩

end Module

end ShaderBinary
