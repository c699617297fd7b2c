import ShaderBinary.Proofs.Dump.Loading
import ShaderBinary.Proofs.Dump.Options
import ShaderBinary.Proofs.Module.RoundTrip
import ShaderBinary.Proofs.Module.Delivery

/-!
# The dump tool and the library agree

What the dump tool does with a file that can be read follows from what the library makes of its bytes
(`Dump.agrees_with_library`). It reports the failure of the library, together with the place, or shows the
module that the library loads.

A module that was loaded is `Storable`, and so is what is left of it without its debug instructions. Such a
module can be shown and written without a failure (`exists_tables`, `Storable.exists_toBytes`), so that
verification is all that stops the tool once a module is loaded.
-/

namespace ShaderBinary

open Wire

theorem exists_mapM_eq_ok {α β ε : Type} {f : α → Except ε β} {xs : List α}
    (h : ∀ x ∈ xs, ∃ y, f x = .ok y) : ∃ ys, xs.mapM f = .ok ys := by
  induction xs with
  | nil => exact ⟨[], rfl⟩
  | cons x later ih =>
      obtain ⟨y, hfirst⟩ := h x List.mem_cons_self
      obtain ⟨ys, hlater⟩ := ih fun other hother => h other (List.mem_cons_of_mem _ hother)
      refine ⟨y :: ys, ?_⟩
      rw [List.mapM_cons, hfirst]
      show (later.mapM f >>= fun ys => pure (y :: ys)) = _
      rw [hlater]
      rfl

namespace Module

/-- The header is supported, and the instructions are known and fit into a frame. -/
structure Storable (dialect : Dialect) (module : Module) : Prop where
  supported : ∃ order, module.header.Supported order
  known : ∀ instruction ∈ module.code, dialect.Knows instruction.signature ∧
    instruction.wordCount ≤ Frame.maxWords

variable {dialect : Dialect} {module : Module}

theorem MadeOf.storable {order : ByteOrder} {frames : List (List Word)} {bytes : List UInt8}
    (hdialect : dialect.OfSignatures) (h : module.MadeOf dialect order frames bytes) :
    module.Storable dialect where
  supported := ⟨order, h.supported⟩
  known := (clearsTo_of_decoded hdialect h.announced h.decoded).1

theorem Storable.strip (h : module.Storable dialect) : module.strip.Storable dialect where
  supported := h.supported
  known := fun instruction hinstruction => h.known instruction (List.mem_filter.mp hinstruction).1

theorem Storable.exists_toBytes (h : module.Storable dialect) :
    ∃ saved, module.toBytes dialect = .ok saved := by
  obtain ⟨order, hsupported⟩ := h.supported
  exact ⟨_, (toBytes_eq_ok_iff (fun instruction hi => (h.known instruction hi).1) _).mpr
    ⟨order, hsupported, fun instruction hi => (h.known instruction hi).2, rfl⟩⟩

end Module

namespace Dump

/-! ## Tables -/

theorem exists_wordsCell {instruction : Instruction}
    (hknows : Standard.dialect.Knows instruction.signature)
    (hmax : instruction.wordCount ≤ Frame.maxWords) :
    ∃ cell, wordsCell instruction = .ok cell := by
  obtain ⟨buffer, hencode, -⟩ := Dialect.encode_eq_ok hknows
    (Vector.replicate instruction.wordCount 0) (Nat.le_refl _) hmax
  rw [wordsCell, hencode]
  exact ⟨_, rfl⟩

theorem exists_instructionRow {instruction : Instruction}
    (hknows : Standard.dialect.Knows instruction.signature)
    (hmax : instruction.wordCount ≤ Frame.maxWords) (showWords : Bool) (index : Nat) :
    ∃ row, instructionRow showWords index instruction = .ok row := by
  obtain ⟨cell, hcell⟩ := exists_wordsCell hknows hmax
  unfold instructionRow
  rw [hcell]
  cases showWords
  · exact ⟨_, rfl⟩
  · exact ⟨_, rfl⟩

/-- A module that can be stored can be shown. -/
theorem exists_tables {module : Module} (h : module.Storable Standard.dialect) (options : Options) :
    ∃ shown, tables options module = .ok shown ∧ shown ≠ "" := by
  obtain ⟨order, hsupported⟩ := h.supported
  have hrows : ∀ numbered ∈ module.code.zipIdx,
      ∃ row, instructionRow options.words numbered.2 numbered.1 = .ok row := by
    intro numbered hnumbered
    obtain ⟨hknows, hmax⟩ := h.known numbered.1 (List.fst_mem_of_mem_zipIdx hnumbered)
    exact exists_instructionRow hknows hmax options.words numbered.2
  obtain ⟨rows, hrows⟩ := exists_mapM_eq_ok hrows
  have hinstructions : ∃ table, instructionTable module options.words = .ok table := by
    unfold instructionTable
    rw [hrows]
    exact ⟨_, rfl⟩
  obtain ⟨instructions, hinstructions⟩ := hinstructions
  have hheader : ∃ table, headerTable module = .ok table := by
    unfold headerTable
    rw [hsupported.order_eq]
    exact ⟨_, rfl⟩
  obtain ⟨header, hheader⟩ := hheader
  refine ⟨header.render ++ "\n" ++ instructions.render ++ "\n", ?_, ?_⟩
  · rw [tables, hheader, hinstructions]
  · intro hempty
    have := congrArg String.toList hempty
    simp at this

/-! ## Runs -/

section Run

variable {source : Source} {options : Options} {module : Module}

theorem run_of_load_error {trouble : Trouble} (h : load Standard.dialect source = .error trouble) :
    run options (.ok source) = ⟨1, "", trouble.report, none⟩ := by
  simp only [run, prepare, h]

theorem run_of_unverified {failure : Failure} (h : load Standard.dialect source = .ok module)
    (hasked : options.verify = true) (hfailure : module.verify = .error failure) :
    run options (.ok source) = ⟨1, "", (Trouble.unverified options.input failure).report, none⟩ := by
  simp only [run, prepare, h, hasked, if_true, hfailure]

/-- What is shown and written of a module. -/
def shownModule (options : Options) (module : Module) : Module :=
  if options.strip then module.strip else module

theorem run_of_load (h : load Standard.dialect source = .ok module)
    (hverified : options.verify = false ∨ module.verify = .ok ())
    (hstorable : module.Storable Standard.dialect) :
    ∃ shown saved, tables options (shownModule options module) = .ok shown ∧ shown ≠ "" ∧
      (shownModule options module).toBytes Standard.dialect = .ok saved ∧
      run options (.ok source) = ⟨0, shown, "", options.output?.map (·, saved)⟩ := by
  have hprepare : prepare options (.ok source) = .ok (shownModule options module) := by
    have hverify : (if options.verify then module.verify else .ok ()) = .ok () := by
      rcases hverified with hasked | hok
      · simp [hasked]
      · simp [hok]
    simp only [prepare, h, hverify, shownModule]
  have hshown : (shownModule options module).Storable Standard.dialect := by
    unfold shownModule
    split
    · exact hstorable.strip
    · exact hstorable
  obtain ⟨shown, htables, hsomething⟩ := exists_tables hshown options
  obtain ⟨saved, hsaved⟩ := hshown.exists_toBytes
  refine ⟨shown, saved, htables, hsomething, hsaved, ?_⟩
  simp only [run, hprepare, htables]
  cases options.output? with
  | none => rfl
  | some path => simp only [hsaved, Option.map_some]

end Run

/-! ## Agreement -/

/-- No report on an instruction looks like one on the header. -/
theorem context_badInstruction_ne (index offset : Nat) (failure : Failure) :
    (Trouble.badInstruction index offset failure).context ≠ "cannot decode the module header" := by
  intro h
  have hfront : (Trouble.badInstruction index offset failure).context =
      "cannot decode instruction " ++
        (toString index ++ (" at byte offset " ++ Text.hex offset)) := by
    simp only [← String.append_assoc]
    rfl
  -- The texts differ in the letter behind "cannot decode ".
  have hletter := congrArg (fun text => text.toList[14]?) (hfront.symm.trans h)
  simp only [String.toList_append] at hletter
  rw [List.getElem?_append_left (by decide +kernel)] at hletter
  revert hletter
  decide +kernel

/-- The dump tool agrees with the library about every file, however its bytes are delivered.

* It loads the module that the library loads, if there is one.
* Otherwise it stops with the failure of the library before anything is shown. The report is about the header
  exactly if it is the header that fails. Else it names the number of instructions before the one that fails,
  and the position behind them.
* A module that is loaded but not valid is not shown unless the arguments ask not to verify, and the report
  gives the failure of verification. In all other cases the module is shown, and written if asked. -/
theorem agrees_with_library {arguments : List String} {options : Options} {source : Source}
    {bytes : List UInt8} (hoptions : Options.ofArguments arguments = .ok options)
    (hending : source.ending = .exhausted) (hdelivers : Delivers source.arrivals bytes) :
    (∀ module, load Standard.dialect source = .ok module ↔
        Module.load Standard.dialect (.ofBytes bytes) = .ok module) ∧
      (∀ failure, Module.load Standard.dialect (.ofBytes bytes) = .error failure →
        ∃ trouble, load Standard.dialect source = .error trouble ∧
          run options (.ok source) = ⟨1, "", trouble.report, none⟩ ∧
          trouble.causes = failure.causes ∧
          (trouble.context = "cannot decode the module header" ↔
            (Header.read (.ofSource (.ofBytes bytes))).1 = .error failure) ∧
          (trouble = .badHeader failure ∨
            ∃ (header : Header) (order : ByteOrder) (left : List UInt8) (frames : List (List Word))
              (offset : Nat), header.Supported order ∧ bytes = header.image order ++ left ∧
              Standard.dialect.StopsAt failure (items order left) frames ∧
              offset = 20 + 4 * (frames.map List.length).sum ∧
              trouble = .badInstruction frames.length offset failure ∧
              trouble.context =
                s!"cannot decode instruction {frames.length} at byte offset {Text.hex offset}")) ∧
      ∀ module, Module.load Standard.dialect (.ofBytes bytes) = .ok module →
        (∀ failure, "--no-verify" ∉ arguments.takeWhile (· ≠ "--") → module.verify = .error failure →
          ∃ trouble : Trouble, run options (.ok source) = ⟨1, "", trouble.report, none⟩ ∧
            trouble.causes = failure.causes ∧
            trouble.context = s!"{options.input} failed verification") ∧
        ("--no-verify" ∈ arguments.takeWhile (· ≠ "--") ∨ module.verify = .ok () →
          ∃ shown saved, tables options (shownModule options module) = .ok shown ∧ shown ≠ "" ∧
            (shownModule options module).toBytes Standard.dialect = .ok saved ∧
            run options (.ok source) = ⟨0, shown, "", options.output?.map (·, saved)⟩) := by
  have hnoVerify := Options.verify_eq_false_iff hoptions
  have hload (module : Module) : load Standard.dialect source = .ok module ↔
        Module.load Standard.dialect (.ofBytes bytes) = .ok module := by
    rw [load_eq_ok_iff_load, Module.load_eq_load_ofBytes hending hdelivers]
  have hholds : Input.Holds (.ofSource source) bytes := ⟨hending, hdelivers⟩
  have hplain : Input.Holds (.ofSource (.ofBytes bytes)) bytes := ⟨rfl, delivers_ofBytes bytes⟩
  refine ⟨hload, fun failure hfailure => ?_, fun module hmodule => ⟨?_, ?_⟩⟩
  · rcases Header.fails_or_eq_image bytes with ⟨found, hfails⟩ | ⟨header, order, left, hsupported, rfl⟩
    · obtain ⟨next, hread⟩ := Header.read_of_fails hholds hfails
      obtain ⟨last, hreadBytes⟩ := Header.read_of_fails hplain hfails
      rw [Module.load_of_read_error hreadBytes] at hfailure
      obtain rfl := Except.error.inj hfailure
      have htool : load Standard.dialect source = .error (.badHeader found) :=
        load_of_read_error hread
      refine ⟨_, htool, run_of_load_error htool, rfl, ⟨fun _ => ?_, fun _ => rfl⟩, .inl rfl⟩
      rw [hreadBytes]
    · obtain ⟨last, hreadBytes, -⟩ := Header.read_of_supported hsupported hplain
      obtain ⟨frames, hstops⟩ := Module.exists_stopsAt_of_load hsupported hfailure
      have htool := load_of_stopsAt hsupported hending hdelivers hstops
      refine ⟨_, htool, run_of_load_error htool, rfl, ⟨fun hcontext => ?_, fun hheader => ?_⟩, .inr ?_⟩
      · exact absurd hcontext (context_badInstruction_ne _ _ _)
      · rw [hreadBytes] at hheader
        cases hheader
      · exact ⟨header, order, left, frames, _, hsupported, rfl, hstops, rfl, rfl, rfl⟩
  · intro failure hasked hverify
    have hverifies : options.verify = true := by
      rw [← hnoVerify] at hasked
      exact Bool.eq_true_of_not_eq_false hasked
    exact ⟨_, run_of_unverified ((hload module).mpr hmodule) hverifies hverify, rfl, rfl⟩
  · intro hverified
    obtain ⟨order, frames, hmade⟩ := (Module.load_ofBytes_eq_ok_iff bytes module).mp hmodule
    refine run_of_load ((hload module).mpr hmodule) (hverified.imp_left hnoVerify.mpr) ?_
    exact hmade.storable Standard.dialect_ofSignatures

/-- A header, a whole instruction, and the first word of one that takes four words. -/
def cutOff : Source :=
  ⟨[.interruption, .piece ((Header.ofOrder .little).image .little ++
    ByteOrder.little.bytesOf [0x00020011, 1, 0x00040015])], .exhausted⟩

theorem delivers_cutOff : Delivers cutOff.arrivals cutOff.bytes :=
  .interruption (.piece (by decide +kernel) .done)

/-- The second instruction is cut off, and the empty module is not valid. -/
theorem agrees_with_library_cutOff :
    run ⟨"--", false, true, true, none⟩ (.ok cutOff) =
        ⟨1, "", "Error: cannot decode instruction 1 at byte offset 0x1c\n\n" ++
          "Caused by:\n    unexpected end of input\n", none⟩ ∧
      (run ⟨"a", true, true, false, some "b"⟩ (.ok Module.splitHeader)).printed = "" ∧
      ∃ shown, shown ≠ "" ∧ run ⟨"a", true, false, false, some "b"⟩ (.ok Module.splitHeader) =
        ⟨0, shown, "", some ("b", Module.splitHeader.bytes)⟩ := by
  have hload : Module.load Standard.dialect (.ofBytes Module.splitHeader.bytes) = .ok .empty := by
    decide +kernel
  refine ⟨?_, ?_, ?_⟩
  · obtain ⟨-, hfails, -⟩ := agrees_with_library
      (show Options.ofArguments ["-w", "--", "--"] = .ok ⟨"--", false, true, true, none⟩ by
        decide +kernel) rfl delivers_cutOff
    obtain ⟨trouble, hload, hrun, -⟩ := hfails .truncated (by decide +kernel)
    have htrouble : load Standard.dialect cutOff =
        .error (.badInstruction 1 28 .truncated) := by decide +kernel
    obtain rfl := Except.error.inj (hload.symm.trans htrouble)
    exact hrun.trans (by decide +kernel)
  · obtain ⟨-, -, hverifies⟩ := agrees_with_library
      (show Options.ofArguments ["a", "--strip", "-ob"] = .ok ⟨"a", true, true, false, some "b"⟩ by
        decide +kernel) rfl
      Module.delivers_splitHeader
    obtain ⟨trouble, hrun, -⟩ := (hverifies .empty hload).1 (.layout (.noMemoryModel 0))
      (by decide +kernel) (by decide +kernel)
    rw [hrun]
  · obtain ⟨-, -, hverifies⟩ := agrees_with_library
      (show Options.ofArguments ["a", "-s", "--no-verify", "-o", "b"] =
        .ok ⟨"a", true, false, false, some "b"⟩ by decide +kernel) rfl
      Module.delivers_splitHeader
    obtain ⟨shown, saved, -, hshown, hsaved, hrun⟩ :=
      (hverifies .empty hload).2 (.inl (by decide +kernel))
    have hbytes : (shownModule ⟨"a", true, false, false, some "b"⟩ .empty).toBytes Standard.dialect =
        .ok Module.splitHeader.bytes := by decide +kernel
    obtain rfl := Except.ok.inj (hsaved.symm.trans hbytes)
    exact ⟨shown, hshown, hrun⟩

end Dump
end ShaderBinary
