import ShaderBinary.Dump.Run
import ShaderBinary.Proofs.Module.Loading

/-!
# Loading in the dump tool

The dump tool loads a module in a loop of its own, so that it can say where loading failed. The loop takes
the same steps as `Loading.drain` (`loadAfter_eq`), and so the tool loads a module exactly if the library
does, and the same one (`load_eq_ok_iff_load`).

Where loading fails is read back from what is being loaded, after the failure. `Dialect.StopsAt` says which
frames were decoded before. Their number is the reported index, and the bytes they take lie between the
header and the reported position (`load_of_stopsAt`).
-/

namespace ShaderBinary

open Wire

/-- Items are decoded up to one that fails. These are the frames in front of it. -/
inductive Dialect.StopsAt (dialect : Dialect) (failure : Failure) : List Item → List (List Word) → Prop
  | here {item : Item} {later : List Item} (h : dialect.decodeItem item = .error failure) :
      StopsAt dialect failure (item :: later) []
  | later {words : List Word} {instruction : Instruction} {later : List Item}
      {frames : List (List Word)} (hdecode : dialect.decode words = .ok instruction)
      (h : StopsAt dialect failure later frames) :
      StopsAt dialect failure (.frame words :: later) (words :: frames)

/-- Decoding fails at some item. -/
theorem Dialect.exists_stopsAt {dialect : Dialect} {items : List Item} {failure : Failure}
    (h : dialect.decodeItems items = .error failure) :
    ∃ frames, dialect.StopsAt failure items frames := by
  induction items with
  | nil => cases h
  | cons item later ih =>
      rcases hitem : dialect.decodeItem item with problem | ⟨instruction, words⟩
      · rw [decodeItems_cons_of_error hitem] at h
        cases h
        exact ⟨[], .here hitem⟩
      · rw [decodeItems_cons_of_ok hitem] at h
        obtain ⟨rfl, hdecode⟩ := decodeItem_eq_ok_iff.mp hitem
        cases hlater : dialect.decodeItems later with
        | error problem =>
            rw [hlater] at h
            cases h
            obtain ⟨frames, hstops⟩ := ih hlater
            exact ⟨words :: frames, .later hdecode hstops⟩
        | ok code =>
            rw [hlater] at h
            cases h

/-- A module that is not loaded behind a supported header stops at an instruction. -/
theorem Module.exists_stopsAt_of_load {dialect : Dialect} {header : Header} {order : ByteOrder}
    {left : List UInt8} {failure : Failure} (hsupported : header.Supported order)
    (h : load dialect (.ofBytes (header.image order ++ left)) = .error failure) :
    ∃ frames, dialect.StopsAt failure (items order left) frames := by
  apply Dialect.exists_stopsAt
  rw [load_image_append hsupported rfl (delivers_ofBytes _)] at h
  cases hdecode : dialect.decodeItems (items order left) with
  | error found =>
      rw [hdecode] at h
      exact congrArg _ (Except.error.inj h)
  | ok code =>
      rw [hdecode] at h
      cases h

namespace Loading

variable {dialect : Dialect} {loading : Loading} {bytes : List UInt8}

/-- After a failure, the frames before it have been counted, and the position is behind them. -/
theorem drainAfter_of_stopsAt (h : loading.frames.input.Holds bytes) {failure : Failure}
    {frames : List (List Word)}
    (hstops : dialect.StopsAt failure (items loading.frames.input.order bytes) frames) {bound : Nat}
    (hbound : bytes.length < bound) (taken : List Instruction) :
    ∃ code stopped, drainAfter dialect bound taken loading = (code, some failure, stopped) ∧
      stopped.index = loading.index + frames.length ∧
      stopped.byteOffset = loading.frames.input.offset + 4 * (frames.map List.length).sum := by
  generalize horder : loading.frames.input.order = order at hstops
  induction bytes using items_induction order generalizing loading bound taken frames with
  | nil =>
      rw [items_nil] at hstops
      cases hstops
  | starts bytes item left hstarts ih =>
      obtain ⟨bound, rfl⟩ : ∃ more, bound = more + 1 := ⟨bound - 1, by omega⟩
      have hsize := hstarts.size_add
      have hpos := hstarts.size_pos
      subst horder
      obtain ⟨next, hread, hadvances, hoffset, hindex⟩ := frame?_of_starts dialect h hstarts
      rw [items_of_starts hstarts] at hstops
      cases hstops with
      | here hitem =>
          rw [hitem] at hread hindex
          simp only [drainAfter, instruction?, hread, Except.map]
          exact ⟨_, next, rfl, hindex, hoffset⟩
      | @later words instruction _ frames hdecode hlater =>
          have hitem := Dialect.decodeItem_eq_ok_iff.mpr ⟨rfl, hdecode⟩
          rw [hitem] at hread hindex
          simp only [drainAfter, instruction?, hread, Except.map, Option.map_some]
          obtain ⟨code, stopped, hdrain, hcount, hposition⟩ :=
            ih hadvances.holds (show left.length < bound by omega) (instruction :: taken)
              hadvances.order_eq hlater
          refine ⟨code, stopped, hdrain, ?_, ?_⟩
          · rw [hcount, hindex, List.length_cons]
            simp only [Except.isOk, Except.toBool, if_true]
            omega
          · have hadd := hadvances.offset_add
            rw [hposition, List.map_cons, List.sum_cons]
            simp only [Item.size] at hsize
            omega

theorem drain_of_stopsAt (h : loading.frames.input.Holds bytes) {failure : Failure}
    {frames : List (List Word)}
    (hstops : dialect.StopsAt failure (items loading.frames.input.order bytes) frames) :
    ∃ code stopped, loading.drain dialect = (code, some failure, stopped) ∧
      stopped.index = loading.index + frames.length ∧
      stopped.byteOffset = loading.frames.input.offset + 4 * (frames.map List.length).sum := by
  have hsize := size_of_delivers h.delivers
  exact drainAfter_of_stopsAt h hstops (by omega) []

end Loading

namespace Dump

variable {dialect : Dialect} {source : Source}

/-- What the tool makes of a run of instructions: where it failed is what is being loaded then. -/
def placed : List Instruction × Option Failure × Loading → Except Trouble (List Instruction)
  | (code, none, _) => .ok code
  | (_, some failure, stopped) =>
    .error (.badInstruction stopped.index stopped.byteOffset failure)

/-- Both loops take the same steps. -/
theorem loadAfter_eq (dialect : Dialect) (bound : Nat) (taken : List Instruction) (loading : Loading) :
    loadAfter dialect bound taken loading = placed (loading.drainAfter dialect bound taken) := by
  induction bound generalizing taken loading with
  | zero => rfl
  | succ bound ih =>
      rw [loadAfter, Loading.drainAfter]
      rcases loading.instruction? dialect with ⟨failure | _ | instruction, next⟩
      · rfl
      · rfl
      · exact ih (instruction :: taken) next

theorem load_of_read {header : Header} {next : Input}
    (h : Header.read (.ofSource source) = (.ok header, next)) :
    load dialect source =
      (placed (Loading.drain dialect ⟨.ofInput next, 0⟩)).map (Module.mk header) := by
  rw [load, Loading.header_ofSource, h]
  simp only [loadAfter_eq]
  rw [Loading.drain]
  rcases placed (Loading.drainAfter dialect _ [] ⟨.ofInput next, 0⟩) with trouble | code <;> rfl

theorem load_of_read_error {failure : Failure} {next : Input}
    (h : Header.read (.ofSource source) = (.error failure, next)) :
    load dialect source = .error (.badHeader failure) := by
  rw [load, Loading.header_ofSource, h]

/-- The tool loads what the library loads, from any source. -/
theorem load_eq_ok_iff_load {module : Module} :
    load dialect source = .ok module ↔ Module.load dialect source = .ok module := by
  rcases hread : Header.read (.ofSource source) with ⟨failure | header, next⟩
  · rw [load_of_read_error hread, Module.load_of_read_error hread]
    simp only [reduceCtorEq]
  · rw [load_of_read hread, Module.load_of_read hread]
    rcases Loading.drain dialect ⟨.ofInput next, 0⟩ with ⟨code, _ | failure, stopped⟩
    · simp only [placed, Loading.outcome, Except.map, Except.ok.injEq]
    · simp only [placed, Loading.outcome, Except.map, reduceCtorEq]

/-- Behind a supported header, the frames before the failure are counted, and the failure is placed behind
the header and them. -/
theorem load_of_stopsAt {header : Header} {order : ByteOrder} {bytes : List UInt8} {failure : Failure}
    {frames : List (List Word)} (hsupported : header.Supported order)
    (hending : source.ending = .exhausted)
    (hdelivers : Delivers source.arrivals (header.image order ++ bytes))
    (hstops : dialect.StopsAt failure (items order bytes) frames) :
    load dialect source = .error
      (.badInstruction frames.length (20 + 4 * (frames.map List.length).sum) failure) := by
  have hholds : Input.Holds (.ofSource source) (header.image order ++ bytes) := ⟨hending, hdelivers⟩
  obtain ⟨next, hread, hleft, rfl, hoffset⟩ := Header.read_of_supported hsupported hholds
  obtain ⟨code, stopped, hdrain, hindex, hposition⟩ := Loading.drain_of_stopsAt
    (show (Loading.mk (.ofInput next) 0).frames.input.Holds bytes from hleft) hstops
  have hcount : stopped.index = frames.length := hindex.trans (Nat.zero_add _)
  have hstart : stopped.byteOffset = 20 + 4 * (frames.map List.length).sum := by
    rw [hposition]
    exact congrArg (· + 4 * (frames.map List.length).sum) (hoffset.trans (Nat.zero_add 20))
  rw [load_of_read hread, hdrain, placed, hcount, hstart]
  rfl

end Dump

end ShaderBinary
