import Mathlib.Algebra.GroupWithZero.Nat
import ShaderBinary.Proofs.Module.Loading
import ShaderBinary.Proofs.Standard

/-!
# Decoding one instruction after another

A loading can be asked for the next frame any number of times, also after a failure. The answers are those
of the dialect to one item after another of the bytes behind the header, and no answer depends on the items
before its own. Whatever is answered, the whole item is passed over, so that the reported position is the
sum of the sizes of the items before (`Loading.frame?_after_header`).
-/

namespace ShaderBinary

open Wire

/-- Whether an item is an instruction of the dialect. -/
def Dialect.decodes (dialect : Dialect) (item : Item) : Bool :=
  (dialect.decodeItem item).isOk

/-- The answer to a call for the next frame, if there is an item to be passed over. -/
def Dialect.answer (dialect : Dialect) :
    Option Item → Except Failure (Option (Instruction × List Word))
  | none => .ok none
  | some item => (dialect.decodeItem item).map some

namespace Loading

/-- The loading after so many calls for the next frame, whatever was answered. -/
def after (dialect : Dialect) : (calls : Nat) → Loading → Loading
  | 0, loading => loading
  | calls + 1, loading => after dialect calls (loading.frame? dialect).2

/-- These are the items that are still to be passed over. -/
def Faces (loading : Loading) (cut : List Item) : Prop :=
  ∃ bytes, loading.frames.input.Holds bytes ∧ items loading.frames.input.order bytes = cut

variable {loading : Loading} {cut : List Item}

/-- One call passes over one item. -/
theorem frame?_of_faces (dialect : Dialect) (h : loading.Faces cut) :
    ∃ next, loading.frame? dialect = (dialect.answer cut.head?, next) ∧ next.Faces cut.tail ∧
      next.byteOffset = loading.frames.input.offset ∧
      next.frames.input.offset =
        loading.frames.input.offset + ((cut.take 1).map Item.size).sum ∧
      next.index = loading.index + (cut.take 1).countP dialect.decodes := by
  obtain ⟨bytes, hholds, rfl⟩ := h
  by_cases hne : bytes = []
  · subst hne
    obtain ⟨next, hread, hadvances, hoffset, hindex⟩ := frame?_of_nil dialect hholds
    rw [items_nil]
    refine ⟨next, hread, ⟨[], hadvances.holds, items_nil _⟩, hoffset, ?_, hindex⟩
    exact hadvances.offset_add
  · have hstarts := Item.starts_first loading.frames.input.order hne
    obtain ⟨next, hread, hadvances, hoffset, hindex⟩ := frame?_of_starts dialect hholds hstarts
    have hsize := hstarts.size_add
    have hadd := hadvances.offset_add
    rw [items_of_starts hstarts]
    refine ⟨next, hread, ⟨_, hadvances.holds, by rw [hadvances.order_eq]; rfl⟩, hoffset, ?_, ?_⟩
    · simp only [List.take_succ_cons, List.take_zero, List.map_cons, List.map_nil, List.sum_cons,
        List.sum_nil]
      omega
    · rw [hindex, List.take_succ_cons, List.take_zero, List.countP_singleton]
      rfl

/-- After any number of calls, the next one passes over the next item. -/
theorem frame?_after_of_faces (dialect : Dialect) (h : loading.Faces cut) (i : Nat) :
    ∃ next, (loading.after dialect i).frame? dialect = (dialect.answer cut[i]?, next) ∧
      next.byteOffset = loading.frames.input.offset + ((cut.take i).map Item.size).sum ∧
      next.frames.input.offset =
        loading.frames.input.offset + ((cut.take (i + 1)).map Item.size).sum ∧
      next.index = loading.index + (cut.take (i + 1)).countP dialect.decodes := by
  induction i generalizing loading cut with
  | zero =>
      obtain ⟨next, hread, -, hstart, hoffset, hindex⟩ := frame?_of_faces dialect h
      rw [← List.head?_eq_getElem?]
      exact ⟨next, hread, hstart, hoffset, hindex⟩
  | succ i ih =>
      obtain ⟨first, hread, hfaces, -, hoffset, hindex⟩ := frame?_of_faces dialect h
      obtain ⟨next, hnext, hstart, hlast, hcount⟩ := ih hfaces
      rw [after, hread]
      refine ⟨next, ?_⟩
      rw [hnext, hstart, hlast, hcount, hoffset, hindex]
      cases cut with
      | nil => simp
      | cons item later =>
          simp only [List.tail_cons, List.getElem?_cons_succ, List.take_succ_cons, List.take_zero,
            List.map_cons, List.map_nil, List.sum_cons, List.sum_nil, List.countP_cons,
            List.countP_nil]
          exact ⟨trivial, by omega, by omega, by omega⟩

/-- Behind a supported header, call after call answers what the dialect makes of item after item, and
that nothing is left behind the last one. After a call the reported position is where its item starts, the
index is the number of instructions so far, and the item has been passed over as a whole. -/
theorem frame?_after_header {header : Header} {order : ByteOrder} {source : Source}
    {bytes : List UInt8} (hsupported : header.Supported order)
    (hending : source.ending = .exhausted)
    (hdelivers : Delivers source.arrivals (header.image order ++ bytes)) (dialect : Dialect) :
    ∃ started, (ofSource source).header = (.ok header, started) ∧
      ∀ i, ∃ next, (started.after dialect i).frame? dialect =
          (dialect.answer (items order bytes)[i]?, next) ∧
        next.byteOffset = 20 + (((items order bytes).take i).map Item.size).sum ∧
        next.frames.input.offset = 20 + (((items order bytes).take (i + 1)).map Item.size).sum ∧
        next.index = ((items order bytes).take (i + 1)).countP dialect.decodes := by
  have hholds : Input.Holds (.ofSource source) (header.image order ++ bytes) := ⟨hending, hdelivers⟩
  obtain ⟨input, hread, hleft, rfl, hoffset⟩ := Header.read_of_supported hsupported hholds
  refine ⟨⟨.ofInput input, 0⟩, ?_, fun i => ?_⟩
  · rw [header_ofSource, hread]
  · have hfaces : Faces ⟨.ofInput input, 0⟩ (items input.order bytes) := ⟨bytes, hleft, rfl⟩
    obtain ⟨next, hframe, hstart, hlast, hindex⟩ := frame?_after_of_faces dialect hfaces i
    have htwenty : input.offset = 20 := by
      rw [hoffset]
      rfl
    refine ⟨next, hframe, ?_, ?_, ?_⟩
    · rw [hstart, ← htwenty]
      rfl
    · rw [hlast, ← htwenty]
      rfl
    · rw [hindex, Nat.zero_add]

/-- An instruction, one that is not known, a word that announces nothing, an instruction that is shorter
than those before, and the first nine bytes of one that takes sixteen. -/
def mixedBytes : List UInt8 :=
  ByteOrder.little.bytesOf
    [0x00020011, 1, 0x000103E7, 0x00000011, 0x000100FD, 0x00040011, 1] ++ [2]

/-- The fourth call answers with the fourth item, whatever the others were, and after the fifth one
nothing is left. -/
theorem frame?_after_header_mixed :
    ∃ started, (ofSource (.ofBytes ((Header.ofOrder .little).image .little ++ mixedBytes))).header =
        (.ok (.ofOrder .little), started) ∧
      (∃ next, (started.after Standard.dialect 3).frame? Standard.dialect =
          (.ok (some (⟨⟨"OpReturn", 253, .terminator, [], []⟩, ()⟩, [0x000100FD])), next) ∧
        next.byteOffset = 36 ∧ next.index = 2) ∧
      (∃ next, (started.after Standard.dialect 4).frame? Standard.dialect =
          (.error .truncated, next) ∧ next.byteOffset = 40 ∧ next.frames.input.offset = 49) ∧
      ∃ next, (started.after Standard.dialect 5).frame? Standard.dialect = (.ok none, next) ∧
        next.byteOffset = 49 ∧ next.index = 2 := by
  obtain ⟨started, hheader, hcalls⟩ := frame?_after_header
    (show (Header.ofOrder .little).Supported .little from ⟨rfl, rfl⟩) rfl (delivers_ofBytes _)
    Standard.dialect
  refine ⟨started, hheader, ?_, ?_, ?_⟩
  · obtain ⟨next, hframe, hstart, -, hindex⟩ := hcalls 3
    exact ⟨next, hframe.trans (congrArg (·, next) (by decide +kernel)), hstart.trans (by decide +kernel),
      hindex.trans (by decide +kernel)⟩
  · obtain ⟨next, hframe, hstart, hlast, -⟩ := hcalls 4
    exact ⟨next, hframe.trans (congrArg (·, next) (by decide +kernel)), hstart.trans (by decide +kernel),
      hlast.trans (by decide +kernel)⟩
  · obtain ⟨next, hframe, hstart, -, hindex⟩ := hcalls 5
    exact ⟨next, hframe.trans (congrArg (·, next) (by decide +kernel)), hstart.trans (by decide +kernel),
      hindex.trans (by decide +kernel)⟩

end Loading
end ShaderBinary
