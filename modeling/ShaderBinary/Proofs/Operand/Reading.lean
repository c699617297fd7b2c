import ShaderBinary.Operand.Objection
import ShaderBinary.Operand.Words
import ShaderBinary.Proofs.Operand.Words

/-!
# Reading operands back

Reading is not always the inverse of writing, because an operand that is optional or a list is read
from whatever words remain. Two properties of a value say when it is:

* `Delimited`: the value is read back whatever follows its words (`read_words_append`);
* `Recoverable`: the value is read back if nothing follows them (`read_words`).

`Shape.closed` and `Shape.trailing` are the shapes all of whose values have these properties, as long
as no text holds a zero byte (`NulFree`), which is what verification makes sure of.

In the other direction nothing but padding can get lost: `words_of_read` says that the words a value was
read from are its own words once their padding is cleared.
-/

namespace ShaderBinary
namespace Operand

/-! ## From the value to its words and back -/

namespace Shape

/-- The value is read back whatever follows its words. -/
def Delimited : (shape : Shape) → shape.Value → Prop
  | .word, _ => True
  | .id, _ => True
  | .text, string => 0 ∉ Text.bytes string
  | .selector _, _ => True
  | .mask _, _ => True
  | .optional _, none => False
  | .optional inner, some value => inner.Delimited value ∧ inner.words value ≠ []
  | .list _, _ => False
  | .pair first second, (a, b) => first.Delimited a ∧ second.Delimited b

/-- The value is read back if nothing follows its words. -/
def Recoverable : (shape : Shape) → shape.Value → Prop
  | .word, _ => True
  | .id, _ => True
  | .text, string => 0 ∉ Text.bytes string
  | .selector _, _ => True
  | .mask _, _ => True
  | .optional _, none => True
  | .optional inner, some value => inner.Recoverable value ∧ inner.words value ≠ []
  | .list element, values =>
    ∀ value ∈ values, element.Delimited value ∧ element.words value ≠ []
  | .pair first second, (a, b) =>
    (first.Delimited a ∨ first.Recoverable a ∧ second.words b = []) ∧ second.Recoverable b

end Shape

theorem readText_pack {string : String} (h : 0 ∉ Text.bytes string) (rest : List Word) :
    readText (Text.pack (Text.bytes string) ++ rest) = (.ok string, rest) := by
  have hunpack := Text.unpack_pack h rest
  cases hwords : Text.pack (Text.bytes string) ++ rest with
  | nil =>
      rw [hwords] at hunpack
      cases hunpack
  | cons w later =>
      rw [hwords] at hunpack
      simp only [readText, hunpack, Text.ofBytes?_bytes]

/-- Elements that are read back whatever follows them are read back as a list. -/
theorem readList_flatMap {α : Type} {read : List Word → Reading α} {words : α → List Word}
    {values : List α} (hread : ∀ value ∈ values, ∀ rest,
      read (words value ++ rest) = (.ok value, rest))
    (hwords : ∀ value ∈ values, words value ≠ []) {bound : Nat}
    (hbound : (values.flatMap words).length ≤ bound) (taken : List α) :
    readList read bound taken (values.flatMap words) = (.ok (taken.reverse ++ values), []) := by
  induction values generalizing bound taken with
  | nil => cases bound <;> simp [readList]
  | cons value later ih =>
      obtain ⟨w, others, hvalue⟩ :=
        List.exists_cons_of_ne_nil (hwords value List.mem_cons_self)
      rw [List.flatMap_cons, List.length_append] at hbound
      have hfirst := hread value List.mem_cons_self (later.flatMap words)
      -- An element takes at least one word, so the bound never ends the list.
      cases bound with
      | zero => simp [hvalue] at hbound
      | succ bound =>
          rw [hvalue, List.length_cons] at hbound
          have hlater := ih (fun other hother => hread other (List.mem_cons_of_mem _ hother))
            (fun other hother => hwords other (List.mem_cons_of_mem _ hother))
            (show (later.flatMap words).length ≤ bound by omega) (value :: taken)
          rw [List.flatMap_cons]
          rw [hvalue, List.cons_append] at hfirst ⊢
          rw [readList, hfirst]
          simp only
          rw [hlater, List.reverse_cons, List.append_assoc, List.singleton_append]

namespace Shape

variable {shape : Shape} {value : shape.Value}

theorem read_words_append (h : shape.Delimited value) (rest : List Word) :
    shape.read (shape.words value ++ rest) = (.ok value, rest) := by
  induction shape generalizing rest with
  | word | id | selector | mask => rfl
  | text => exact readText_pack h rest
  | optional inner ih =>
      cases value with
      | none => exact h.elim
      | some value =>
          obtain ⟨hdelimited, hwords⟩ := h
          obtain ⟨w, later, hvalue⟩ := List.exists_cons_of_ne_nil hwords
          have hread := ih hdelimited rest
          rw [Shape.words]
          rw [hvalue, List.cons_append] at hread ⊢
          rw [Shape.read, hread]
          rfl
  | list element ih => exact h.elim
  | pair first second ihFirst ihSecond =>
      rw [Shape.words, List.append_assoc, Shape.read, ihFirst h.1]
      simp only
      rw [ihSecond h.2]
      rfl

theorem read_words (h : shape.Recoverable value) :
    shape.read (shape.words value) = (.ok value, []) := by
  induction shape with
  | word | id | selector | mask => rfl
  | text =>
      have hread := readText_pack h []
      rwa [List.append_nil] at hread
  | optional inner ih =>
      cases value with
      | none => rfl
      | some value =>
          obtain ⟨hrecoverable, hwords⟩ := h
          obtain ⟨w, later, hvalue⟩ := List.exists_cons_of_ne_nil hwords
          have hread := ih hrecoverable
          rw [Shape.words]
          rw [hvalue] at hread ⊢
          rw [Shape.read, hread]
          rfl
  | list element ih =>
      exact readList_flatMap (fun value hvalue => read_words_append (h value hvalue).1)
        (fun value hvalue => (h value hvalue).2) (Nat.le_refl _) []
  | pair first second ihFirst ihSecond =>
      obtain ⟨hfirst, hsecond⟩ := h
      have hread : first.read (first.words value.1 ++ second.words value.2) =
          (.ok value.1, second.words value.2) := by
        rcases hfirst with hdelimited | ⟨hrecoverable, hnothing⟩
        · exact read_words_append hdelimited _
        · rw [hnothing, List.append_nil]
          exact ihFirst hrecoverable
      rw [Shape.words, Shape.read, hread]
      simp only
      rw [ihSecond hsecond]
      rfl

theorem recoverable_of_delimited (h : shape.Delimited value) : shape.Recoverable value := by
  induction shape with
  | word | id | selector | mask => trivial
  | text => exact h
  | optional inner ih =>
      cases value with
      | none => trivial
      | some value => exact ⟨ih h.1, h.2⟩
  | list element ih => exact h.elim
  | pair first second ihFirst ihSecond => exact ⟨.inl h.1, ihSecond h.2⟩

/-! ## Shapes that are always read back -/

/-- No text in the value holds a zero byte. -/
def NulFree : (shape : Shape) → shape.Value → Prop
  | .text, string => 0 ∉ Text.bytes string
  | .optional inner, some value => inner.NulFree value
  | .list element, values => ∀ value ∈ values, element.NulFree value
  | .pair first second, (a, b) => first.NulFree a ∧ second.NulFree b
  | _, _ => True

/-- The words of a value tell where they end. -/
def closed : Shape → Bool
  | .optional _ => false
  | .list _ => false
  | .pair first second => first.closed && second.closed
  | _ => true

/-- Only the end of the words may be left to what follows. -/
def trailing : Shape → Bool
  | .optional inner => inner.closed
  | .list element => element.closed
  | .pair first second => first.closed && second.trailing
  | _ => true

theorem delimited_of_closed (hclosed : shape.closed = true) (h : shape.NulFree value) :
    shape.Delimited value ∧ shape.words value ≠ [] := by
  induction shape with
  | word | id | selector | mask => exact ⟨trivial, List.cons_ne_nil _ _⟩
  | text => exact ⟨h, Text.pack_ne_nil _⟩
  | optional inner ih => cases hclosed
  | list element ih => cases hclosed
  | pair first second ihFirst ihSecond =>
      rw [closed, Bool.and_eq_true] at hclosed
      obtain ⟨hfirst, hwords⟩ := ihFirst hclosed.1 h.1
      obtain ⟨hsecond, -⟩ := ihSecond hclosed.2 h.2
      exact ⟨⟨hfirst, hsecond⟩, fun hnil => hwords (List.append_eq_nil_iff.mp hnil).1⟩

theorem recoverable_of_trailing (htrailing : shape.trailing = true) (h : shape.NulFree value) :
    shape.Recoverable value := by
  induction shape with
  | word | id | selector | mask => trivial
  | text => exact h
  | optional inner ih =>
      cases value with
      | none => trivial
      | some value =>
          obtain ⟨hdelimited, hwords⟩ := delimited_of_closed htrailing h
          exact ⟨recoverable_of_delimited hdelimited, hwords⟩
  | list element ih => exact fun value hvalue => delimited_of_closed htrailing (h value hvalue)
  | pair first second ihFirst ihSecond =>
      rw [trailing, Bool.and_eq_true] at htrailing
      exact ⟨.inl (delimited_of_closed htrailing.1 h.1).1, ihSecond htrailing.2 h.2⟩

theorem objection?_eq_none_of_mem {α : Type} {objection? : α → Option Objection}
    {index : Nat} {values : List α} (h : listObjection? objection? index values = none) :
    ∀ value ∈ values, objection? value = none := by
  induction values generalizing index with
  | nil => simp
  | cons value later ih =>
      unfold listObjection? at h
      cases hvalue : objection? value with
      | some objection => rw [hvalue] at h; cases h
      | none =>
          rw [hvalue] at h
          intro other hother
          rcases List.mem_cons.mp hother with rfl | hlater
          · exact hvalue
          · exact ih h other hlater

/-- What is not objected to holds no zero byte in a text. -/
theorem nulFree_of_objection?_eq_none (h : shape.objection? value = none) :
    shape.NulFree value := by
  induction shape with
  | word | id | selector | mask => trivial
  | text =>
      rw [objection?, Option.map_eq_none_iff, List.findIdx?_eq_none_iff] at h
      exact fun hzero => by simpa using h 0 hzero
  | optional inner ih =>
      cases value with
      | none => trivial
      | some value => exact ih h
  | list element ih =>
      exact fun value hvalue => ih (objection?_eq_none_of_mem h value hvalue)
  | pair first second ihFirst ihSecond =>
      unfold objection? at h
      cases hfirst : first.objection? value.1 with
      | some objection => simp only [hfirst] at h; cases h
      | none =>
          simp only [hfirst] at h
          exact ⟨ihFirst hfirst, ihSecond h⟩

/-! ## From words to the value and back -/

end Shape

theorem readWord_eq_ok {words rest : List Word} {w : Word} (h : readWord words = (.ok w, rest)) :
    words = w :: rest := by
  cases words with
  | nil => cases h
  | cons first later => cases h; rfl

theorem Reading.map_eq_ok {α β : Type} {f : α → β} {reading : Reading α} {result : β}
    {rest : List Word} (h : Reading.map f reading = (.ok result, rest)) :
    ∃ value, reading = (.ok value, rest) ∧ f value = result := by
  obtain ⟨outcome, remaining⟩ := reading
  cases outcome with
  | error lack => cases h
  | ok value => cases h; exact ⟨value, rfl, rfl⟩

/-- A text that is read was unpacked from the words. -/
theorem unpack_of_readText {words rest : List Word} {string : String}
    (h : readText words = (.ok string, rest)) :
    Text.unpack words = some (Text.bytes string, rest) := by
  cases words with
  | nil => cases h
  | cons w later =>
      simp only [readText] at h
      split at h
      · cases h
      · next bytes left hunpack =>
        split at h
        · cases h
        · next text htext =>
          cases h
          rw [Text.bytes_of_ofBytes? htext]
          exact hunpack

/-- Elements whose words are known up to padding are a list whose words are known up to padding. -/
theorem words_of_readList {α : Type} {read : List Word → Reading α} {words : α → List Word}
    {padding : α → List Nat} (hread : ∀ given value rest, read given = (.ok value, rest) →
      ∃ consumed, given = consumed ++ rest ∧ ClearsTo (padding value) consumed (words value))
    {bound : Nat} {taken values : List α} {given rest : List Word}
    (h : readList read bound taken given = (.ok values, rest)) :
    ∃ later consumed, values = taken.reverse ++ later ∧ given = consumed ++ rest ∧
      ClearsTo (later.flatMap padding) consumed (later.flatMap words) := by
  induction bound generalizing taken given with
  | zero => cases h; exact ⟨[], [], by simp, rfl, .nil⟩
  | succ bound ih =>
      cases given with
      | nil => cases h; exact ⟨[], [], by simp, rfl, .nil⟩
      | cons w given =>
          unfold readList at h
          rcases hfirst : read (w :: given) with ⟨lack | value, remaining⟩
          · rw [hfirst] at h; cases h
          · rw [hfirst] at h
            obtain ⟨first, hgiven, hclears⟩ := hread _ _ _ hfirst
            obtain ⟨later, consumed, rfl, rfl, hlater⟩ := ih h
            refine ⟨value :: later, first ++ consumed, by simp, ?_, hclears.append hlater⟩
            rw [hgiven, List.append_assoc]

/-- The words that a value was read from are its own words once their padding is cleared. -/
theorem Shape.words_of_read {shape : Shape} {given rest : List Word} {value : shape.Value}
    (h : shape.read given = (.ok value, rest)) :
    ∃ consumed, given = consumed ++ rest ∧
      ClearsTo (shape.padding value) consumed (shape.words value) := by
  induction shape generalizing given rest with
  | word => exact ⟨[value], readWord_eq_ok h, .single value⟩
  | id | selector | mask =>
      obtain ⟨w, hread, rfl⟩ := Reading.map_eq_ok h
      exact ⟨[w], readWord_eq_ok hread, .single w⟩
  | text => exact (Text.pack_of_unpack (unpack_of_readText h)).2
  | optional inner ih =>
      cases given with
      | nil => cases h; exact ⟨[], rfl, .nil⟩
      | cons w later =>
          obtain ⟨found, hread, rfl⟩ := Reading.map_eq_ok h
          exact ih hread
  | list element ih =>
      obtain ⟨values, consumed, hvalues, hgiven, hclears⟩ :=
        words_of_readList (fun _ _ _ hread => ih hread) h
      rw [List.reverse_nil, List.nil_append] at hvalues
      exact ⟨consumed, hgiven, hvalues ▸ hclears⟩
  | pair first second ihFirst ihSecond =>
      unfold Shape.read at h
      rcases hfirst : first.read given with ⟨lack | a, remaining⟩
      · rw [hfirst] at h; cases h
      · rw [hfirst] at h
        obtain ⟨b, hsecond, rfl⟩ := Reading.map_eq_ok h
        obtain ⟨consumed, rfl, hclears⟩ := ihFirst hfirst
        obtain ⟨more, rfl, hmore⟩ := ihSecond hsecond
        exact ⟨consumed ++ more, (List.append_assoc _ _ _).symm, hclears.append hmore⟩

end Operand
end ShaderBinary
