import ShaderBinary.Proofs.Operand.Reading

/-!
# Reading operands a second time

A value that was read need not have been written by anyone: its words may hold any padding, and what is
optional or a list takes whatever remains. Reading it once more from its own words nevertheless gives the
same value (`Shape.read_words_of_read`), for every shape however deeply nested. This does not follow from
`Shape.Recoverable`, which asks the elements of a list to tell where they end: the last element of a list
that was read may itself be a list.

* `Shape.words_ne_nil_of_read`: a read that starts with words left takes at least one of them.
* `Shape.nulFree_of_read`: no text that was read holds a zero byte.

`Shape.write_of_read` puts reading, counting, writing and reading again together.
-/

namespace ShaderBinary
namespace Operand

/-! ## What was read -/

theorem nulFree_of_readText {words rest : List Word} {string : String}
    (h : readText words = (.ok string, rest)) : 0 ∉ Text.bytes string :=
  (Text.pack_of_unpack (unpack_of_readText h)).1

/-- What holds of every element that is read holds of all elements of a list. -/
theorem forall_of_readList {α : Type} {read : List Word → Reading α} {property : α → Prop}
    (hread : ∀ {given value rest}, read given = (.ok value, rest) → property value)
    {bound : Nat} {taken values : List α} {given rest : List Word}
    (htaken : ∀ value ∈ taken, property value)
    (h : readList read bound taken given = (.ok values, rest)) :
    ∀ value ∈ values, property value := by
  induction bound generalizing taken given with
  | zero =>
      cases h
      intro value hvalue
      exact htaken value (List.mem_reverse.mp hvalue)
  | succ bound ih =>
      cases given with
      | nil =>
          cases h
          intro value hvalue
          exact htaken value (List.mem_reverse.mp hvalue)
      | cons w given =>
          unfold readList at h
          rcases hfirst : read (w :: given) with ⟨lack | first, remaining⟩
          · rw [hfirst] at h; cases h
          · rw [hfirst] at h
            refine ih ?_ h
            intro value hvalue
            rcases List.mem_cons.mp hvalue with rfl | hlater
            · exact hread hfirst
            · exact htaken value hlater

namespace Shape

variable {shape : Shape} {value : shape.Value} {given rest others : List Word}

/-- No text that was read holds a zero byte. -/
theorem nulFree_of_read (h : shape.read given = (.ok value, rest)) : shape.NulFree value := by
  induction shape generalizing given rest with
  | word | id | selector | mask => trivial
  | text => exact nulFree_of_readText h
  | optional inner ih =>
      cases given with
      | nil => cases h; trivial
      | cons w later =>
          obtain ⟨found, hread, rfl⟩ := Reading.map_eq_ok h
          exact ih hread
  | list element ih =>
      exact forall_of_readList (fun hread => ih hread) (by simp) h
  | pair first second ihFirst ihSecond =>
      unfold Shape.read at h
      rcases hfirst : first.read given with ⟨lack | a, remaining⟩
      · rw [hfirst] at h; cases h
      · rw [hfirst] at h
        obtain ⟨b, hsecond, rfl⟩ := Reading.map_eq_ok h
        exact ⟨ihFirst hfirst, ihSecond hsecond⟩

/-- As many words are taken as the value is written as. -/
theorem length_of_read (h : shape.read given = (.ok value, rest)) :
    given.length = (shape.words value).length + rest.length := by
  obtain ⟨consumed, rfl, hclears⟩ := words_of_read h
  rw [List.length_append, hclears.length_cleared]

/-- If words are left, reading takes at least one of them. -/
theorem words_ne_nil_of_read {w : Word} (h : shape.read (w :: given) = (.ok value, rest)) :
    shape.words value ≠ [] := by
  induction shape generalizing w given rest with
  | word | id | selector | mask => exact List.cons_ne_nil _ _
  | text => exact Text.pack_ne_nil _
  | optional inner ih =>
      obtain ⟨found, hread, rfl⟩ := Reading.map_eq_ok h
      exact ih hread
  | list element ih =>
      rw [Shape.read, List.length_cons] at h
      unfold readList at h
      rcases hfirst : element.read (w :: given) with ⟨lack | first, remaining⟩
      · rw [hfirst] at h; cases h
      · rw [hfirst] at h
        obtain ⟨later, -, rfl, -, -⟩ := words_of_readList (fun _ _ _ => words_of_read) h
        intro hnil
        exact ih hfirst (List.append_eq_nil_iff.mp hnil).1
  | pair first second ihFirst ihSecond =>
      unfold Shape.read at h
      rcases hfirst : first.read (w :: given) with ⟨lack | a, remaining⟩
      · rw [hfirst] at h; cases h
      · rw [hfirst] at h
        obtain ⟨b, -, rfl⟩ := Reading.map_eq_ok h
        intro hnil
        exact ihFirst hfirst (List.append_eq_nil_iff.mp hnil).1

end Shape

/-! ## Reading it again -/

/-- The words that a read left are all used up, or words stand in their place. -/
theorem append_eq_nil_iff_of_length_eq {words given rest others : List Word}
    (hlength : given.length = words.length + rest.length) (hothers : others = [] ↔ rest = []) :
    words ++ others = [] ↔ given = [] := by
  rw [List.append_eq_nil_iff, hothers, ← List.length_eq_zero_iff, ← List.length_eq_zero_iff,
    ← List.length_eq_zero_iff, hlength]
  omega

/-- A list is read again if each of its elements is, and takes all words that remain. -/
theorem readList_of_readList {α : Type} {read : List Word → Reading α} {words : α → List Word}
    (hread : ∀ {given value rest others}, read given = (.ok value, rest) →
      (others = [] ↔ rest = []) → read (words value ++ others) = (.ok value, others))
    (hlength : ∀ {given value rest}, read given = (.ok value, rest) →
      given.length = (words value).length + rest.length)
    (hwords : ∀ {w given value rest}, read (w :: given) = (.ok value, rest) → words value ≠ [])
    {bound : Nat} {taken values : List α} {given rest : List Word} (hbound : given.length ≤ bound)
    (h : readList read bound taken given = (.ok values, rest)) :
    rest = [] ∧ ∃ later, values = taken.reverse ++ later ∧
      (later.flatMap words).length = given.length ∧
      ∀ {limit : Nat} (_ : given.length ≤ limit) (before : List α),
        readList read limit before (later.flatMap words) = (.ok (before.reverse ++ later), []) := by
  induction bound generalizing taken given with
  | zero =>
      obtain rfl := List.eq_nil_of_length_eq_zero (Nat.le_zero.mp hbound)
      cases h
      refine ⟨rfl, [], by simp, rfl, fun {limit} _ before => ?_⟩
      cases limit <;> simp [readList]
  | succ bound ih =>
      cases given with
      | nil =>
          cases h
          refine ⟨rfl, [], by simp, rfl, fun {limit} _ before => ?_⟩
          cases limit <;> simp [readList]
      | cons w given =>
          unfold readList at h
          rcases hfirst : read (w :: given) with ⟨lack | value, remaining⟩
          · rw [hfirst] at h; cases h
          · rw [hfirst] at h
            have hconsumed := hlength hfirst
            obtain ⟨w', more, hvalue⟩ := List.exists_cons_of_ne_nil (hwords hfirst)
            have hpositive : 0 < (words value).length := by rw [hvalue]; exact Nat.succ_pos _
            -- The element took a word at least, so that the bound suffices for what remains.
            obtain ⟨hrest, later, rfl, hlater, hagain⟩ := ih (by omega) h
            refine ⟨hrest, value :: later, by simp, ?_, fun {limit} hlimit before => ?_⟩
            · rw [List.flatMap_cons, List.length_append, hlater, hconsumed]
            · obtain ⟨limit, rfl⟩ : ∃ less, limit = less + 1 := ⟨limit - 1, by omega⟩
              have hsame : later.flatMap words = [] ↔ remaining = [] := by
                rw [← List.length_eq_zero_iff, hlater, List.length_eq_zero_iff]
              have helement := hread hfirst hsame
              rw [List.flatMap_cons]
              rw [hvalue, List.cons_append] at helement ⊢
              rw [readList, helement]
              simp only
              rw [hagain (by omega), List.reverse_cons, List.append_assoc, List.singleton_append]

/-- A value that was read is read again from its own words. What follows them may be anything, as long as
something follows them exactly if something followed the words that it was read from. -/
theorem Shape.read_words_of_read {shape : Shape} {value : shape.Value}
    {given rest others : List Word} (h : shape.read given = (.ok value, rest))
    (hothers : others = [] ↔ rest = []) :
    shape.read (shape.words value ++ others) = (.ok value, others) := by
  induction shape generalizing given rest others with
  | word | id | selector | mask => rfl
  | text => exact readText_pack (nulFree_of_readText h) others
  | optional inner ih =>
      cases given with
      | nil =>
          cases h
          rw [hothers.mpr rfl]
          rfl
      | cons w later =>
          obtain ⟨found, hread, rfl⟩ := Reading.map_eq_ok h
          obtain ⟨w', more, hfound⟩ := List.exists_cons_of_ne_nil (words_ne_nil_of_read hread)
          have hagain := ih hread hothers
          rw [Shape.words]
          rw [hfound, List.cons_append] at hagain ⊢
          rw [Shape.read, hagain]
          rfl
  | list element ih =>
      obtain ⟨rfl, values, rfl, hlength, hagain⟩ := readList_of_readList (fun hread => ih hread)
        length_of_read words_ne_nil_of_read (Nat.le_refl _) h
      rw [hothers.mpr rfl, List.append_nil]
      exact hagain (Nat.le_of_eq hlength.symm) []
  | pair first second ihFirst ihSecond =>
      unfold Shape.read at h
      rcases hfirst : first.read given with ⟨lack | a, remaining⟩
      · rw [hfirst] at h; cases h
      · rw [hfirst] at h
        obtain ⟨b, hsecond, rfl⟩ := Reading.map_eq_ok h
        have hremaining := append_eq_nil_iff_of_length_eq (length_of_read hsecond) hothers
        rw [Shape.words, List.append_assoc, Shape.read, ihFirst hfirst hremaining]
        simp only
        rw [ihSecond hsecond hothers]
        rfl

/-! ## Writing what was read -/

namespace Shape

/-- A read takes exactly the words that its value counts, and at least one if there are any. Written into
a buffer of that size, the value fills it with the words that were taken, except that the bytes behind the
terminator of a text, in its last word, become zero. In front of the words that were left, what was written
is read as the same value and leaves the same words. No text in the value holds a zero byte. -/
theorem write_of_read {shape : Shape} {value : shape.Value} {given rest : List Word}
    (h : shape.read given = (.ok value, rest)) :
    ∃ consumed, given = consumed ++ rest ∧ consumed.length = shape.wordCount value ∧
      (given ≠ [] → consumed ≠ []) ∧
      (∀ buffer : Vector Word (shape.wordCount value), ∃ written,
        shape.write value ⟨buffer, 0⟩ = some written ∧ written.position = consumed.length ∧
          ClearsTo (shape.padding value) consumed written.buffer.toList ∧
          Terminated (shape.padding value) written.buffer.toList ∧
          shape.read (written.buffer.toList ++ rest) = (.ok value, rest)) ∧
      shape.NulFree value := by
  obtain ⟨consumed, rfl, hclears⟩ := words_of_read h
  have hcount := shape.length_words value
  have hconsumed : consumed.length = shape.wordCount value := hclears.length_cleared.trans hcount
  refine ⟨consumed, rfl, hconsumed, fun hne hnil => ?_, fun buffer => ?_, nulFree_of_read h⟩
  · subst hnil
    obtain ⟨w, later, hrest⟩ := List.exists_cons_of_ne_nil hne
    rw [hrest] at h
    exact words_ne_nil_of_read h (List.eq_nil_of_length_eq_zero (hcount.trans hconsumed.symm))
  · obtain ⟨written, hwrite, hposition, hbuffer⟩ :=
      Cursor.putAll_of_le (shape.words value) ⟨buffer, 0⟩ (by simp [hcount])
    -- The buffer is as long as the words, so that nothing else is left in it.
    have hwords : written.buffer.toList = shape.words value := by
      rw [hbuffer]
      simp [hcount]
    refine ⟨written, (shape.write_eq value _).trans hwrite, ?_, ?_, ?_, ?_⟩
    · rw [hposition, hconsumed, hcount, Nat.zero_add]
    · rw [hwords]
      exact hclears
    · rw [hwords]
      exact shape.terminated value
    · rw [hwords]
      exact read_words_of_read h Iff.rfl

/-- A list of texts, each with an optional list behind it, which takes all words that are left. The byte
behind the terminator of the only text is lost. -/
theorem write_of_read_nested :
    ∃ written, (list (.pair .text (.optional (.list .word)))).write [("ab", some [7, 8])]
        ⟨Vector.replicate 3 0xFFFFFFFF, 0⟩ = some written ∧
      written.buffer.toList = [0x00006261, 7, 8] ∧
      (list (.pair .text (.optional (.list .word)))).read [0x00006261, 7, 8] =
        (.ok [("ab", some [7, 8])], []) := by
  obtain ⟨consumed, hgiven, -, -, hwrite, -⟩ := write_of_read
    (show (list (.pair .text (.optional (.list .word)))).read [0x01006261, 7, 8] =
      (.ok [("ab", some [7, 8])], []) by decide +kernel)
  obtain ⟨written, hwritten, -, hclears, -, hread⟩ := hwrite (Vector.replicate 3 0xFFFFFFFF)
  rw [List.append_nil] at hgiven hread
  have hwords : written.buffer.toList = [0x00006261, 7, 8] := by
    rw [← hclears.clearPadding_eq, ← hgiven]
    decide +kernel
  exact ⟨written, hwritten, hwords, hwords ▸ hread⟩

end Shape

end Operand
end ShaderBinary
