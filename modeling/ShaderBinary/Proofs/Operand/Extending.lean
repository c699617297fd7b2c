import ShaderBinary.Proofs.Operand.Finishing

/-!
# Reading with more words and with fewer

What becomes of a read if words are added behind those it was given, or if some of them are taken away. The
vocabulary is about any reader:

* `Takes`: a value is read from certain words whatever follows them.
* `Completes`, `CompletesAtEnd`: some words can be added so that a value is read.
* `FailsInside`: no proper front of certain words suffices, and the failure tells whether it ends inside a
  text.

An operand that was read took its words in the sense of `Takes` if words were left, or if it is of a closed
shape (`Shape.exists_takes_of_read`). Where operands are missing, they can be supplied: always for closed
shapes (`Shape.completes_of_closed`), and up to the end of the words for trailing ones
(`Shape.completesAtEnd_of_trailing`).
-/

namespace ShaderBinary
namespace Operand

/-! ## Readers -/

section Readers

variable {α β : Type} {read : List Word → Reading α}
  {first : List Word → Reading α} {second : List Word → Reading β}
  {given words others remaining rest : List Word}

/-- The value is read from these words, whatever follows them. -/
def Takes (read : List Word → Reading α) (words : List Word) (value : α) : Prop :=
  ∀ others, read (words ++ others) = (.ok value, others)

theorem Takes.read_eq {value : α} (h : Takes read words value) : read words = (.ok value, []) := by
  simpa using h []

theorem Takes.both {a : α} {b : β} (hfirst : Takes first words a) (hsecond : Takes second others b) :
    Takes (readBoth first second) (words ++ others) (a, b) := by
  intro more
  rw [List.append_assoc, readBoth_of_ok (hfirst (others ++ more)), hsecond more]
  rfl

/-- Words can be added to those given, so that a value is read from all of them, whatever follows. -/
def Completes (read : List Word → Reading α) (given : List Word) : Prop :=
  ∃ more value, more ≠ [] ∧ Takes read (given ++ more) value

/-- Words can be added to those given, so that a value is read from all of them, if nothing follows. -/
def CompletesAtEnd (read : List Word → Reading α) (given : List Word) : Prop :=
  ∃ more value, more ≠ [] ∧ read (given ++ more) = (.ok value, [])

theorem Completes.atEnd (h : Completes read given) : CompletesAtEnd read given := by
  obtain ⟨more, value, hmore, htakes⟩ := h
  exact ⟨more, value, hmore, htakes.read_eq⟩

/-- Words that complete the first of two operands are followed by words for the second. -/
theorem Completes.both (hfirst : Completes first given) (hsecond : Completes second []) :
    Completes (readBoth first second) given := by
  obtain ⟨more, a, hmore, htakes⟩ := hfirst
  obtain ⟨later, b, -, hlater⟩ := hsecond
  refine ⟨more ++ later, (a, b), ?_, ?_⟩
  · simp [hmore]
  · rw [← List.append_assoc]
    exact htakes.both hlater

theorem Completes.both_atEnd (hfirst : Completes first given)
    (hsecond : ∃ later b, second later = (.ok b, [])) :
    CompletesAtEnd (readBoth first second) given := by
  obtain ⟨more, a, hmore, htakes⟩ := hfirst
  obtain ⟨later, b, hlater⟩ := hsecond
  refine ⟨more ++ later, (a, b), ?_, ?_⟩
  · simp [hmore]
  · rw [← List.append_assoc, readBoth_of_ok (htakes later), hlater]
    rfl

theorem Takes.completes_both {a : α} (hfirst : Takes first words a)
    (hsecond : Completes second remaining) :
    Completes (readBoth first second) (words ++ remaining) := by
  obtain ⟨more, b, hmore, htakes⟩ := hsecond
  refine ⟨more, (a, b), hmore, ?_⟩
  rw [List.append_assoc]
  exact hfirst.both htakes

theorem Takes.completesAtEnd_both {a : α} (hfirst : Takes first words a)
    (hsecond : CompletesAtEnd second remaining) :
    CompletesAtEnd (readBoth first second) (words ++ remaining) := by
  obtain ⟨more, b, hmore, hread⟩ := hsecond
  refine ⟨more, (a, b), hmore, ?_⟩
  rw [List.append_assoc, readBoth_of_ok (hfirst (remaining ++ more)), hread]
  rfl

/-- No proper front of the words suffices. If `inside` holds of its length, it ends inside a text. -/
def FailsInside (read : List Word → Reading α) (words : List Word) (inside : Nat → Bool) : Prop :=
  ∀ k < words.length, ∃ remaining,
    read (words.take k) = (.error (if inside k then .text else .words), remaining)

/-- The front of the words of two operands ends in those of the first or in those of the second. -/
theorem FailsInside.both {a : α} {inFirst inSecond : Nat → Bool}
    (hfirst : FailsInside first words inFirst) (htakes : Takes first words a)
    (hsecond : FailsInside second others inSecond) :
    FailsInside (readBoth first second) (words ++ others)
      fun k => if k < words.length then inFirst k else inSecond (k - words.length) := by
  intro k hk
  rw [List.length_append] at hk
  by_cases hinside : k < words.length
  · obtain ⟨remaining, hread⟩ := hfirst k hinside
    refine ⟨remaining, ?_⟩
    rw [List.take_append_of_le_length (Nat.le_of_lt hinside), readBoth_of_error hread]
    simp only [if_pos hinside]
  · obtain ⟨remaining, hread⟩ := hsecond (k - words.length) (by omega)
    refine ⟨remaining, ?_⟩
    rw [List.take_append, List.take_of_length_le (Nat.le_of_not_lt hinside),
      readBoth_of_ok (htakes _), hread]
    simp only [if_neg hinside, Reading.map]

end Readers

namespace Shape

variable {shape element : Shape} {given words rest remaining : List Word}

/-! ## More words -/

theorem rest_eq_nil_of_read_list {values : List element.Value}
    (h : (list element).read given = (.ok values, rest)) : rest = [] :=
  (readList_of_readList read_words_of_read length_of_read words_ne_nil_of_read (Nat.le_refl _) h).1

theorem length_of_takes {value : shape.Value} (h : Takes shape.read words value) :
    words.length = shape.wordCount value := by
  have hlength := length_of_read h.read_eq
  rwa [List.length_nil, Nat.add_zero, length_words] at hlength

/-- An operand that left words, or that tells where it ends, is read again whatever follows its words. -/
theorem exists_takes_of_read {value : shape.Value} (h : shape.read given = (.ok value, rest))
    (hends : shape.closed = true ∨ rest ≠ []) :
    ∃ words, given = words ++ rest ∧ Takes shape.read words value := by
  induction shape generalizing given rest with
  | word => exact ⟨[value], readWord_eq_ok h, fun _ => rfl⟩
  | id | selector | mask =>
      obtain ⟨w, hread, rfl⟩ := Reading.map_eq_ok h
      exact ⟨[w], readWord_eq_ok hread, fun _ => rfl⟩
  | text =>
      obtain ⟨words, rfl, hlength, hunpack, -⟩ :=
        Text.exists_unpack_append (unpack_of_readText h)
      obtain ⟨w, later, rfl⟩ := List.exists_cons_of_length_eq_add_one hlength
      refine ⟨w :: later, rfl, fun others => ?_⟩
      have hothers := hunpack others
      rw [List.cons_append] at hothers ⊢
      simp only [Shape.read, readText, hothers, Text.ofBytes?_bytes]
  | optional inner ih =>
      have hrest : rest ≠ [] := hends.resolve_left (by simp [closed])
      cases given with
      | nil => cases h; exact absurd rfl hrest
      | cons w later =>
          obtain ⟨found, hread, rfl⟩ := Reading.map_eq_ok h
          have hprogress := length_lt_of_read hread
          obtain ⟨words, hgiven, htakes⟩ := ih hread (.inr hrest)
          -- The operand is there because it took a word, and not because words follow it.
          obtain ⟨first, more, rfl⟩ : ∃ first more, words = first :: more := by
            cases words with
            | nil => rw [hgiven] at hprogress; simp at hprogress
            | cons first more => exact ⟨first, more, rfl⟩
          refine ⟨first :: more, hgiven, fun others => ?_⟩
          have hothers := htakes others
          rw [List.cons_append] at hothers ⊢
          rw [Shape.read, hothers]
          rfl
  | list element ih =>
      exact absurd (rest_eq_nil_of_read_list h) (hends.resolve_left (by simp [closed]))
  | pair first second ihFirst ihSecond =>
      rw [read_pair] at h
      obtain ⟨left, hfirst, hsecond⟩ := readBoth_eq_ok h
      rw [closed, Bool.and_eq_true] at hends
      obtain ⟨others, rfl, hothers⟩ := ihSecond hsecond (hends.imp_left And.right)
      obtain ⟨words, rfl, hwords⟩ := ihFirst hfirst (hends.imp And.left fun hrest => by simp [hrest])
      refine ⟨words ++ others, (List.append_assoc _ _ _).symm, ?_⟩
      rw [funext (read_pair first second)]
      exact hwords.both hothers

/-- At the end there is nothing but an end to be found. -/
theorem read_nil_eq_error {lack : Lack} (h : shape.read [] = (.error lack, remaining)) :
    lack = .words := by
  obtain ⟨hsuffix, hexplains⟩ := explains_of_read h
  cases lack with
  | words => rfl
  | text => exact absurd (List.suffix_nil.mp hsuffix) hexplains.1

/-- An operand that tells where it ends is not read from nothing. -/
theorem read_nil_of_closed (hclosed : shape.closed = true) :
    ∃ remaining, shape.read [] = (.error .words, remaining) := by
  rcases hread : shape.read [] with ⟨lack | value, remaining⟩
  · exact ⟨remaining, by rw [read_nil_eq_error hread]⟩
  · obtain ⟨words, hwords, htakes⟩ := exists_takes_of_read hread (.inl hclosed)
    obtain ⟨rfl, -⟩ := List.append_eq_nil_iff.mp hwords.symm
    have hprogress := length_lt_of_read (htakes [0])
    simp at hprogress

/-- What is missing of an operand that tells where it ends can be supplied. -/
theorem completes_of_closed (hclosed : shape.closed = true)
    (h : shape.read given = (.error .words, remaining)) : Completes shape.read given := by
  induction shape generalizing given remaining with
  | word =>
      obtain ⟨rfl, -, -⟩ := readWord_eq_error h
      exact ⟨[0], 0, List.cons_ne_nil _ _, fun _ => rfl⟩
  | id | selector | mask =>
      obtain ⟨rfl, -, -⟩ := readWord_eq_error (Reading.map_eq_error h)
      exact ⟨[0], ⟨0⟩, List.cons_ne_nil _ _, fun _ => rfl⟩
  | text =>
      obtain ⟨-, rfl⟩ := readText_eq_error h
      exact ⟨Text.pack (Text.bytes ""), "", Text.pack_ne_nil _,
        readText_pack (by decide +kernel)⟩
  | optional inner ih => simp [closed] at hclosed
  | list element ih => simp [closed] at hclosed
  | pair first second ihFirst ihSecond =>
      rw [closed, Bool.and_eq_true] at hclosed
      rw [read_pair] at h
      rw [funext (read_pair first second)]
      rcases readBoth_eq_error h with hfirst | ⟨a, left, hfirst, hsecond⟩
      · obtain ⟨left, hnil⟩ := read_nil_of_closed hclosed.2
        exact (ihFirst hclosed.1 hfirst).both (ihSecond hclosed.2 hnil)
      · obtain ⟨words, rfl, hwords⟩ := exists_takes_of_read hfirst (.inl hclosed.1)
        exact hwords.completes_both (ihSecond hclosed.2 hsecond)

/-- If what is missing where nothing is given can be supplied, there are words to be read. -/
theorem exists_read (h : ∀ remaining, shape.read [] = (.error .words, remaining) →
    CompletesAtEnd shape.read []) : ∃ words value, shape.read words = (.ok value, []) := by
  rcases hread : shape.read [] with ⟨lack | value, remaining⟩
  · obtain ⟨more, value, -, hmore⟩ := h remaining (by rw [hread, read_nil_eq_error hread])
    exact ⟨more, value, hmore⟩
  · obtain rfl := List.suffix_nil.mp (isSuffix_of_read hread)
    exact ⟨[], value, hread⟩

/-- What is missing of an operand that stands at the end can be supplied. -/
theorem completesAtEnd_of_trailing (htrailing : shape.trailing = true)
    (h : shape.read given = (.error .words, remaining)) : CompletesAtEnd shape.read given := by
  induction shape generalizing given remaining with
  | word | id | text | selector | mask => exact (completes_of_closed rfl h).atEnd
  | optional inner ih =>
      cases given with
      | nil => cases h
      | cons w later =>
          obtain ⟨more, value, hmore, hread⟩ :=
            (completes_of_closed htrailing (Reading.map_eq_error h)).atEnd
          refine ⟨more, some value, hmore, ?_⟩
          rw [List.cons_append] at hread ⊢
          rw [Shape.read, hread]
          rfl
  | list element ih =>
      induction hcount : given.length using Nat.strong_induction_on generalizing given with
      | _ count ihCount =>
          cases given with
          | nil => cases h
          | cons w later =>
              rcases hfirst : element.read (w :: later) with ⟨lack | value, left⟩
              · -- The last element is completed, and nothing follows it.
                rw [read_list_of_error hfirst] at h
                cases h
                obtain ⟨more, value, hmore, hread⟩ := (completes_of_closed htrailing hfirst).atEnd
                refine ⟨more, [value], hmore, ?_⟩
                rw [List.cons_append] at hread ⊢
                rw [read_list_of_ok hread]
                rfl
              · have hprogress := length_lt_of_read hfirst
                rw [read_list_of_ok hfirst] at h
                obtain ⟨more, values, hmore, hread⟩ :=
                  ihCount left.length (by omega) (Reading.map_eq_error h) rfl
                obtain ⟨words, hgiven, hwords⟩ := exists_takes_of_read hfirst (.inl htrailing)
                have hwhole := hwords (left ++ more)
                rw [← List.append_assoc, ← hgiven, List.cons_append] at hwhole
                refine ⟨more, value :: values, hmore, ?_⟩
                rw [List.cons_append, read_list_of_ok hwhole, hread]
                rfl
  | pair first second ihFirst ihSecond =>
      rw [trailing, Bool.and_eq_true] at htrailing
      rw [read_pair] at h
      rw [funext (read_pair first second)]
      rcases readBoth_eq_error h with hfirst | ⟨a, left, hfirst, hsecond⟩
      · exact (completes_of_closed htrailing.1 hfirst).both_atEnd
          (exists_read fun _ => ihSecond htrailing.2)
      · obtain ⟨words, rfl, hwords⟩ := exists_takes_of_read hfirst (.inl htrailing.1)
        exact hwords.completesAtEnd_both (ihSecond htrailing.2 hsecond)

/-! ## Fewer words -/

/-- Whether the first `k` words of an operand end inside a text: some of its words are among them, but not
the one that ends it. -/
def insideText : (shape : Shape) → shape.Value → Nat → Bool
  | .text, string, k => 0 < k ∧ k < Text.packedWords string
  | .pair first second, (a, b), k =>
    if k < first.wordCount a then first.insideText a k
    else second.insideText b (k - first.wordCount a)
  | _, _, _ => false

/-- A front of the words of a text does not end it. -/
theorem failsInside_text {string : String} (h : Takes readText words string) :
    FailsInside readText words (text.insideText string) := by
  intro k hk
  have hcount : words.length = text.wordCount string := length_of_takes h
  rw [wordCount] at hcount
  obtain ⟨consumed, hwords, -, -, hnone⟩ :=
    Text.exists_unpack_append (unpack_of_readText h.read_eq)
  rw [List.append_nil] at hwords
  subst hwords
  have hfront := hnone k hk
  cases k with
  | zero => exact ⟨[], rfl⟩
  | succ k =>
      obtain ⟨w, later, rfl⟩ := List.exists_cons_of_length_pos (Nat.zero_lt_of_lt hk)
      have hinside : text.insideText string (k + 1) = true :=
        decide_eq_true ⟨Nat.succ_pos k, hcount ▸ hk⟩
      refine ⟨(w :: later).take (k + 1), ?_⟩
      rw [List.take_succ_cons] at hfront ⊢
      simp only [readText, hfront, hinside, if_true]

/-- An operand that tells where it ends is not read from a front of its words. -/
theorem failsInside_of_closed {value : shape.Value} (hclosed : shape.closed = true)
    (h : Takes shape.read words value) : FailsInside shape.read words (shape.insideText value) := by
  induction shape generalizing words with
  | word | id | selector | mask =>
      intro k hk
      rw [length_of_takes h, wordCount, Nat.lt_one_iff] at hk
      subst hk
      exact ⟨[], rfl⟩
  | text => exact failsInside_text h
  | optional inner ih => simp [closed] at hclosed
  | list element ih => simp [closed] at hclosed
  | pair first second ihFirst ihSecond =>
      rw [closed, Bool.and_eq_true] at hclosed
      have hread := h.read_eq
      rw [read_pair] at hread
      obtain ⟨left, hfirst, hsecond⟩ := readBoth_eq_ok hread
      obtain ⟨front, rfl, htakes⟩ := exists_takes_of_read hfirst (.inl hclosed.1)
      obtain ⟨back, rfl, hback⟩ := exists_takes_of_read hsecond (.inl hclosed.2)
      have hfails := (ihFirst hclosed.1 htakes).both htakes (ihSecond hclosed.2 hback)
      rw [length_of_takes htakes] at hfails
      rw [funext (read_pair first second), List.append_nil]
      exact hfails

end Shape

end Operand
end ShaderBinary
