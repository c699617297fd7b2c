import Mathlib.Data.List.TakeDrop
import Mathlib.Data.List.TakeWhile
import ShaderBinary.Proofs.Padding

/-!
# The first zero

A text in a module ends at the first zero among the octets of its words. This module says where that is,
without packing or unpacking anything.

* `untilZero` is what stands before the first zero of some bytes. What stands behind it does not matter
  (`untilZero_append_zero`).
* `EndsIn` finds the word that the first zero of some words stands in. There is one as soon as there is a
  zero (`exists_endsIn`), and the octets before the zero fill the words before this one and fit into it
  (`EndsIn.length_div_four`).
* `Word.clearBehindZero` clears the octets of a word that stand behind its first zero.
-/

namespace ShaderBinary

theorem length_flatMap_octets (words : List Word) :
    (words.flatMap Word.octets).length = 4 * words.length :=
  ByteOrder.little.length_bytesOf words

namespace Text

/-! ## Bytes -/

/-- The bytes before the first zero, or all of them if there is none. -/
def untilZero (bytes : List UInt8) : List UInt8 :=
  bytes.takeWhile (· ≠ 0)

theorem forall_ne_zero {bytes : List UInt8} (h : 0 ∉ bytes) : ∀ b ∈ bytes, decide (b ≠ 0) = true := by
  intro b hb
  exact decide_eq_true fun hzero => h (hzero ▸ hb)

theorem zero_notMem_untilZero (bytes : List UInt8) : 0 ∉ untilZero bytes := by
  intro hzero
  have hne := List.mem_takeWhile_imp hzero
  simp at hne

theorem untilZero_append_of_notMem {front : List UInt8} (h : 0 ∉ front) (back : List UInt8) :
    untilZero (front ++ back) = front ++ untilZero back :=
  List.takeWhile_append_of_pos (forall_ne_zero h)

theorem untilZero_eq_self {bytes : List UInt8} (h : 0 ∉ bytes) : untilZero bytes = bytes :=
  List.takeWhile_eq_self_iff.mpr (forall_ne_zero h)

/-- A zero ends the bytes before it, unless they hold a zero themselves. -/
theorem untilZero_append_zero (front back : List UInt8) :
    untilZero (front ++ 0 :: back) = untilZero front := by
  by_cases hzero : 0 ∈ front
  · obtain ⟨text, more, rfl, htext⟩ := List.eq_append_cons_of_mem hzero
    rw [List.append_assoc, untilZero_append_of_notMem htext, untilZero_append_of_notMem htext]
    rfl
  · rw [untilZero_append_of_notMem hzero, untilZero_eq_self hzero]
    exact List.append_nil front

/-- With the first zero itself, the bytes before it are a front of all bytes. -/
theorem untilZero_append_isPrefix {bytes : List UInt8} (h : 0 ∈ bytes) :
    untilZero bytes ++ [0] <+: bytes := by
  obtain ⟨text, more, rfl, htext⟩ := List.eq_append_cons_of_mem h
  rw [untilZero_append_zero, untilZero_eq_self htext]
  exact ⟨more, List.append_assoc text [0] more⟩

theorem untilZero_of_isPrefix {text bytes : List UInt8} (htext : 0 ∉ text)
    (h : text ++ [0] <+: bytes) : untilZero bytes = text := by
  obtain ⟨more, rfl⟩ := h
  rw [List.append_assoc, List.singleton_append, untilZero_append_zero, untilZero_eq_self htext]

/-! ## Words -/

/-- The first zero among the octets of the words stands in `last`, with the words `front` before it. -/
structure EndsIn (words front : List Word) (last : Word) (rest : List Word) : Prop where
  words_eq : words = front ++ last :: rest
  notMem_front : 0 ∉ front.flatMap Word.octets
  mem_last : 0 ∈ last.octets

theorem exists_endsIn {words : List Word} (h : 0 ∈ words.flatMap Word.octets) :
    ∃ front last rest, EndsIn words front last rest := by
  induction words with
  | nil => cases h
  | cons w later ih =>
      by_cases hzero : 0 ∈ w.octets
      · exact ⟨[], w, later, rfl, List.not_mem_nil, hzero⟩
      · rw [List.flatMap_cons, List.mem_append] at h
        obtain ⟨front, last, rest, rfl, hfront, hlast⟩ := ih (h.resolve_left hzero)
        refine ⟨w :: front, last, rest, rfl, ?_, hlast⟩
        rw [List.flatMap_cons, List.mem_append, not_or]
        exact ⟨hzero, hfront⟩

namespace EndsIn

variable {words front rest : List Word} {last : Word}

theorem untilZero_eq (h : EndsIn words front last rest) :
    untilZero (words.flatMap Word.octets) = front.flatMap Word.octets ++ untilZero last.octets := by
  obtain ⟨rfl, hfront, hlast⟩ := h
  obtain ⟨text, more, hw, htext⟩ := List.eq_append_cons_of_mem hlast
  rw [List.flatMap_append, List.flatMap_cons, untilZero_append_of_notMem hfront, hw,
    List.append_assoc, List.cons_append, untilZero_append_zero, untilZero_append_zero]

/-- The octets before the first zero are free of zeros. -/
theorem notMem_front_append (h : EndsIn words front last rest) :
    0 ∉ front.flatMap Word.octets ++ untilZero last.octets := by
  rw [← h.untilZero_eq]
  exact zero_notMem_untilZero _

theorem isPrefix (h : EndsIn words front last rest) :
    front.flatMap Word.octets ++ untilZero last.octets ++ [0] <+: words.flatMap Word.octets := by
  rw [← h.untilZero_eq]
  apply untilZero_append_isPrefix
  rw [h.words_eq, List.flatMap_append, List.flatMap_cons]
  simp [h.mem_last]

/-- There is room for the zero in the word that it stands in. -/
theorem length_untilZero_lt (h : EndsIn words front last rest) :
    (untilZero last.octets).length < 4 := by
  have hle := (untilZero_append_isPrefix h.mem_last).length_le
  rw [List.length_append, Word.length_octets] at hle
  exact hle

theorem length_div_four (h : EndsIn words front last rest) :
    (front.flatMap Word.octets ++ untilZero last.octets).length / 4 = front.length := by
  have hlast := h.length_untilZero_lt
  rw [List.length_append, length_flatMap_octets]
  omega

theorem length_mod_four (h : EndsIn words front last rest) :
    (front.flatMap Word.octets ++ untilZero last.octets).length % 4 =
      (untilZero last.octets).length := by
  have hlast := h.length_untilZero_lt
  rw [List.length_append, length_flatMap_octets]
  omega

end EndsIn

end Text

namespace Word

/-- The word with the octets behind its first zero octet set to zero. -/
def clearBehindZero (w : Word) : Word :=
  w.clear (3 - (Text.untilZero w.octets).length)

theorem clearBehindZero_of_mem {w : Word} (h : 0 ∈ w.octets) :
    w.clearBehindZero = ofOctets (Text.untilZero w.octets) := by
  obtain ⟨text, more, hw, htext⟩ := List.eq_append_cons_of_mem h
  have huntil : Text.untilZero w.octets = text := by
    rw [hw, Text.untilZero_append_zero, Text.untilZero_eq_self htext]
  have hlength := congrArg List.length hw
  rw [length_octets, List.length_append, List.length_cons] at hlength
  have hkept : 4 - (3 - text.length) = text.length + 1 := by omega
  have hzeros : 4 - text.length = (3 - text.length) + 1 := by omega
  apply octets_injective
  rw [clearBehindZero, huntil, octets_clear (by omega), octets_ofOctets (by omega), hkept, hw,
    List.take_length_add_append, List.take_succ_cons, List.take_zero, List.append_assoc, hzeros,
    List.replicate_succ]
  rfl

end Word

end ShaderBinary
