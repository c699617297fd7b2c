import Mathlib.Data.List.ModifyLast
import ShaderBinary.Proofs.Operand.Words

/-!
# Where a text ends

A packed text does not say how long it is: it ends at the first zero among the octets of its words, wherever
in a word this zero stands. A text that holds a zero itself is packed as a whole, but only what stands before
the zero is found again; and what stands behind the first zero of any words has no part in the text they hold.

* `PacksTo` says what packing a text does to a buffer and `UnpacksTo` what is taken off some words.
* `unpacksTo_iff` says in one which bytes are unpacked and how many words are used up for them.
* `UnpacksTo.pack_eq`: packing these bytes again gives the words that were used up, with the octets behind
  the first zero cleared.

`packing_ends_at_first_zero` is the whole contract.
-/

namespace ShaderBinary
namespace Text

open Operand

variable {words : List Word} {taken : List UInt8} {used : Nat}

/-! ## Packing into a buffer -/

/-- A text is packed into exactly these words. Where there is room for them behind the cursor they go there,
and nothing else changes; where there is not, nothing is packed. -/
structure PacksTo (text : String) (words : List Word) : Prop where
  written : ∀ {size : Nat} (cursor : Cursor size), cursor.position + words.length ≤ size →
    ∃ next, cursor.putText text = some next ∧
      next.position = cursor.position + words.length ∧
      next.buffer.toList = cursor.buffer.toList.take cursor.position ++ words ++
        cursor.buffer.toList.drop (cursor.position + words.length)
  overrun : ∀ {size : Nat} (cursor : Cursor size), size < cursor.position + words.length →
    cursor.putText text = none

theorem packsTo_pack (text : String) : PacksTo text (pack (bytes text)) := by
  constructor
  · intro size cursor hroom
    exact Cursor.putAll_of_le (pack (bytes text)) cursor hroom
  · intro size cursor hfull
    have hpositive := List.length_pos_of_ne_nil (pack_ne_nil (bytes text))
    exact (Cursor.putAll_eq_none_iff (pack (bytes text)) cursor).mpr (by omega)

/-- A text takes a quarter of its bytes and one more, rounded up, and at least one word. -/
theorem packedWords_eq_max (text : String) :
    packedWords text = max 1 ((text.utf8ByteSize + 1 + 3) / 4) := by
  rw [packedWords]
  omega

/-- No fewer words hold the bytes and one more. -/
theorem packedWords_le_iff (text : String) (count : Nat) :
    packedWords text ≤ count ↔ text.utf8ByteSize + 1 ≤ 4 * count := by
  rw [packedWords]
  omega

/-! ## Unpacking -/

/-- These bytes are unpacked from the words, and this uses up the first `used` of them. -/
structure UnpacksTo (words : List Word) (taken : List UInt8) (used : Nat) : Prop where
  used_le : used ≤ words.length
  unpack_eq : unpack words = some (taken, words.drop used)

theorem unpack_eq_none_iff : unpack words = none ↔ 0 ∉ words.flatMap Word.octets := by
  constructor
  · intro hnone hzero
    obtain ⟨front, last, rest, hends⟩ := exists_endsIn hzero
    rw [hends.unpack_eq] at hnone
    cases hnone
  · exact unpack_of_notMem

/-- Bytes are unpacked exactly if they hold no zero and stand before one where the octets begin. -/
theorem unpacksTo_iff : UnpacksTo words taken used ↔
    0 ∉ taken ∧ taken ++ [0] <+: words.flatMap Word.octets ∧ used = taken.length / 4 + 1 := by
  constructor
  · rintro ⟨hle, hunpack⟩
    obtain ⟨front, last, hends, rfl⟩ := exists_endsIn_of_unpack hunpack
    refine ⟨hends.notMem_front_append, hends.isPrefix, ?_⟩
    -- What is left over tells how many words were used up.
    have hlength := congrArg List.length hends.words_eq
    rw [List.length_append, List.length_cons, List.length_drop] at hlength
    rw [hends.length_div_four]
    omega
  · rintro ⟨htaken, hprefix, rfl⟩
    refine ⟨?_, unpack_of_isPrefix htaken hprefix⟩
    have hlength := hprefix.length_le
    rw [List.length_append, List.length_singleton, length_flatMap_octets] at hlength
    omega

theorem unpacksTo_of_mem (h : 0 ∈ words.flatMap Word.octets) :
    UnpacksTo words (untilZero (words.flatMap Word.octets))
      ((untilZero (words.flatMap Word.octets)).length / 4 + 1) :=
  unpacksTo_iff.mpr ⟨zero_notMem_untilZero _, untilZero_append_isPrefix h, rfl⟩

/-- Packed bytes are found again up to their first zero. -/
theorem unpacksTo_pack_append (bytes : List UInt8) (rest : List Word) :
    UnpacksTo (pack bytes ++ rest) (untilZero bytes) ((untilZero bytes).length / 4 + 1) :=
  unpacksTo_iff.mpr ⟨zero_notMem_untilZero bytes, isPrefix_octets_pack bytes rest, rfl⟩

/-- What stands behind the first zero does not matter. -/
theorem UnpacksTo.of_take_eq {others : List Word} (h : UnpacksTo words taken used)
    (hsame : (others.flatMap Word.octets).take (taken.length + 1) =
      (words.flatMap Word.octets).take (taken.length + 1)) : UnpacksTo others taken used := by
  obtain ⟨htaken, hprefix, hused⟩ := unpacksTo_iff.mp h
  have hfront := List.prefix_iff_eq_take.mp hprefix
  rw [List.length_append, List.length_singleton, ← hsame] at hfront
  refine unpacksTo_iff.mpr ⟨htaken, ?_, hused⟩
  rw [hfront]
  exact List.take_prefix _ _

/-- What was unpacked is packed into the words it was unpacked from, with the octets behind the zero
cleared. -/
theorem UnpacksTo.pack_eq (h : UnpacksTo words taken used) :
    pack taken = (words.take used).modifyLast Word.clearBehindZero := by
  obtain ⟨-, -, hused⟩ := unpacksTo_iff.mp h
  obtain ⟨front, last, hends, rfl⟩ := exists_endsIn_of_unpack h.unpack_eq
  have htake : words.take used = front ++ [last] := by
    rw [hused, hends.length_div_four, hends.words_eq, List.append_cons,
      List.take_left' (by simp)]
  rw [hends.pack_eq, htake, List.modifyLast_concat]

/-! ## Both directions -/

/-- A text is packed into the least number of words that hold its bytes and one more. They hold the bytes and
then only zeros, and no other word of the buffer changes. Whatever follows them, the text is unpacked from them
up to its first zero.

From any words bytes are unpacked exactly if one of their octets is zero. These bytes are the octets before
the first zero, they use up the words up to the one with this zero, and nothing behind it has any influence on
them. If they are UTF-8, their text is packed into the words that were used up, with the octets behind the
first zero of the last one set to zero. -/
theorem packing_ends_at_first_zero :
    (∀ text : String,
        PacksTo text (pack (bytes text)) ∧
        (pack (bytes text)).length = packedWords text ∧
        packedWords text = text.utf8ByteSize / 4 + 1 ∧
        packedWords text = max 1 ((text.utf8ByteSize + 1 + 3) / 4) ∧
        (∀ count, packedWords text ≤ count ↔ text.utf8ByteSize + 1 ≤ 4 * count) ∧
        (pack (bytes text)).flatMap Word.octets =
          bytes text ++ List.replicate (4 - (bytes text).length % 4) 0 ∧
        ∀ rest, UnpacksTo (pack (bytes text) ++ rest) (untilZero (bytes text))
          ((untilZero (bytes text)).length / 4 + 1)) ∧
      ∀ words : List Word,
        (unpack words = none ↔ 0 ∉ words.flatMap Word.octets) ∧
        (0 ∈ words.flatMap Word.octets → ∃ taken used,
          UnpacksTo words taken used ∧
          taken = untilZero (words.flatMap Word.octets) ∧ 0 ∉ taken ∧
          taken.length / 4 + 1 = used ∧
          (∀ others : List Word, (others.flatMap Word.octets).take (taken.length + 1) =
              (words.flatMap Word.octets).take (taken.length + 1) → UnpacksTo others taken used) ∧
          ∀ text, ofBytes? taken = some text →
            PacksTo text ((words.take used).modifyLast Word.clearBehindZero)) := by
  constructor
  · intro text
    exact ⟨packsTo_pack text, length_pack_bytes text, rfl, packedWords_eq_max text,
      packedWords_le_iff text, octets_pack (bytes text), unpacksTo_pack_append (bytes text)⟩
  · intro words
    refine ⟨unpack_eq_none_iff, fun hzero => ?_⟩
    have hunpacks := unpacksTo_of_mem hzero
    refine ⟨_, _, hunpacks, rfl, zero_notMem_untilZero _, rfl,
      fun others hsame => hunpacks.of_take_eq hsame, fun text htext => ?_⟩
    rw [← hunpacks.pack_eq, ← bytes_of_ofBytes? htext]
    exact packsTo_pack text

/-- A text with a zero in its first word, and words with a zero in their second one and other octets behind
it. -/
theorem packing_ends_at_first_zero_multibyte :
    ((∃ next, Cursor.putText "ab\x00é" ⟨#v[1, 2, 3, 4], 1⟩ = some next ∧ next.position = 3 ∧
          next.buffer.toList = [1, 0xC3006261, 0x000000A9, 4]) ∧
        Cursor.putText "ab\x00é" ⟨#v[1, 2], 1⟩ = none ∧
        UnpacksTo [0xC3006261, 0x000000A9, 7] [0x61, 0x62] 1) ∧
      0 ∈ List.flatMap Word.octets [0x64636261, 0xFF00A9C3, 7] ∧
      UnpacksTo [0x64636261, 0xFF00A9C3, 7] [0x61, 0x62, 0x63, 0x64, 0xC3, 0xA9] 2 ∧
      UnpacksTo [0x64636261, 0x1200A9C3] [0x61, 0x62, 0x63, 0x64, 0xC3, 0xA9] 2 ∧
      ofBytes? [0x61, 0x62, 0x63, 0x64, 0xC3, 0xA9] = some "abcdé" ∧
      PacksTo "abcdé" [0x64636261, 0x0000A9C3] := by
  obtain ⟨hpacking, hunpacking⟩ := packing_ends_at_first_zero
  constructor
  · obtain ⟨hpacks, -, -, -, -, -, hunpacks⟩ := hpacking "ab\x00é"
    have hwords : pack (bytes "ab\x00é") = [0xC3006261, 0x000000A9] := by decide +kernel
    have htaken : untilZero (bytes "ab\x00é") = [0x61, 0x62] := by decide +kernel
    rw [hwords] at hpacks hunpacks
    rw [htaken] at hunpacks
    exact ⟨hpacks.written ⟨#v[1, 2, 3, 4], 1⟩ (by decide), hpacks.overrun ⟨#v[1, 2], 1⟩ (by decide),
      hunpacks [7]⟩
  · have hzero : 0 ∈ List.flatMap Word.octets [0x64636261, 0xFF00A9C3, 7] := by decide +kernel
    have htaken : untilZero (List.flatMap Word.octets [0x64636261, 0xFF00A9C3, 7]) =
        [0x61, 0x62, 0x63, 0x64, 0xC3, 0xA9] := by decide +kernel
    have htext : ofBytes? [0x61, 0x62, 0x63, 0x64, 0xC3, 0xA9] = some "abcdé" := by decide +kernel
    obtain ⟨-, hsome⟩ := hunpacking [0x64636261, 0xFF00A9C3, 7]
    obtain ⟨taken, used, hunpacks, rfl, -, rfl, hothers, hpacks⟩ := hsome hzero
    rw [htaken] at hunpacks hothers hpacks
    exact ⟨hzero, hunpacks, hothers [0x64636261, 0x1200A9C3] (by decide +kernel), htext,
      hpacks "abcdé" htext⟩

end Text
end ShaderBinary
