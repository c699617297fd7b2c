import ShaderBinary.Text.Packing
import ShaderBinary.Proofs.Text.FirstZero

/-!
# Packing and unpacking texts

`pack` and `unpack` run with an accumulator. `pack_four`, `pack_short`, `unpack_cons_of_mem` and
`unpack_cons_of_notMem` say what they do to the first word, and everything else follows from these:

* `octets_pack`: packed words hold the bytes and then zeros;
* `EndsIn.unpack_eq`, `unpack_of_notMem`: what is unpacked from any words, by where their first zero stands;
* `unpack_pack`: bytes without a zero are read back, whatever follows them;
* `unpack_of_isPrefix`, `exists_unpack_append`: a text is read if it is there with its terminator, and its
  words are read as it whatever follows them;
* `pack_of_unpack`: whatever words a text was read from, packing it again only clears their padding.
-/

namespace ShaderBinary
namespace Text

/-! ## Packing -/

/-- Induction on bytes taken four at a time. -/
theorem quads_induction {motive : List UInt8 → Prop}
    (short : ∀ bytes, bytes.length < 4 → motive bytes)
    (four : ∀ b₀ b₁ b₂ b₃ rest, motive rest → motive (b₀ :: b₁ :: b₂ :: b₃ :: rest)) :
    ∀ bytes, motive bytes
  | [] => short [] (by simp)
  | [b₀] => short [b₀] (by simp)
  | [b₀, b₁] => short [b₀, b₁] (by simp)
  | [b₀, b₁, b₂] => short [b₀, b₁, b₂] (by simp)
  | b₀ :: b₁ :: b₂ :: b₃ :: rest => four b₀ b₁ b₂ b₃ rest (quads_induction short four rest)

theorem packOnto_short (laid : List Word) {bytes : List UInt8} (h : bytes.length < 4) :
    packOnto laid bytes = Word.ofOctets bytes :: laid := by
  match bytes, h with
  | [], _ | [_], _ | [_, _], _ | [_, _, _], _ => rfl

theorem reverse_packOnto (laid : List Word) (bytes : List UInt8) :
    (packOnto laid bytes).reverse = laid.reverse ++ pack bytes := by
  induction bytes using quads_induction generalizing laid with
  | short bytes h =>
      rw [pack, packOnto_short laid h, packOnto_short [] h, List.reverse_cons]
      rfl
  | four b₀ b₁ b₂ b₃ rest ih =>
      rw [pack, packOnto, packOnto, ih, ih, List.reverse_cons, List.append_assoc]
      rfl

theorem pack_short {bytes : List UInt8} (h : bytes.length < 4) :
    pack bytes = [Word.ofOctets bytes] := by
  rw [pack, packOnto_short [] h]
  rfl

theorem pack_four (b₀ b₁ b₂ b₃ : UInt8) (rest : List UInt8) :
    pack (b₀ :: b₁ :: b₂ :: b₃ :: rest) = Word.ofOctets [b₀, b₁, b₂, b₃] :: pack rest := by
  rw [pack, packOnto, reverse_packOnto]
  rfl

/-- Bytes that fill words, and more. -/
theorem pack_octets_append (front : List Word) (rest : List UInt8) :
    pack (front.flatMap Word.octets ++ rest) = front ++ pack rest := by
  induction front with
  | nil => rfl
  | cons w later ih =>
      have hquad : pack (w.octets ++ (later.flatMap Word.octets ++ rest)) =
          Word.ofOctets w.octets :: pack (later.flatMap Word.octets ++ rest) := pack_four _ _ _ _ _
      rw [List.flatMap_cons, List.append_assoc, hquad, Word.ofOctets_octets, ih]
      rfl

theorem length_pack (bytes : List UInt8) : (pack bytes).length = bytes.length / 4 + 1 := by
  induction bytes using quads_induction with
  | short bytes h =>
      rw [pack_short h, List.length_singleton]
      omega
  | four b₀ b₁ b₂ b₃ rest ih =>
      rw [pack_four, List.length_cons, ih]
      simp only [List.length_cons]
      omega

theorem pack_ne_nil (bytes : List UInt8) : pack bytes ≠ [] := by
  intro hnil
  have hlength := length_pack bytes
  rw [hnil] at hlength
  cases hlength

/-- The octets of packed words are the bytes and behind them, up to the end of the last word, zeros. -/
theorem octets_pack (bytes : List UInt8) :
    (pack bytes).flatMap Word.octets = bytes ++ List.replicate (4 - bytes.length % 4) 0 := by
  induction bytes using quads_induction with
  | short bytes h =>
      rw [pack_short h, List.flatMap_singleton, Word.octets_ofOctets (Nat.le_of_lt h),
        Nat.mod_eq_of_lt h]
  | four b₀ b₁ b₂ b₃ rest ih =>
      have hmod : (b₀ :: b₁ :: b₂ :: b₃ :: rest).length % 4 = rest.length % 4 := by
        simp only [List.length_cons]
        omega
      rw [pack_four, List.flatMap_cons, ih, Word.octets_ofOctets_four, hmod]
      rfl

/-! ## Unpacking -/

theorem unpackOnto_eq (taken : List UInt8) (words : List Word) :
    unpackOnto taken words =
      (unpack words).map fun (bytes, rest) => (taken.reverse ++ bytes, rest) := by
  induction words generalizing taken with
  | nil => rfl
  | cons w rest ih =>
      unfold unpack unpackOnto
      rcases hspan : w.octets.span (· ≠ 0) with ⟨text, _ | ⟨terminator, more⟩⟩
      · simp only [hspan]
        rw [ih, ih (text.reverse ++ []), Option.map_map]
        congr 1
        funext found
        simp
      · simp only [hspan, Option.map_some, List.append_nil, List.reverse_append,
          List.reverse_reverse]

/-- The text ends in the first word. -/
theorem unpack_cons_of_mem {w : Word} (h : 0 ∈ w.octets) (rest : List Word) :
    unpack (w :: rest) = some (untilZero w.octets, rest) := by
  obtain ⟨text, more, hw, htext⟩ := List.eq_append_cons_of_mem h
  have hspan : w.octets.span (· ≠ 0) = (text, 0 :: more) := by
    rw [List.span_eq_takeWhile_dropWhile, hw, List.takeWhile_append_of_pos (forall_ne_zero htext),
      List.dropWhile_append_of_pos (forall_ne_zero htext)]
    simp
  rw [hw, untilZero_append_zero, untilZero_eq_self htext]
  unfold unpack unpackOnto
  rw [hspan]
  simp

/-- The text goes on after the first word. -/
theorem unpack_cons_of_notMem {w : Word} (hw : 0 ∉ w.octets) (rest : List Word) :
    unpack (w :: rest) =
      (unpack rest).map fun (bytes, left) => (w.octets ++ bytes, left) := by
  have hspan : w.octets.span (· ≠ 0) = (w.octets, []) := by
    rw [List.span_eq_takeWhile_dropWhile, List.takeWhile_eq_self_iff.mpr (forall_ne_zero hw),
      List.dropWhile_eq_nil_iff.mpr (forall_ne_zero hw)]
  rw [unpack, unpackOnto, hspan]
  simp only
  rw [unpackOnto_eq]
  simp

/-- The text goes on after the words without a zero. -/
theorem unpack_append_of_notMem {front : List Word} (h : 0 ∉ front.flatMap Word.octets)
    (rest : List Word) : unpack (front ++ rest) =
      (unpack rest).map fun (bytes, left) => (front.flatMap Word.octets ++ bytes, left) := by
  induction front with
  | nil => exact Option.map_id'.symm
  | cons w later ih =>
      rw [List.flatMap_cons, List.mem_append, not_or] at h
      rw [List.cons_append, unpack_cons_of_notMem h.1, ih h.2, Option.map_map]
      rfl

theorem unpack_of_notMem {words : List Word} (h : 0 ∉ words.flatMap Word.octets) :
    unpack words = none := by
  rw [← List.append_nil words, unpack_append_of_notMem h]
  rfl

/-- What stands before the first zero is unpacked, and the word of this zero is the last one used up. -/
theorem EndsIn.unpack_eq {words front rest : List Word} {last : Word}
    (h : EndsIn words front last rest) :
    unpack words = some (front.flatMap Word.octets ++ untilZero last.octets, rest) := by
  rw [h.words_eq, unpack_append_of_notMem h.notMem_front, unpack_cons_of_mem h.mem_last]
  rfl

/-- Words from which a text is unpacked hold a zero. -/
theorem exists_endsIn_of_unpack {words rest : List Word} {bytes : List UInt8}
    (h : unpack words = some (bytes, rest)) :
    ∃ front last, EndsIn words front last rest ∧
      bytes = front.flatMap Word.octets ++ untilZero last.octets := by
  have hzero : 0 ∈ words.flatMap Word.octets := by
    by_contra hnone
    rw [unpack_of_notMem hnone] at h
    cases h
  obtain ⟨front, last, left, hends⟩ := exists_endsIn hzero
  rw [hends.unpack_eq] at h
  cases h
  exact ⟨front, last, hends, rfl⟩

/-- Where the octets of words start with bytes and the zero that ends them, these bytes are unpacked. -/
theorem unpack_of_isPrefix {words : List Word} {bytes : List UInt8} (hbytes : 0 ∉ bytes)
    (h : bytes ++ [0] <+: words.flatMap Word.octets) :
    unpack words = some (bytes, words.drop (bytes.length / 4 + 1)) := by
  obtain ⟨front, last, rest, hends⟩ := exists_endsIn (h.subset (by simp))
  obtain rfl : front.flatMap Word.octets ++ untilZero last.octets = bytes := by
    rw [← hends.untilZero_eq, untilZero_of_isPrefix hbytes h]
  rw [hends.unpack_eq, hends.length_div_four, hends.words_eq, List.append_cons,
    List.drop_left' (by simp)]

/-- The octets of packed words start with the bytes up to their first zero, and with a zero that is either
this one or the terminator. -/
theorem isPrefix_octets_pack (bytes : List UInt8) (rest : List Word) :
    untilZero bytes ++ [0] <+: (pack bytes ++ rest).flatMap Word.octets := by
  obtain ⟨padding, hpadding⟩ : ∃ padding, 4 - bytes.length % 4 = padding + 1 :=
    ⟨3 - bytes.length % 4, by omega⟩
  rw [List.flatMap_append, octets_pack, hpadding, List.replicate_succ, List.append_assoc,
    List.cons_append, ← untilZero_append_zero bytes]
  exact untilZero_append_isPrefix (by simp)

/-- Bytes without a zero are read back. -/
theorem unpack_pack {bytes : List UInt8} (h : 0 ∉ bytes) (rest : List Word) :
    unpack (pack bytes ++ rest) = some (bytes, rest) := by
  have hprefix := isPrefix_octets_pack bytes rest
  rw [untilZero_eq_self h] at hprefix
  rw [unpack_of_isPrefix h hprefix, ← length_pack, List.drop_left]

/-- The words that a text is unpacked from hold it whatever follows them, and are as many as it takes.
In none of their proper fronts is there a terminator. -/
theorem exists_unpack_append {words rest : List Word} {bytes : List UInt8}
    (h : unpack words = some (bytes, rest)) :
    ∃ consumed, words = consumed ++ rest ∧ consumed.length = bytes.length / 4 + 1 ∧
      (∀ others, unpack (consumed ++ others) = some (bytes, others)) ∧
      ∀ k < consumed.length, unpack (consumed.take k) = none := by
  obtain ⟨front, last, hends, rfl⟩ := exists_endsIn_of_unpack h
  refine ⟨front ++ [last], ?_, ?_, fun others => ?_, fun k hk => ?_⟩
  · rw [hends.words_eq, List.append_cons]
  · rw [hends.length_div_four, List.length_append, List.length_singleton]
  · exact EndsIn.unpack_eq ⟨(List.append_cons front last others).symm, hends.notMem_front, hends.mem_last⟩
  · have hle : k ≤ front.length := by
      rw [List.length_append, List.length_singleton] at hk
      omega
    rw [List.take_append_of_le_length hle]
    apply unpack_of_notMem
    intro hzero
    obtain ⟨w, hw, hoctets⟩ := List.mem_flatMap.mp hzero
    exact hends.notMem_front (List.mem_flatMap.mpr ⟨w, List.mem_of_mem_take hw, hoctets⟩)

/-! ## Packing what was unpacked -/

/-- How many octets of each word are padding behind a text of `length` bytes and its terminator. -/
def padding (length : Nat) : List Nat :=
  List.replicate (length / 4) 0 ++ [3 - length % 4]

theorem length_padding (length : Nat) : (padding length).length = length / 4 + 1 := by
  simp [padding]

theorem padding_le {length p : Nat} (h : p ∈ padding length) : p ≤ 3 := by
  rw [padding, List.mem_append, List.mem_replicate, List.mem_singleton] at h
  omega

theorem padding_of_lt {length : Nat} (h : length < 4) : padding length = [3 - length] := by
  rw [padding, Nat.div_eq_of_lt h, Nat.mod_eq_of_lt h]
  rfl

theorem padding_add_four (length : Nat) : padding (4 + length) = 0 :: padding length := by
  have hwords : (4 + length) / 4 = length / 4 + 1 := by omega
  have hoctets : (4 + length) % 4 = length % 4 := by omega
  rw [padding, hwords, hoctets, List.replicate_succ]
  rfl

/-- The padding of a packed text is behind its terminator. -/
theorem terminated_pack (bytes : List UInt8) : Terminated (padding bytes.length) (pack bytes) := by
  induction bytes using quads_induction with
  | short bytes h =>
      rw [padding_of_lt h, pack_short h]
      have hindex : 3 - (3 - bytes.length) = bytes.length := by omega
      refine .cons (fun _ => ?_) .nil
      rw [Word.octets_ofOctets (Nat.le_of_lt h), hindex,
        List.getElem?_append_right (Nat.le_refl _), Nat.sub_self, List.getElem?_replicate,
        if_pos (by omega)]
  | four b₀ b₁ b₂ b₃ rest ih =>
      have hlength : (b₀ :: b₁ :: b₂ :: b₃ :: rest).length = 4 + rest.length := by
        simp only [List.length_cons]
        omega
      rw [hlength, padding_add_four, pack_four]
      exact (Terminated.single _).append ih

namespace EndsIn

variable {words front rest : List Word} {last : Word}

theorem padding_eq (h : EndsIn words front last rest) :
    padding (front.flatMap Word.octets ++ untilZero last.octets).length =
      List.replicate front.length 0 ++ [3 - (untilZero last.octets).length] := by
  rw [padding, h.length_div_four, h.length_mod_four]

/-- The text is packed into the words that it was found in, but for what stands behind the zero. -/
theorem pack_eq (h : EndsIn words front last rest) :
    pack (front.flatMap Word.octets ++ untilZero last.octets) = front ++ [last.clearBehindZero] := by
  rw [pack_octets_append, pack_short h.length_untilZero_lt, Word.clearBehindZero_of_mem h.mem_last]

end EndsIn

/-- A text that was read has no zero, and packing it again clears the padding of the words it was
read from. -/
theorem pack_of_unpack {words rest : List Word} {bytes : List UInt8}
    (h : unpack words = some (bytes, rest)) :
    0 ∉ bytes ∧ ∃ consumed, words = consumed ++ rest ∧
      ClearsTo (padding bytes.length) consumed (pack bytes) := by
  obtain ⟨front, last, hends, rfl⟩ := exists_endsIn_of_unpack h
  have hwords : words = front ++ [last] ++ rest := by
    rw [hends.words_eq, List.append_cons]
  refine ⟨hends.notMem_front_append, front ++ [last], hwords, ?_⟩
  rw [hends.padding_eq, hends.pack_eq]
  exact (ClearsTo.whole front).append ⟨rfl, rfl⟩

/-! ## Texts and their bytes -/

theorem length_bytes (text : String) : (bytes text).length = text.utf8ByteSize := rfl

theorem ofBytes?_bytes (text : String) : ofBytes? (bytes text) = some text := by
  have harray : (⟨(bytes text).toArray⟩ : ByteArray) = text.toByteArray := by
    rw [bytes, Array.toArray_toList]
  rw [ofBytes?, harray, String.fromUTF8?, dif_pos text.isValidUTF8]
  rfl

theorem bytes_of_ofBytes? {given : List UInt8} {text : String}
    (h : ofBytes? given = some text) : bytes text = given := by
  unfold ofBytes? String.fromUTF8? at h
  split at h
  · cases h
    rfl
  · cases h

theorem length_pack_bytes (text : String) : (pack (bytes text)).length = packedWords text := by
  rw [length_pack, length_bytes, packedWords]

end Text
end ShaderBinary
