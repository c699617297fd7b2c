import Mathlib.Algebra.Group.Nat.Defs
import Mathlib.Data.List.Basic
import ShaderBinary.Wire.Frames

/-!
# Words as octets

* A word and its four octets determine each other, in both byte orders (`Word.ofOctets_octets`,
  `Word.octets_ofOctets`, `ByteOrder.toWord_toOctets`).
* `ByteOrder.bytesOf` lays a sequence of words out as bytes. It loses nothing
  (`ByteOrder.bytesOf_injective`), and every sequence of bytes of the right length is laid out that way
  (`ByteOrder.exists_bytesOf`).
* The first word of a frame and the pair of size and opcode determine each other
  (`Frame.head_eq_ok_iff`).
* A buffer of words is told part by part: what one store does to it (`toList_set_eq`), and what the front
  of it is (`toList_extract_zero`).
-/

namespace ShaderBinary
namespace Word

theorem toNat_ofOctets_cons (octet : UInt8) (later : List UInt8) :
    (ofOctets (octet :: later)).toNat =
      (ofOctets later).toNat % 2 ^ 24 * 2 ^ 8 + octet.toNat := by
  have hstep : ofOctets (octet :: later) = (ofOctets later <<< 8) ||| octet.toUInt32 := rfl
  have hshift : (ofOctets later <<< 8).toNat = (ofOctets later).toNat % 2 ^ 24 * 2 ^ 8 := by
    rw [UInt32.toNat_shiftLeft]
    simp [Nat.shiftLeft_eq]
    omega
  rw [hstep, UInt32.toNat_or, hshift, UInt8.toNat_toUInt32, Nat.mul_comm,
    ← Nat.two_pow_add_eq_or_of_lt octet.toNat_lt]

theorem toNat_octets (w : Word) : w.octets.map UInt8.toNat =
    [w.toNat % 2 ^ 8, w.toNat / 2 ^ 8 % 2 ^ 8, w.toNat / 2 ^ 16 % 2 ^ 8, w.toNat / 2 ^ 24] := by
  have hlt := w.toNat_lt
  simp [octets, Nat.shiftRight_eq_div_pow]
  omega

@[simp] theorem ofOctets_octets (w : Word) : ofOctets w.octets = w := by
  have hlt := w.toNat_lt
  have hoctets := toNat_octets w
  simp only [octets, List.map_cons, List.map_nil, List.cons.injEq, and_true] at hoctets
  obtain ⟨h₀, h₁, h₂, h₃⟩ := hoctets
  apply UInt32.toNat_inj.mp
  simp only [octets, toNat_ofOctets_cons, h₀, h₁, h₂, h₃]
  simp [ofOctets]
  omega

theorem octets_ofOctets_four (a b c d : UInt8) :
    (ofOctets [a, b, c, d]).octets = [a, b, c, d] := by
  have ha := a.toNat_lt
  have hb := b.toNat_lt
  have hc := c.toNat_lt
  have hd := d.toNat_lt
  have hinjective : Function.Injective (List.map UInt8.toNat) :=
    List.map_injective_iff.mpr fun _ _ => UInt8.toNat_inj.mp
  apply hinjective
  rw [toNat_octets]
  simp only [toNat_ofOctets_cons, List.map_cons, List.map_nil, List.cons.injEq, and_true]
  simp [ofOctets]
  omega

/-- Octets that are missing count as zero. -/
theorem octets_ofOctets {given : List UInt8} (h : given.length ≤ 4) :
    (ofOctets given).octets = given ++ List.replicate (4 - given.length) 0 := by
  match given, h with
  | [], _ => rfl
  | [a], _ => exact octets_ofOctets_four a 0 0 0
  | [a, b], _ => exact octets_ofOctets_four a b 0 0
  | [a, b, c], _ => exact octets_ofOctets_four a b c 0
  | [a, b, c, d], _ => exact octets_ofOctets_four a b c d

theorem octets_injective : Function.Injective octets := by
  intro w w' h
  rw [← ofOctets_octets w, h, ofOctets_octets]

end Word

namespace ByteOrder

@[simp] theorem toWord_toOctets (order : ByteOrder) (w : Word) :
    order.toWord (order.toOctets w) = w := by
  cases order <;> simp [toWord, toOctets]

theorem toOctets_toWord (order : ByteOrder) {given : List UInt8} (h : given.length = 4) :
    order.toOctets (order.toWord given) = given := by
  cases order with
  | little => simp [toOctets, toWord, Word.octets_ofOctets (Nat.le_of_eq h), h]
  | big =>
      have hreverse : given.reverse.length = 4 := by rw [List.length_reverse, h]
      simp [toOctets, toWord, Word.octets_ofOctets (Nat.le_of_eq hreverse), h]

/-- Words as they follow one another on a stream. -/
def bytesOf (order : ByteOrder) (words : List Word) : List UInt8 :=
  words.flatMap order.toOctets

variable (order : ByteOrder)

@[simp] theorem bytesOf_nil : order.bytesOf [] = [] := rfl

@[simp] theorem bytesOf_cons (w : Word) (later : List Word) :
    order.bytesOf (w :: later) = order.toOctets w ++ order.bytesOf later := rfl

@[simp] theorem bytesOf_append (earlier later : List Word) :
    order.bytesOf (earlier ++ later) = order.bytesOf earlier ++ order.bytesOf later :=
  List.flatMap_append

@[simp] theorem length_bytesOf (words : List Word) :
    (order.bytesOf words).length = 4 * words.length := by
  induction words with
  | nil => rfl
  | cons w later ih =>
      rw [bytesOf_cons, List.length_append, length_toOctets, ih, List.length_cons]
      omega

theorem take_bytesOf_append (words : List Word) (rest : List UInt8) (more : Nat) :
    (order.bytesOf words ++ rest).take (4 * words.length + more) =
      order.bytesOf words ++ rest.take more := by
  rw [← length_bytesOf, List.take_length_add_append]

/-- The words that bytes are made of. Bytes after the last whole word are left out. -/
def wordsOf : List UInt8 → List Word
  | b₀ :: b₁ :: b₂ :: b₃ :: later => order.toWord [b₀, b₁, b₂, b₃] :: wordsOf later
  | _ => []

theorem wordsOf_append {first : List UInt8} (h : first.length = 4) (later : List UInt8) :
    order.wordsOf (first ++ later) = order.toWord first :: order.wordsOf later := by
  match first, h with
  | [_, _, _, _], _ => rfl

theorem wordsOf_bytesOf_append (words : List Word) (rest : List UInt8) :
    order.wordsOf (order.bytesOf words ++ rest) = words ++ order.wordsOf rest := by
  induction words with
  | nil => rfl
  | cons w later ih =>
      rw [bytesOf_cons, List.append_assoc, wordsOf_append order (length_toOctets order w),
        toWord_toOctets, ih, List.cons_append]

@[simp] theorem wordsOf_bytesOf (words : List Word) : order.wordsOf (order.bytesOf words) = words := by
  have h := order.wordsOf_bytesOf_append words []
  rw [List.append_nil] at h
  exact h.trans (List.append_nil words)

theorem length_wordsOf (bytes : List UInt8) : (order.wordsOf bytes).length = bytes.length / 4 := by
  fun_induction wordsOf order bytes with
  | case1 b₀ b₁ b₂ b₃ later ih => simp only [List.length_cons, ih]; omega
  | case2 bytes hshort =>
      rcases bytes with _ | ⟨b₀, _ | ⟨b₁, _ | ⟨b₂, _ | ⟨b₃, later⟩⟩⟩⟩
      case cons.cons.cons.cons => exact absurd rfl (hshort b₀ b₁ b₂ b₃ later)
      all_goals simp

theorem bytesOf_injective : Function.Injective order.bytesOf :=
  Function.LeftInverse.injective order.wordsOf_bytesOf

/-- Every sequence of bytes of the right length is made of words. -/
theorem exists_bytesOf {bytes : List UInt8} {count : Nat} (h : bytes.length = 4 * count) :
    ∃ words, words.length = count ∧ bytes = order.bytesOf words := by
  induction count generalizing bytes with
  | zero => exact ⟨[], rfl, List.eq_nil_of_length_eq_zero h⟩
  | succ count ih =>
      have hfirst : (bytes.take 4).length = 4 := by rw [List.length_take]; omega
      have hlater : (bytes.drop 4).length = 4 * count := by rw [List.length_drop]; omega
      obtain ⟨words, hlength, hwords⟩ := ih hlater
      refine ⟨order.toWord (bytes.take 4) :: words, by rw [List.length_cons, hlength], ?_⟩
      rw [bytesOf_cons, toOctets_toWord order hfirst, ← hwords, List.take_append_drop]

/-- Bytes that are long enough start with words. -/
theorem exists_bytesOf_append {bytes : List UInt8} {count : Nat} (h : 4 * count ≤ bytes.length) :
    ∃ words left, words.length = count ∧ bytes = order.bytesOf words ++ left := by
  have hfront : (bytes.take (4 * count)).length = 4 * count := by
    rw [List.length_take]
    omega
  obtain ⟨words, hlength, hwords⟩ := order.exists_bytesOf hfront
  refine ⟨words, bytes.drop (4 * count), hlength, ?_⟩
  rw [← hwords, List.take_append_drop]

end ByteOrder

/-! ## First words -/

namespace Frame

/-- The words start with one that announces as many words as there are. -/
def Announced (words : List Word) : Prop :=
  ∃ first later, words = first :: later ∧ wordsOf first = later.length + 1

/-- Words can be cut into frames in one way only. -/
theorem eq_of_flatten_eq {frames others : List (List Word)}
    (hframes : ∀ frame ∈ frames, Announced frame) (hothers : ∀ frame ∈ others, Announced frame)
    (h : frames.flatten = others.flatten) : frames = others := by
  induction frames generalizing others with
  | nil =>
      cases others with
      | nil => rfl
      | cons other others =>
          obtain ⟨first, later, rfl, -⟩ := hothers other List.mem_cons_self
          cases h
  | cons frame frames ih =>
      obtain ⟨first, later, rfl, hsize⟩ := hframes frame List.mem_cons_self
      cases others with
      | nil => cases h
      | cons other others =>
          obtain ⟨first', later', rfl, hsize'⟩ := hothers other List.mem_cons_self
          rw [List.flatten_cons, List.flatten_cons, List.cons_append, List.cons_append] at h
          obtain ⟨rfl, hrest⟩ := List.cons.inj h
          obtain ⟨rfl, hflatten⟩ := List.append_inj hrest (by omega)
          rw [ih (fun frame hframe => hframes frame (List.mem_cons_of_mem _ hframe))
            (fun frame hframe => hothers frame (List.mem_cons_of_mem _ hframe)) hflatten]

theorem wordsOf_le (first : Word) : wordsOf first ≤ maxWords := by
  have hlt := first.toNat_lt
  simp [wordsOf, maxWords, Nat.shiftRight_eq_div_pow]
  omega

/-- The number of words and the opcode are all there is to a first word. -/
theorem toNat_eq (first : Word) :
    first.toNat = wordsOf first * 2 ^ 16 + (opcodeOf first).toNat := by
  simp [wordsOf, opcodeOf, Nat.shiftRight_eq_div_pow]
  omega

/-- A first word can be made for every size from one to the maximum, and holds the size and the
opcode. -/
theorem head_eq_ok_iff {words : Nat} {opcode : Opcode} {first : Word} :
    head words opcode = .ok first ↔
      1 ≤ words ∧ wordsOf first = words ∧ opcodeOf first = opcode := by
  have hopcode := opcode.toNat_lt
  by_cases hsize : words < 1 ∨ maxWords < words
  · have hle := wordsOf_le first
    rw [head, if_pos hsize]
    simp only [reduceCtorEq, false_iff]
    rintro ⟨hpositive, rfl, -⟩
    omega
  · rw [head, if_neg hsize, Except.ok.injEq]
    unfold maxWords at hsize
    have hvalue : ((words.toUInt32 <<< 16) ||| opcode.toUInt32).toNat =
        words * 2 ^ 16 + opcode.toNat := by
      have hshift : (words.toUInt32 <<< 16).toNat = words * 2 ^ 16 := by
        simp [UInt32.toNat_shiftLeft, Nat.shiftLeft_eq]
        omega
      rw [UInt32.toNat_or, hshift, UInt16.toNat_toUInt32, Nat.mul_comm,
        ← Nat.two_pow_add_eq_or_of_lt hopcode]
    constructor
    · rintro rfl
      have hparts := toNat_eq ((words.toUInt32 <<< 16) ||| opcode.toUInt32)
      have hlow := (opcodeOf ((words.toUInt32 <<< 16) ||| opcode.toUInt32)).toNat_lt
      rw [hvalue] at hparts
      refine ⟨by omega, by omega, UInt16.toNat_inj.mp (by omega)⟩
    · rintro ⟨-, rfl, rfl⟩
      apply UInt32.toNat_inj.mp
      rw [hvalue, ← toNat_eq]

theorem head_eq_error_of_lt {words : Nat} (opcode : Opcode) (hlt : maxWords < words) :
    head words opcode = .error (.badSize words) := by
  rw [head, if_pos (.inr hlt)]

end Frame

/-! ## Buffers -/

section Buffer

variable {size : Nat}

/-- A store changes nothing in front of its position, and nothing behind it. -/
theorem toList_set_eq {position : Nat} (buffer : Vector Word size) (w : Word) (h : position < size) :
    (buffer.set position w h).toList =
      buffer.toList.take position ++ w :: buffer.toList.drop (position + 1) := by
  rw [Vector.toList_set, List.set_eq_take_append_cons_drop,
    if_pos (by rw [Vector.length_toList]; exact h)]

theorem toList_extract_zero (buffer : Vector Word size) (count : Nat) :
    (buffer.toArray.extract 0 count).toList = buffer.toList.take count := by
  rw [Array.toList_extract, List.extract_eq_take_drop, Nat.sub_zero, List.drop_zero]
  rfl

end Buffer

end ShaderBinary
