import Mathlib.Data.List.Forall2
import ShaderBinary.Proofs.Word

/-!
# Padding octets

Some octets of a module carry nothing: those behind the terminator of a text, in its last word. This
module says what a sequence of words looks like with its padding cleared.

* A list of numbers tells for one word after another how many of its octets are padding; these are its
  most significant ones. `clearPadding` sets them to zero.
* `ByteOrder.paddingMask` tells the same of the bytes that the words are laid out as, and `clearBytes`
  sets the marked ones to zero. `ByteOrder.bytesOf_clearPadding` says that this is the same.
* `Terminated`: where there is padding, the octet before it is a terminator. On the bytes this is
  `ByteOrder.terminator_of_paddingMask`.
-/

namespace ShaderBinary

namespace Word

/-- The word with its `padding` most significant octets set to zero. -/
def clear (padding : Nat) (w : Word) : Word :=
  ofOctets (w.octets.take (4 - padding))

@[simp] theorem clear_zero (w : Word) : clear 0 w = w := by
  unfold clear
  rw [List.take_of_length_le (Nat.le_of_eq w.length_octets), ofOctets_octets]

theorem octets_clear {padding : Nat} (h : padding ≤ 4) (w : Word) :
    (clear padding w).octets = w.octets.take (4 - padding) ++ List.replicate padding 0 := by
  have hlength : (w.octets.take (4 - padding)).length = 4 - padding := by
    rw [List.length_take, length_octets]
    omega
  have hpadding : 4 - (4 - padding) = padding := by omega
  unfold clear
  rw [octets_ofOctets (by omega), hlength, hpadding]

end Word

/-- The words with their padding set to zero. -/
def clearPadding (padding : List Nat) (words : List Word) : List Word :=
  List.zipWith Word.clear padding words

theorem clearPadding_append {padding more : List Nat} {words others : List Word}
    (h : padding.length = words.length) :
    clearPadding (padding ++ more) (words ++ others) =
      clearPadding padding words ++ clearPadding more others :=
  List.zipWith_append h

/-- The second words are the first ones with their padding set to zero. -/
structure ClearsTo (padding : List Nat) (words cleared : List Word) : Prop where
  length_eq : padding.length = words.length
  clearPadding_eq : clearPadding padding words = cleared

theorem ClearsTo.length_cleared {padding : List Nat} {words cleared : List Word}
    (h : ClearsTo padding words cleared) : words.length = cleared.length := by
  rw [← h.clearPadding_eq, clearPadding, List.length_zipWith, h.length_eq, Nat.min_self]

theorem ClearsTo.nil : ClearsTo [] [] [] := ⟨rfl, rfl⟩

/-- A word without padding. -/
theorem ClearsTo.single (w : Word) : ClearsTo [0] [w] [w] :=
  ⟨rfl, congrArg (· :: []) w.clear_zero⟩

theorem ClearsTo.append {padding more : List Nat} {words cleared others clearedOthers : List Word}
    (first : ClearsTo padding words cleared) (second : ClearsTo more others clearedOthers) :
    ClearsTo (padding ++ more) (words ++ others) (cleared ++ clearedOthers) := by
  constructor
  · rw [List.length_append, List.length_append, first.length_eq, second.length_eq]
  · rw [clearPadding_append first.length_eq, first.clearPadding_eq, second.clearPadding_eq]

/-- Words without padding. -/
theorem ClearsTo.whole (words : List Word) :
    ClearsTo (List.replicate words.length 0) words words := by
  induction words with
  | nil => exact .nil
  | cons w later ih => exact (ClearsTo.single w).append ih

/-- In a word with padding, the octet before the padding is zero: it ends the text that the padding is
behind. -/
def Terminated (padding : List Nat) (words : List Word) : Prop :=
  List.Forall₂ (fun p w => 0 < p → w.octets[3 - p]? = some 0) padding words

theorem Terminated.nil : Terminated [] [] := List.Forall₂.nil

/-- A word without padding. -/
theorem Terminated.single (w : Word) : Terminated [0] [w] :=
  .cons (fun h => absurd h (Nat.lt_irrefl 0)) .nil

theorem Terminated.append {padding more : List Nat} {words others : List Word}
    (first : Terminated padding words) (second : Terminated more others) :
    Terminated (padding ++ more) (words ++ others) :=
  List.rel_append first second

/-- The bytes with the marked ones set to zero. -/
def clearBytes (mask : List Bool) (bytes : List UInt8) : List UInt8 :=
  List.zipWith (fun padding byte => if padding then 0 else byte) mask bytes

theorem clearBytes_append {mask more : List Bool} {bytes others : List UInt8}
    (h : mask.length = bytes.length) :
    clearBytes (mask ++ more) (bytes ++ others) =
      clearBytes mask bytes ++ clearBytes more others :=
  List.zipWith_append h

theorem clearBytes_replicate_false (bytes : List UInt8) :
    clearBytes (List.replicate bytes.length false) bytes = bytes := by
  induction bytes with
  | nil => rfl
  | cons byte later ih => exact congrArg (byte :: ·) ih

theorem clearBytes_replicate_true (bytes : List UInt8) :
    clearBytes (List.replicate bytes.length true) bytes = List.replicate bytes.length 0 := by
  induction bytes with
  | nil => rfl
  | cons byte later ih => exact congrArg ((0 : UInt8) :: ·) ih

theorem length_clearBytes {mask : List Bool} {bytes : List UInt8}
    (h : mask.length = bytes.length) : (clearBytes mask bytes).length = bytes.length := by
  rw [clearBytes, List.length_zipWith, h, Nat.min_self]

/-- A byte that is not marked stays. -/
theorem getElem?_clearBytes_of_false {mask : List Bool} (bytes : List UInt8) {i : Nat}
    (h : mask[i]? = some false) : (clearBytes mask bytes)[i]? = bytes[i]? := by
  rw [clearBytes, List.getElem?_zipWith, h]
  cases bytes[i]? <;> rfl

/-- A byte that is marked becomes zero. -/
theorem getElem?_clearBytes_of_true {mask : List Bool} {bytes : List UInt8}
    (hlength : mask.length = bytes.length) {i : Nat} (h : mask[i]? = some true) :
    (clearBytes mask bytes)[i]? = some 0 := by
  obtain ⟨hi, -⟩ := List.getElem?_eq_some_iff.mp h
  rw [clearBytes, List.getElem?_zipWith, h, List.getElem?_eq_getElem (hlength ▸ hi)]
  rfl

/-- Clearing changes nothing exactly if all that is marked is zero already. -/
theorem clearBytes_eq_self_iff {mask : List Bool} {bytes : List UInt8}
    (h : mask.length = bytes.length) :
    clearBytes mask bytes = bytes ↔ ∀ i : Nat, mask[i]? = some true → bytes[i]? = some 0 := by
  induction mask generalizing bytes with
  | nil =>
      rw [List.eq_nil_of_length_eq_zero h.symm]
      simp [clearBytes]
  | cons padding later ih =>
      cases bytes with
      | nil => cases h
      | cons byte more =>
          have hlater := ih (Nat.succ.inj h)
          rw [clearBytes, List.zipWith_cons_cons, List.cons.injEq]
          change _ ∧ clearBytes later more = more ↔ _
          rw [hlater]
          constructor
          · rintro ⟨hbyte, hmore⟩ i hi
            cases i with
            | zero => simp_all
            | succ i => exact hmore i hi
          · intro hall
            refine ⟨?_, fun i hi => hall (i + 1) hi⟩
            cases padding with
            | false => rfl
            | true => exact (Option.some.inj (hall 0 rfl)).symm

namespace ByteOrder

/-- Which of the four bytes of a word are padding. -/
def wordMask : ByteOrder → Nat → List Bool
  | little, padding => List.replicate (4 - padding) false ++ List.replicate padding true
  | big, padding => List.replicate padding true ++ List.replicate (4 - padding) false

/-- Which of the bytes of words are padding. -/
def paddingMask (order : ByteOrder) (padding : List Nat) : List Bool :=
  padding.flatMap order.wordMask

variable (order : ByteOrder)

theorem length_wordMask {padding : Nat} (h : padding ≤ 4) : (order.wordMask padding).length = 4 := by
  cases order <;> simp [wordMask] <;> omega

theorem toOctets_clear {padding : Nat} (h : padding ≤ 4) (w : Word) :
    order.toOctets (w.clear padding) = clearBytes (order.wordMask padding) (order.toOctets w) := by
  obtain ⟨kept, cleared, hsplit, hkept, hcleared⟩ : ∃ kept cleared,
      w.octets = kept ++ cleared ∧ kept.length = 4 - padding ∧ cleared.length = padding := by
    refine ⟨_, _, (List.take_append_drop (4 - padding) w.octets).symm, ?_, ?_⟩
    · rw [List.length_take, Word.length_octets]
      omega
    · rw [List.length_drop, Word.length_octets]
      omega
  have hoctets : (w.clear padding).octets = kept ++ List.replicate padding 0 := by
    rw [Word.octets_clear h, hsplit, List.take_append_of_le_length (by omega),
      List.take_of_length_le (by omega)]
  -- The padding stands last or first, because the most significant octets do.
  cases order with
  | little =>
      simp only [toOctets, wordMask, hoctets, hsplit]
      rw [clearBytes_append (by rw [List.length_replicate, hkept]), ← hkept, ← hcleared,
        clearBytes_replicate_false, clearBytes_replicate_true]
  | big =>
      have hfirst := clearBytes_replicate_true cleared.reverse
      have hrest := clearBytes_replicate_false kept.reverse
      rw [List.length_reverse, hcleared] at hfirst
      rw [List.length_reverse, hkept] at hrest
      simp only [toOctets, wordMask, hoctets, hsplit, List.reverse_append, List.reverse_replicate]
      rw [clearBytes_append (by rw [List.length_replicate, List.length_reverse, hcleared]), hfirst,
        hrest]

theorem bytesOf_clearPadding {padding : List Nat} {words : List Word}
    (h : padding.length = words.length) (hle : ∀ p ∈ padding, p ≤ 4) :
    order.bytesOf (clearPadding padding words) =
      clearBytes (order.paddingMask padding) (order.bytesOf words) := by
  induction padding generalizing words with
  | nil =>
      rw [List.eq_nil_of_length_eq_zero h.symm]
      rfl
  | cons first later ih =>
      cases words with
      | nil => cases h
      | cons w more =>
          have hfirst := hle first List.mem_cons_self
          have hlater := ih (Nat.succ.inj h) fun p hp => hle p (List.mem_cons_of_mem _ hp)
          rw [clearPadding, List.zipWith_cons_cons, bytesOf_cons, toOctets_clear order hfirst,
            bytesOf_cons, paddingMask, List.flatMap_cons,
            clearBytes_append (by rw [length_wordMask order hfirst, length_toOctets])]
          exact congrArg (clearBytes (order.wordMask first) (order.toOctets w) ++ ·) hlater

/-- Whether the first of two bytes of a word is the less significant one, by their positions. -/
def Below : ByteOrder → Nat → Nat → Prop
  | little, t, i => t < i
  | big, t, i => i < t

theorem terminator_of_wordMask {p : Nat} (hle : p ≤ 3) {w : Word}
    (hw : 0 < p → w.octets[3 - p]? = some 0) {i : Nat}
    (hi : (order.wordMask p)[i]? = some true) :
    ∃ t < 4, order.Below t i ∧ (order.wordMask p)[t]? = some false ∧
      (order.toOctets w)[t]? = some 0 := by
  -- The terminator stands next to the padding, on the side of the less significant bytes.
  cases order with
  | little =>
      have hpadding : 4 - p ≤ i ∧ 0 < p := by
        simp only [wordMask, List.getElem?_append, List.length_replicate,
          List.getElem?_replicate] at hi
        split at hi
        · cases hi
        · split at hi
          · omega
          · cases hi
      refine ⟨3 - p, by omega, show 3 - p < i by omega, ?_, hw hpadding.2⟩
      rw [wordMask, List.getElem?_append_left (by rw [List.length_replicate]; omega),
        List.getElem?_replicate, if_pos (by omega)]
  | big =>
      have hpadding : i < p := by
        simp only [wordMask, List.getElem?_append, List.length_replicate,
          List.getElem?_replicate] at hi
        split at hi
        · assumption
        · split at hi <;> cases hi
      refine ⟨p, by omega, hpadding, ?_, ?_⟩
      · rw [wordMask, List.getElem?_append_right (Nat.le_of_eq List.length_replicate),
          List.length_replicate, List.getElem?_replicate, if_pos (by omega)]
      · have hreverse : w.octets.length - 1 - p = 3 - p := by rw [Word.length_octets]
        rw [toOctets, List.getElem?_reverse (by rw [Word.length_octets]; omega), hreverse]
        exact hw (by omega)

/-- A padding byte shares its word with a zero byte that is less significant and no padding. -/
theorem terminator_of_paddingMask {padding : List Nat} {words : List Word}
    (hle : ∀ p ∈ padding, p ≤ 3) (h : Terminated padding words) {i : Nat}
    (hi : (order.paddingMask padding)[i]? = some true) :
    ∃ t, t / 4 = i / 4 ∧ order.Below t i ∧ (order.paddingMask padding)[t]? = some false ∧
      (order.bytesOf words)[t]? = some 0 := by
  induction h generalizing i with
  | nil => cases hi
  | @cons p w later more hw hlater ih =>
      have hp := hle p List.mem_cons_self
      have hmask := length_wordMask order (show p ≤ 4 by omega)
      rw [paddingMask, List.flatMap_cons] at hi
      by_cases hfour : i < 4
      · rw [List.getElem?_append_left (by omega)] at hi
        obtain ⟨t, ht, hbelow, hfalse, hzero⟩ := terminator_of_wordMask order hp hw hi
        refine ⟨t, by omega, hbelow, ?_, ?_⟩
        · rw [paddingMask, List.flatMap_cons, List.getElem?_append_left (by omega), hfalse]
        · rw [bytesOf_cons, List.getElem?_append_left (by rw [length_toOctets]; exact ht), hzero]
      · rw [List.getElem?_append_right (by omega), hmask] at hi
        obtain ⟨t, ht, hbelow, hfalse, hzero⟩ :=
          ih (fun p hp => hle p (List.mem_cons_of_mem _ hp)) hi
        refine ⟨t + 4, by omega, ?_, ?_, ?_⟩
        · cases order <;> simp only [Below] at hbelow ⊢ <;> omega
        · rw [paddingMask, List.flatMap_cons, List.getElem?_append_right (by omega), hmask,
            Nat.add_sub_cancel]
          exact hfalse
        · rw [bytesOf_cons, List.getElem?_append_right (by rw [length_toOctets]; omega),
            length_toOctets, Nat.add_sub_cancel, hzero]

theorem length_paddingMask {padding : List Nat} (hle : ∀ p ∈ padding, p ≤ 4) :
    (order.paddingMask padding).length = 4 * padding.length := by
  induction padding with
  | nil => rfl
  | cons first later ih =>
      rw [paddingMask, List.flatMap_cons, List.length_append,
        length_wordMask order (hle first List.mem_cons_self), List.length_cons]
      have hlater := ih fun p hp => hle p (List.mem_cons_of_mem _ hp)
      unfold paddingMask at hlater
      omega

end ByteOrder

end ShaderBinary
