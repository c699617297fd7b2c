import Mathlib.Data.List.Basic
import ShaderBinary.Operand.Objection

/-!
# What a check of an operand finds

`Shape.Sound` says what is asked of an operand, down to every element of a list and both components of a
pair. `Shape.FirstObjection` says which objection an operand meets with that is not sound: the least
element of a list counts, and the first component of a pair before the second. Neither mentions how an
operand is looked through. `Shape.objection?_eq_none_iff` and `Shape.objection?_eq_some_iff` say that this
is what `Shape.objection?` answers.

What comes first in a list is `FirstWithout`, for bytes, elements, operands and instructions alike.
-/

namespace ShaderBinary

/-! ## The first value without a property -/

/-- The value at this index does not have the property, and all values before it do. -/
structure FirstWithout {α : Type} (property : α → Prop) (values : List α) (index : Nat)
    (value : α) : Prop where
  getElem?_eq : values[index]? = some value
  fails : ¬property value
  before : ∀ i < index, ∀ earlier, values[i]? = some earlier → property earlier

section FirstWithout

variable {α β : Type} {property : α → Prop} {first value : α} {later values : List α} {index : Nat}

theorem firstWithout_nil : ¬FirstWithout property [] index value := by
  intro h
  cases h.getElem?_eq

theorem firstWithout_cons_iff : FirstWithout property (first :: later) index value ↔
    (¬property first ∧ index = 0 ∧ value = first) ∨
      property first ∧ ∃ i, index = i + 1 ∧ FirstWithout property later i value := by
  constructor
  · rintro ⟨hget, hfails, hbefore⟩
    cases index with
    | zero =>
        obtain rfl : first = value := by simpa using hget
        exact .inl ⟨hfails, rfl, rfl⟩
    | succ i =>
        refine .inr ⟨hbefore 0 (Nat.succ_pos i) first rfl, i, rfl, ?_, hfails, fun j hj => ?_⟩
        · simpa using hget
        · intro earlier hearlier
          exact hbefore (j + 1) (Nat.succ_lt_succ hj) earlier (by simpa using hearlier)
  · rintro (⟨hfails, rfl, rfl⟩ | ⟨hfirst, i, rfl, hget, hfails, hbefore⟩)
    · exact ⟨rfl, hfails, fun _ hi => absurd hi (Nat.not_lt_zero _)⟩
    · refine ⟨by simpa using hget, hfails, fun j hj earlier hearlier => ?_⟩
      cases j with
      | zero =>
          obtain rfl : first = earlier := by simpa using hearlier
          exact hfirst
      | succ j => exact hbefore j (Nat.lt_of_succ_lt_succ hj) earlier (by simpa using hearlier)

/-- A search that passes over the values with a property ends at the first one without it. -/
theorem findSome?_eq_some_iff_firstWithout {f : α → Option β}
    (hf : ∀ value, f value = none ↔ property value) {found : β} :
    values.findSome? f = some found ↔
      ∃ index value, FirstWithout property values index value ∧ f value = some found := by
  induction values with
  | nil =>
      constructor
      · intro h
        cases h
      · rintro ⟨_, _, h, -⟩
        exact (firstWithout_nil h).elim
  | cons first later ih =>
      rw [List.findSome?_cons]
      simp only [firstWithout_cons_iff]
      cases hfirst : f first with
      | none =>
          have hproperty := (hf first).mp hfirst
          simp only [ih]
          constructor
          · rintro ⟨i, value, h, hvalue⟩
            exact ⟨i + 1, value, .inr ⟨hproperty, i, rfl, h⟩, hvalue⟩
          · rintro ⟨_, value, ⟨hfails, -⟩ | ⟨-, i, rfl, h⟩, hvalue⟩
            · exact absurd hproperty hfails
            · exact ⟨i, value, h, hvalue⟩
      | some other =>
          have hfails : ¬property first := by
            rw [← hf first, hfirst]
            exact nofun
          constructor
          · rintro ⟨⟩
            exact ⟨0, first, .inl ⟨hfails, rfl, rfl⟩, hfirst⟩
          · rintro ⟨_, _, ⟨-, rfl, rfl⟩ | ⟨hproperty, -⟩, hvalue⟩
            · rw [← hvalue, hfirst]
            · exact absurd hproperty hfails

/-- The first zero among bytes. -/
theorem findIdx?_eq_some_iff_firstWithout {bytes : List UInt8} :
    bytes.findIdx? (· = 0) = some index ↔ FirstWithout (· ≠ 0) bytes index 0 := by
  rw [List.findIdx?_eq_some_iff_getElem]
  constructor
  · rintro ⟨hlt, hzero, hbefore⟩
    refine ⟨?_, by simp, fun i hi earlier hearlier => ?_⟩
    · rw [List.getElem?_eq_getElem hlt, of_decide_eq_true hzero]
    · obtain ⟨-, rfl⟩ := List.getElem?_eq_some_iff.mp hearlier
      exact fun hearly => hbefore i hi (decide_eq_true hearly)
  · rintro ⟨hget, -, hbefore⟩
    obtain ⟨hlt, hzero⟩ := List.getElem?_eq_some_iff.mp hget
    refine ⟨hlt, decide_eq_true hzero, fun i hi hearly => ?_⟩
    exact hbefore i hi _ (List.getElem?_eq_getElem (Nat.lt_trans hi hlt)) (of_decide_eq_true hearly)

end FirstWithout

namespace Operand

/-! ## Vocabularies and flag sets -/

theorem Selector.isSome_name?_iff {vocabulary : Vocabulary} (choice : Selector vocabulary) :
    choice.name?.isSome = true ↔ ∃ entry ∈ vocabulary.entries, entry.2 = choice.raw := by
  rw [Selector.name?, Vocabulary.nameOf?, Option.isSome_map, List.find?_isSome]
  simp only [beq_iff_eq]

/-- The bit is set in one of the flags. -/
def FlagSet.Names (flagSet : FlagSet) (bit : Nat) : Prop :=
  ∃ flag ∈ flagSet.flags, flag.2.toBitVec.getLsbD bit = true

theorem FlagSet.getLsbD_known_iff (flagSet : FlagSet) (bit : Nat) :
    flagSet.known.toBitVec.getLsbD bit = true ↔ flagSet.Names bit := by
  have hfold (flags : List (String × Word)) (start : Word) :
      (flags.foldl (fun bits flag => bits ||| flag.2) start).toBitVec.getLsbD bit = true ↔
        start.toBitVec.getLsbD bit = true ∨ ∃ flag ∈ flags, flag.2.toBitVec.getLsbD bit = true := by
    induction flags generalizing start with
    | nil => simp
    | cons flag later ih =>
        rw [List.foldl_cons, ih]
        simp [or_assoc]
  rw [FlagSet.known, hfold]
  simp [FlagSet.Names]

/-- A mask has no unknown bits exactly if each of its bits is set in a flag. -/
theorem Mask.unknown_eq_zero_iff {flagSet : FlagSet} (flags : Mask flagSet) :
    flags.unknown = 0 ↔ ∀ bit, flags.bits.toBitVec.getLsbD bit = true → flagSet.Names bit := by
  simp only [← FlagSet.getLsbD_known_iff]
  rw [← UInt32.toBitVec_inj, Mask.unknown]
  constructor
  · intro h bit hbit
    have hzero := congrArg (BitVec.getLsbD · bit) h
    have hlt := BitVec.lt_of_getLsbD hbit
    simpa [hbit, hlt] using hzero
  · intro h
    refine BitVec.eq_of_getLsbD_eq fun bit hlt => ?_
    have hknown := h bit
    simp only [UInt32.toBitVec_and, UInt32.toBitVec_not, BitVec.getLsbD_and, BitVec.getLsbD_not]
    cases hbit : flags.bits.toBitVec.getLsbD bit with
    | false => simp
    | true => simp [hknown hbit]

namespace Shape

/-! ## Operands -/

/-- Nothing is wrong with the operand on its own, nor with anything in it. -/
def Sound : (shape : Shape) → shape.Value → Prop
  | .word, _ => True
  | .id, reference => reference.number ≠ 0
  | .text, string => 0 ∉ Text.bytes string
  | .selector vocabulary, choice => ∃ entry ∈ vocabulary.entries, entry.2 = choice.raw
  | .mask flagSet, flags => ∀ bit, flags.bits.toBitVec.getLsbD bit = true → flagSet.Names bit
  | .optional _, none => True
  | .optional inner, some value => inner.Sound value
  | .list element, values => ∀ value ∈ values, element.Sound value
  | .pair first second, (a, b) => first.Sound a ∧ second.Sound b

/-- The operand is not sound, and this is the first objection to it. -/
def FirstObjection : (shape : Shape) → shape.Value → Objection → Prop
  | .word, _, _ => False
  | .id, reference, objection => reference.number = 0 ∧ objection = .zeroId
  | .text, string, objection =>
    ∃ index, FirstWithout (· ≠ 0) (Text.bytes string) index 0 ∧ objection = .nulAt index
  | .selector vocabulary, choice, objection =>
    ¬(selector vocabulary).Sound choice ∧ objection = .unlisted choice.raw vocabulary.name
  | .mask flagSet, flags, objection =>
    ¬(mask flagSet).Sound flags ∧ objection = .unknownFlags flags.bits flagSet.name
  | .optional _, none, _ => False
  | .optional inner, some value, objection => inner.FirstObjection value objection
  | .list element, values, objection =>
    ∃ index value inner, FirstWithout element.Sound values index value ∧
      element.FirstObjection value inner ∧ objection = .inElement index inner
  | .pair first second, (a, b), objection =>
    first.FirstObjection a objection ∨ first.Sound a ∧ second.FirstObjection b objection

end Shape

theorem listObjection?_eq_none_iff {α : Type} {objection? : α → Option Objection} {index : Nat}
    {values : List α} :
    listObjection? objection? index values = none ↔ ∀ value ∈ values, objection? value = none := by
  induction values generalizing index with
  | nil => simp [listObjection?]
  | cons first later ih =>
      unfold listObjection?
      cases hfirst : objection? first with
      | none => simp [ih, hfirst]
      | some objection => simp [hfirst]

/-- The positions in a list are counted from `start`. -/
theorem listObjection?_eq_some_iff {α : Type} {objection? : α → Option Objection}
    {property : α → Prop} (hobjection : ∀ value, objection? value = none ↔ property value)
    {start : Nat} {values : List α} {objection : Objection} :
    listObjection? objection? start values = some objection ↔
      ∃ index value inner, FirstWithout property values index value ∧
        objection? value = some inner ∧ objection = .inElement (start + index) inner := by
  induction values generalizing start with
  | nil =>
      constructor
      · intro h
        cases h
      · rintro ⟨_, _, _, h, -⟩
        exact (firstWithout_nil h).elim
  | cons first later ih =>
      unfold listObjection?
      simp only [firstWithout_cons_iff]
      cases hfirst : objection? first with
      | none =>
          have hproperty := (hobjection first).mp hfirst
          simp only [ih]
          constructor
          · rintro ⟨i, value, inner, h, hvalue, rfl⟩
            exact ⟨i + 1, value, inner, .inr ⟨hproperty, i, rfl, h⟩, hvalue,
              by rw [Nat.add_assoc, Nat.add_comm 1]⟩
          · rintro ⟨_, value, inner, ⟨hfails, -⟩ | ⟨-, i, rfl, h⟩, hvalue, rfl⟩
            · exact absurd hproperty hfails
            · exact ⟨i, value, inner, h, hvalue, by rw [Nat.add_assoc, Nat.add_comm 1]⟩
      | some other =>
          have hfails : ¬property first := by
            rw [← hobjection first, hfirst]
            exact nofun
          constructor
          · rintro ⟨⟩
            exact ⟨0, first, other, .inl ⟨hfails, rfl, rfl⟩, hfirst, rfl⟩
          · rintro ⟨_, _, inner, ⟨-, rfl, rfl⟩ | ⟨hproperty, -⟩, hvalue, rfl⟩
            · obtain rfl : other = inner := Option.some.inj (hfirst.symm.trans hvalue)
              rfl
            · exact absurd hproperty hfails

namespace Shape

/-- Exactly what is sound is not objected to. -/
theorem objection?_eq_none_iff (shape : Shape) (value : shape.Value) :
    shape.objection? value = none ↔ shape.Sound value := by
  induction shape with
  | word => simp [objection?, Sound]
  | id => simp [objection?, Sound]
  | text =>
      rw [objection?, Option.map_eq_none_iff, List.findIdx?_eq_none_iff, Sound]
      constructor
      · intro h hzero
        simpa using h 0 hzero
      · intro h byte hbyte
        exact decide_eq_false fun hzero => h (hzero ▸ hbyte)
  | selector vocabulary =>
      simp only [objection?, Sound, ← Selector.isSome_name?_iff]
      split <;> simp_all
  | mask flagSet =>
      simp only [objection?, Sound, ← Mask.unknown_eq_zero_iff]
      split <;> simp_all
  | optional inner ih =>
      cases value with
      | none => simp [objection?, Sound]
      | some value => exact ih value
  | list element ih =>
      rw [objection?, listObjection?_eq_none_iff, Sound]
      simp only [ih]
  | pair first second ihFirst ihSecond =>
      obtain ⟨a, b⟩ := value
      rw [Sound, ← ihFirst, ← ihSecond, objection?]
      cases first.objection? a <;> simp

/-- What is objected to first is the first objection. -/
theorem objection?_eq_some_iff (shape : Shape) (value : shape.Value) (objection : Objection) :
    shape.objection? value = some objection ↔ shape.FirstObjection value objection := by
  induction shape generalizing objection with
  | word => simp [objection?, FirstObjection]
  | id =>
      simp only [objection?, FirstObjection, Option.ite_none_right_eq_some, Option.some.injEq,
        @eq_comm _ objection]
  | text =>
      simp only [objection?, FirstObjection, Option.map_eq_some_iff,
        findIdx?_eq_some_iff_firstWithout, @eq_comm _ objection]
  | selector vocabulary =>
      simp only [objection?, FirstObjection, Sound, ← Selector.isSome_name?_iff,
        Option.ite_none_left_eq_some, Option.some.injEq, @eq_comm _ objection]
  | mask flagSet =>
      simp only [objection?, FirstObjection, Sound, ← Mask.unknown_eq_zero_iff,
        Option.ite_none_left_eq_some, Option.some.injEq, @eq_comm _ objection]
  | optional inner ih =>
      cases value with
      | none => simp [objection?, FirstObjection]
      | some value => exact ih value objection
  | list element ih =>
      rw [objection?, listObjection?_eq_some_iff element.objection?_eq_none_iff, FirstObjection]
      simp only [ih, Nat.zero_add]
  | pair first second ihFirst ihSecond =>
      obtain ⟨a, b⟩ := value
      rw [FirstObjection, ← ihFirst, ← ihSecond, ← objection?_eq_none_iff, objection?]
      cases first.objection? a <;> simp

end Shape

end Operand
end ShaderBinary
