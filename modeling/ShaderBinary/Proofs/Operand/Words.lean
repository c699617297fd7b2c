import ShaderBinary.Operand.Words
import ShaderBinary.Proofs.Text.Packing

/-!
# The words of an operand

`Shape.words` is what an operand looks like in a module, without a buffer and a cursor.
`Shape.write_eq` says that writing an operand puts exactly these words at the cursor, and
`Cursor.putAll_of_le` what a buffer looks like afterwards. `Shape.padding` tells which octets of the
words carry nothing.
-/

namespace ShaderBinary
namespace Operand

/-! ## Words and padding -/

namespace Shape

/-- The words that an operand is written as. -/
def words : (shape : Shape) → shape.Value → List Word
  | .word, w => [w]
  | .id, reference => [reference.number]
  | .text, string => Text.pack (Text.bytes string)
  | .selector _, choice => [choice.raw]
  | .mask _, flags => [flags.bits]
  | .optional _, none => []
  | .optional inner, some value => inner.words value
  | .list element, values => values.flatMap element.words
  | .pair first second, (a, b) => first.words a ++ second.words b

/-- How many octets of each word of an operand are padding. -/
def padding : (shape : Shape) → shape.Value → List Nat
  | .word, _ => [0]
  | .id, _ => [0]
  | .text, string => Text.padding (Text.bytes string).length
  | .selector _, _ => [0]
  | .mask _, _ => [0]
  | .optional _, none => []
  | .optional inner, some value => inner.padding value
  | .list element, values => values.flatMap element.padding
  | .pair first second, (a, b) => first.padding a ++ second.padding b

theorem length_words (shape : Shape) (value : shape.Value) :
    (shape.words value).length = shape.wordCount value := by
  induction shape with
  | word | id | selector | mask => rfl
  | text => exact Text.length_pack_bytes value
  | optional inner ih =>
      cases value with
      | none => rfl
      | some value => exact ih value
  | list element ih =>
      rw [words, wordCount]
      induction value with
      | nil => rfl
      | cons first later ihLater =>
          rw [List.flatMap_cons, List.length_append, ih, ihLater, List.foldr_cons]
  | pair first second ihFirst ihSecond =>
      rw [words, List.length_append, wordCount, ihFirst, ihSecond]

theorem length_padding (shape : Shape) (value : shape.Value) :
    (shape.padding value).length = (shape.words value).length := by
  induction shape with
  | word | id | selector | mask => rfl
  | text => rw [padding, words, Text.length_padding, Text.length_pack]
  | optional inner ih =>
      cases value with
      | none => rfl
      | some value => exact ih value
  | list element ih =>
      rw [padding, words, List.length_flatMap, List.length_flatMap]
      exact congrArg List.sum (List.map_congr_left fun value _ => ih value)
  | pair first second ihFirst ihSecond =>
      rw [padding, words, List.length_append, List.length_append, ihFirst, ihSecond]

/-- The terminator of a text is never padding. -/
theorem padding_le (shape : Shape) (value : shape.Value) : ∀ p ∈ shape.padding value, p ≤ 3 := by
  induction shape with
  | word | id | selector | mask => simp [padding]
  | text => exact fun p hp => Text.padding_le hp
  | optional inner ih =>
      cases value with
      | none => simp [padding]
      | some value => exact ih value
  | list element ih =>
      intro p hp
      obtain ⟨value, -, hvalue⟩ := List.mem_flatMap.mp hp
      exact ih value p hvalue
  | pair first second ihFirst ihSecond =>
      intro p hp
      rcases List.mem_append.mp hp with hfirst | hsecond
      · exact ihFirst value.1 p hfirst
      · exact ihSecond value.2 p hsecond

/-- The padding of an operand is behind the terminators of its texts. -/
theorem terminated (shape : Shape) (value : shape.Value) :
    Terminated (shape.padding value) (shape.words value) := by
  induction shape with
  | word | id | selector | mask => exact .single _
  | text => exact Text.terminated_pack _
  | optional inner ih =>
      cases value with
      | none => exact .nil
      | some value => exact ih value
  | list element ih =>
      rw [padding, words]
      induction value with
      | nil => exact .nil
      | cons first later ihLater => exact (ih first).append ihLater
  | pair first second ihFirst ihSecond => exact (ihFirst value.1).append (ihSecond value.2)

end Shape

/-! ## Writing -/

variable {size : Nat}

theorem Cursor.putAll_cons (w : Word) (later : List Word) (cursor : Cursor size) :
    cursor.putAll (w :: later) = (cursor.put w).bind fun next => next.putAll later := by
  rw [Cursor.putAll, writeList]
  cases cursor.put w <;> rfl

theorem Cursor.putAll_append (earlier later : List Word) (cursor : Cursor size) :
    cursor.putAll (earlier ++ later) =
      (cursor.putAll earlier).bind fun next => next.putAll later := by
  induction earlier generalizing cursor with
  | nil => rfl
  | cons w earlier ih =>
      rw [List.cons_append, putAll_cons, putAll_cons, Option.bind_assoc]
      exact Option.bind_congr fun next _ => ih next

theorem Cursor.putAll_singleton (w : Word) (cursor : Cursor size) :
    cursor.putAll [w] = cursor.put w := by
  rw [putAll_cons]
  cases cursor.put w <;> rfl

/-- Writing an operand is writing its words. -/
theorem Shape.write_eq (shape : Shape) (value : shape.Value) (cursor : Cursor size) :
    shape.write value cursor = cursor.putAll (shape.words value) := by
  induction shape generalizing cursor with
  | word | id | selector | mask => exact (Cursor.putAll_singleton _ cursor).symm
  | text => rfl
  | optional inner ih =>
      cases value with
      | none => rfl
      | some value => exact ih value cursor
  | list element ih =>
      rw [Shape.write, Shape.words]
      induction value generalizing cursor with
      | nil => rfl
      | cons value later ihLater =>
          rw [List.flatMap_cons, Cursor.putAll_append, writeList, ih]
          cases cursor.putAll (element.words value) with
          | none => rfl
          | some next => exact ihLater next
  | pair first second ihFirst ihSecond =>
      rw [Shape.write, Shape.words, Cursor.putAll_append, ihFirst]
      cases cursor.putAll (first.words value.1) with
      | none => rfl
      | some next => exact ihSecond value.2 next

/-- Words for which there is room go where the cursor stands, and nothing else changes. -/
theorem Cursor.putAll_of_le (words : List Word) (cursor : Cursor size)
    (h : cursor.position + words.length ≤ size) :
    ∃ next, cursor.putAll words = some next ∧
      next.position = cursor.position + words.length ∧
      next.buffer.toList = cursor.buffer.toList.take cursor.position ++ words ++
        cursor.buffer.toList.drop (cursor.position + words.length) := by
  induction words generalizing cursor with
  | nil => exact ⟨cursor, rfl, rfl, by simp⟩
  | cons w later ih =>
      obtain ⟨buffer, position⟩ := cursor
      rw [List.length_cons] at h
      simp only at h
      have hroom : position < size := by omega
      have hput : Cursor.put w ⟨buffer, position⟩ =
          some ⟨buffer.set position w hroom, position + 1⟩ := dif_pos hroom
      obtain ⟨next, hnext, hposition, hbuffer⟩ :=
        ih ⟨buffer.set position w hroom, position + 1⟩ (by simp only; omega)
      refine ⟨next, by rw [putAll_cons, hput]; exact hnext, ?_, ?_⟩
      · rw [hposition, List.length_cons]
        simp only
        omega
      · have htake : (buffer.toList.take position).length = position := by
          rw [List.length_take, Vector.length_toList]
          omega
        have hfront : (buffer.toList.take position ++ [w]).length = position + 1 := by
          rw [List.length_append, htake, List.length_singleton]
        have hdrop (back : List Word) : (buffer.toList.take position ++ [w] ++ back).drop
            (position + 1 + later.length) = back.drop later.length := by
          rw [← hfront, List.drop_length_add_append]
        have hend : position + (later.length + 1) = position + 1 + later.length := by omega
        rw [hbuffer, toList_set_eq, List.append_cons, hdrop, List.take_left' hfront, List.drop_drop,
          List.length_cons, hend, List.append_assoc, List.append_assoc, List.append_assoc,
          List.singleton_append, List.cons_append]

theorem Cursor.put_of_lt (w : Word) {cursor : Cursor size} (h : cursor.position < size) :
    ∃ next, cursor.put w = some next ∧ next.position = cursor.position + 1 :=
  ⟨⟨cursor.buffer.set cursor.position w h, cursor.position + 1⟩, dif_pos h, rfl⟩

/-- Words cannot be written exactly if there are more of them than places behind the cursor. -/
theorem Cursor.putAll_eq_none_iff (words : List Word) (cursor : Cursor size) :
    cursor.putAll words = none ↔ size - cursor.position < words.length := by
  induction words generalizing cursor with
  | nil => simp [putAll, writeList]
  | cons w later ih =>
      rw [putAll_cons, List.length_cons]
      by_cases hroom : cursor.position < size
      · obtain ⟨next, hput, hposition⟩ := Cursor.put_of_lt w hroom
        rw [hput, Option.bind_some, ih, hposition]
        omega
      · have hput : cursor.put w = none := dif_neg hroom
        simp only [hput, Option.bind_none, true_iff]
        omega

/-- Writing words moves the cursor behind them. -/
theorem Cursor.position_of_putAll {words : List Word} {cursor next : Cursor size}
    (h : cursor.putAll words = some next) : next.position = cursor.position + words.length := by
  cases words with
  | nil => cases h; rfl
  | cons w later =>
      have hroom : (w :: later).length ≤ size - cursor.position := by
        by_contra hfull
        rw [(putAll_eq_none_iff _ _).mpr (Nat.lt_of_not_le hfull)] at h
        cases h
      rw [List.length_cons] at hroom
      obtain ⟨found, hfound, hposition, -⟩ := Cursor.putAll_of_le (w :: later) cursor
        (by rw [List.length_cons]; omega)
      cases h.symm.trans hfound
      exact hposition

end Operand
end ShaderBinary
