import ShaderBinary.Proofs.Wire.Delivery

/-!
# Reading from a source until it is exhausted

`Input.Holds` says which bytes an input still has before it is exhausted, and `Input.Advances` that it has
been read until some of them were left. `takeBytes?` is what a read answers on plain bytes,
`Input.bytes?_of_holds` says that an input answers the same and keeps what is left, and the lemmas after
it say so for words.
-/

namespace ShaderBinary
namespace Wire

/-! ## Bytes -/

/-- What a read of `count` bytes answers, and what it leaves. -/
def takeBytes? (count : Nat) (bytes : List UInt8) :
    Except Failure (Option (List UInt8)) × List UInt8 :=
  if count ≤ bytes.length then (.ok (some (bytes.take count)), bytes.drop count)
  else if bytes.isEmpty then (.ok none, [])
  else (.error .truncated, [])

namespace Input

/-- These bytes are what an input still has before it is exhausted. -/
structure Holds (input : Input) (bytes : List UInt8) : Prop where
  exhausted : input.source.ending = .exhausted
  delivers : Delivers input.source.arrivals bytes

/-- An input has been read until `left` was left of its bytes. -/
structure Advances (input next : Input) (bytes left : List UInt8) : Prop where
  holds : next.Holds left
  order_eq : next.order = input.order
  offset_add : next.offset + left.length = input.offset + bytes.length

variable {input next last : Input} {bytes left : List UInt8}

theorem Advances.trans {rest : List UInt8} (first : input.Advances next bytes left)
    (second : next.Advances last left rest) : input.Advances last bytes rest :=
  ⟨second.holds, second.order_eq.trans first.order_eq,
    second.offset_add.trans first.offset_add⟩

/-- The byte order plays no part in what is left. -/
theorem Holds.withOrder (h : input.Holds bytes) (order : ByteOrder) :
    Holds { input with order := order } bytes :=
  ⟨h.exhausted, h.delivers⟩

theorem Holds.presents (h : input.Holds bytes) :
    input.Presents ⟨bytes, .exhausted, input.order, input.offset⟩ :=
  ⟨h.delivers, .inl rfl, h.exhausted, rfl, rfl⟩

theorem Presents.advances {offset : Nat}
    (h : next.Presents ⟨left, .exhausted, input.order, offset⟩)
    (hoffset : offset + left.length = input.offset + bytes.length) :
    input.Advances next bytes left :=
  ⟨⟨h.ending_eq, h.delivers⟩, h.order_eq, by rw [h.offset_eq]; exact hoffset⟩

theorem bytes?_of_holds (h : input.Holds bytes) (count : Nat) :
    ∃ next, input.bytes? count = ((takeBytes? count bytes).1, next) ∧
      input.Advances next bytes (takeBytes? count bytes).2 := by
  obtain ⟨next, hread, hnext⟩ := bytes?_of_presents h.presents count
  refine ⟨next, ?_⟩
  rw [hread]
  unfold Plain.bytes? at hnext ⊢
  unfold takeBytes?
  by_cases hle : count ≤ bytes.length
  · rw [Plain.take?_of_le (by rw [Nat.mul_one]; exact hle)] at hnext ⊢
    rw [if_pos hle, Nat.mul_one]
    rw [Nat.mul_one] at hnext
    refine ⟨rfl, hnext.advances ?_⟩
    simp only [List.length_drop]
    omega
  · rw [Plain.take?_of_lt (by rw [Nat.mul_one]; exact Nat.lt_of_not_le hle)] at hnext ⊢
    rw [if_neg hle]
    cases bytes <;> exact ⟨rfl, hnext.advances rfl⟩

theorem bytes?_append {count : Nat} {first : List UInt8} (hcount : first.length = count)
    (h : input.Holds (first ++ left)) :
    ∃ next, input.bytes? count = (.ok (some first), next) ∧
      input.Advances next (first ++ left) left := by
  have htake : takeBytes? count (first ++ left) = (.ok (some first), left) := by
    have hle : count ≤ (first ++ left).length := by
      rw [List.length_append]
      omega
    rw [takeBytes?, if_pos hle, ← hcount, List.take_left, List.drop_left]
  obtain ⟨next, hread, hadvances⟩ := bytes?_of_holds h count
  rw [htake] at hread hadvances
  exact ⟨next, hread, hadvances⟩

/-! ## Words -/

/-- Words that are there are read. -/
theorem words?_append {words : List Word} (h : input.Holds (input.order.bytesOf words ++ left)) :
    ∃ next, input.words? words.length = (.ok (some words), next) ∧
      input.Advances next (input.order.bytesOf words ++ left) left := by
  have hlength := input.order.length_bytesOf words
  obtain ⟨next, hread, hnext⟩ := words?_of_presents h.presents words.length
  rw [Plain.words?, Plain.take?_of_le (by rw [List.length_append, hlength]; omega)]
    at hread hnext
  simp only [List.take_left' hlength, List.drop_left' hlength, ByteOrder.wordsOf_bytesOf]
    at hread hnext
  refine ⟨next, hread, hnext.advances ?_⟩
  rw [List.length_append, hlength, Nat.add_assoc]

/-- If there are fewer bytes than the words take, none are left. Only a read of nothing at all is no
failure. -/
theorem words?_of_lt {count : Nat} (hlt : bytes.length < 4 * count) (h : input.Holds bytes) :
    ∃ next, input.words? count = (if bytes.isEmpty then .ok none else .error .truncated, next) ∧
      input.Advances next bytes [] := by
  obtain ⟨next, hread, hnext⟩ := words?_of_presents h.presents count
  rw [Plain.words?, Plain.take?_of_lt hlt] at hread hnext
  refine ⟨next, ?_, ?_⟩
  · rw [hread]
    cases bytes <;> rfl
  · cases bytes <;> exact hnext.advances rfl

theorem words_append {words : List Word} (h : input.Holds (input.order.bytesOf words ++ left)) :
    ∃ next, input.words words.length = (.ok words, next) ∧
      input.Advances next (input.order.bytesOf words ++ left) left := by
  obtain ⟨next, hread, hadvances⟩ := words?_append h
  exact ⟨next, by rw [Input.words, hread], hadvances⟩

theorem words_of_lt {count : Nat} (hlt : bytes.length < 4 * count) (h : input.Holds bytes) :
    ∃ next, input.words count = (.error .truncated, next) ∧ input.Advances next bytes [] := by
  obtain ⟨next, hread, hadvances⟩ := words?_of_lt hlt h
  refine ⟨next, ?_, hadvances⟩
  rw [Input.words, hread]
  cases bytes <;> rfl

end Input
end Wire
end ShaderBinary
