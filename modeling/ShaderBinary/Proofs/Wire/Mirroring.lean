import ShaderBinary.Proofs.Wire.Items

/-!
# The opposite byte order

`reverseWords` turns every four bytes around, and leaves those behind the last whole word as they are. Done
twice it changes nothing. In the opposite byte order the bytes are then made of the same words
(`reverseWords_bytesOf_append`), and they are cut into the same frames, or fail to be in the same way
(`items_reverseWords`).
-/

namespace ShaderBinary

/-! ## Words -/

namespace Word

theorem octets_reverseOctets (w : Word) : w.reverseOctets.octets = w.octets.reverse := by
  have hlength : w.octets.reverse.length = 4 := rfl
  rw [reverseOctets, octets_ofOctets (Nat.le_of_eq hlength), hlength]
  exact List.append_nil _

@[simp] theorem reverseOctets_reverseOctets (w : Word) : w.reverseOctets.reverseOctets = w := by
  apply octets_injective
  rw [octets_reverseOctets, octets_reverseOctets, List.reverse_reverse]

end Word

namespace ByteOrder

/-- The other byte order. -/
def opposite : ByteOrder → ByteOrder
  | little => big
  | big => little

@[simp] theorem opposite_opposite (order : ByteOrder) : order.opposite.opposite = order := by
  cases order <;> rfl

theorem toOctets_opposite (order : ByteOrder) (w : Word) :
    order.opposite.toOctets w = (order.toOctets w).reverse := by
  cases order with
  | little => rfl
  | big => exact (List.reverse_reverse _).symm

theorem toOctets_reverseOctets (order : ByteOrder) (w : Word) :
    order.toOctets w.reverseOctets = (order.toOctets w).reverse := by
  cases order with
  | little => exact w.octets_reverseOctets
  | big => exact congrArg List.reverse w.octets_reverseOctets

end ByteOrder

namespace Wire

/-! ## Bytes -/

/-- The bytes with every four of them in the opposite order. Bytes behind the last whole word stay as they
are. -/
def reverseWords : List UInt8 → List UInt8
  | b₀ :: b₁ :: b₂ :: b₃ :: later => b₃ :: b₂ :: b₁ :: b₀ :: reverseWords later
  | partWord => partWord

theorem reverseWords_append {first : List UInt8} (h : first.length = 4) (later : List UInt8) :
    reverseWords (first ++ later) = first.reverse ++ reverseWords later := by
  match first, h with
  | [_, _, _, _], _ => rfl

theorem reverseWords_of_lt {bytes : List UInt8} (h : bytes.length < 4) : reverseWords bytes = bytes := by
  match bytes, h with
  | [], _ | [_], _ | [_, _], _ | [_, _, _], _ => rfl

@[simp] theorem length_reverseWords (bytes : List UInt8) :
    (reverseWords bytes).length = bytes.length := by
  fun_induction reverseWords bytes with
  | case1 b₀ b₁ b₂ b₃ later ih => simp only [List.length_cons, ih]
  | case2 => rfl

@[simp] theorem reverseWords_reverseWords (bytes : List UInt8) :
    reverseWords (reverseWords bytes) = bytes := by
  fun_induction reverseWords bytes with
  | case1 b₀ b₁ b₂ b₃ later ih => rw [reverseWords, ih]
  | case2 bytes hshort => rw [reverseWords.eq_2 bytes hshort]

/-- In the opposite byte order the bytes are made of the same words. -/
theorem reverseWords_bytesOf_append (order : ByteOrder) (words : List Word) (rest : List UInt8) :
    reverseWords (order.bytesOf words ++ rest) =
      order.opposite.bytesOf words ++ reverseWords rest := by
  induction words with
  | nil => rfl
  | cons w later ih =>
      rw [ByteOrder.bytesOf_cons, List.append_assoc,
        reverseWords_append (ByteOrder.length_toOctets _ _), ih, ByteOrder.bytesOf_cons,
        ByteOrder.toOctets_opposite, List.append_assoc]

theorem reverseWords_bytesOf (order : ByteOrder) (words : List Word) :
    reverseWords (order.bytesOf words) = order.opposite.bytesOf words := by
  have h := reverseWords_bytesOf_append order words []
  rw [List.append_nil] at h
  exact h.trans (List.append_nil _)

/-! ## Items -/

variable {order : ByteOrder} {bytes left : List UInt8} {item : Item}

/-- The item of the opposite byte order. -/
def Item.mirrored : Item → Item
  | frame words => .frame words
  | empty first => .empty first
  | short bytes => .short (reverseWords bytes)

theorem Item.words_mirrored (item : Item) : item.mirrored.words = item.words := by
  cases item <;> rfl

theorem Item.Starts.mirrored (h : Item.Starts order bytes item left) :
    Item.Starts order.opposite (reverseWords bytes) item.mirrored (reverseWords left) := by
  cases h with
  | frame left h =>
      rw [reverseWords_bytesOf_append]
      exact .frame _ h
  | empty left h =>
      rw [reverseWords_bytesOf_append]
      exact .empty _ h
  | partWord hne h =>
      -- Bytes that do not make a word stay as they are.
      rw [Item.mirrored, reverseWords_of_lt h]
      exact .partWord hne h
  | partFrame hcount h =>
      rw [Item.mirrored, reverseWords_bytesOf_append]
      exact .partFrame hcount (by rwa [length_reverseWords])

/-- In the opposite byte order the bytes are cut into the same items. -/
theorem items_reverseWords (order : ByteOrder) (bytes : List UInt8) :
    items order.opposite (reverseWords bytes) = (items order bytes).map Item.mirrored := by
  induction bytes using items_induction order with
  | nil =>
      rw [items_nil]
      exact items_nil _
  | starts bytes item left hstarts ih =>
      rw [items_of_starts hstarts, items_of_starts hstarts.mirrored, ih, List.map_cons]

end Wire
end ShaderBinary
