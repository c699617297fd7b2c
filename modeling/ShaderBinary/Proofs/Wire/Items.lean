import ShaderBinary.Failure
import ShaderBinary.Proofs.Word

/-!
# Cutting bytes into items

From the front on, bytes are cut into frames. Where no frame stands there is either a first word that
announces no words, which is passed over on its own, or a rest that is too short, which is passed over as a
whole. `items` lists what bytes are cut into.

`Starts` says what it means that an item stands at the front. Every sequence of bytes starts with one item
(`starts_first`), so that nothing has to be said about `items` but what follows from the front.
-/

namespace ShaderBinary
namespace Wire

/-- What bytes are cut into. -/
inductive Item
  /-- A frame of as many words as its first word announces. -/
  | frame (words : List Word)
  /-- A first word that announces no words. -/
  | empty (first : Word)
  /-- The last bytes, which are fewer than the first word announces or do not make one word. -/
  | short (bytes : List UInt8)
deriving DecidableEq

namespace Item

/-- How many bytes the item takes. -/
def size : Item → Nat
  | frame words => 4 * words.length
  | empty _ => 4
  | short bytes => bytes.length

/-- The words of the item, if it is a frame, and else what is wrong with it. -/
def words : Item → Except Failure (List Word)
  | frame words => .ok words
  | empty _ => .error (.badSize 0)
  | short _ => .error .truncated

/-- The item at the front of bytes that are not used up. -/
def first (order : ByteOrder) (bytes : List UInt8) : Item :=
  match order.wordsOf bytes with
  | [] => .short bytes
  | first :: later =>
    if Frame.wordsOf first = 0 then .empty first
    else if (first :: later).length < Frame.wordsOf first then .short bytes
    else .frame ((first :: later).take (Frame.wordsOf first))

/-- The bytes start with the item, and others are left behind it. -/
inductive Starts (order : ByteOrder) : List UInt8 → Item → List UInt8 → Prop
  | frame {words : List Word} (left : List UInt8) (h : Frame.Announced words) :
      Starts order (order.bytesOf words ++ left) (.frame words) left
  | empty {first : Word} (left : List UInt8) (h : Frame.wordsOf first = 0) :
      Starts order (order.bytesOf [first] ++ left) (.empty first) left
  | partWord {bytes : List UInt8} (hne : bytes ≠ []) (h : bytes.length < 4) :
      Starts order bytes (.short bytes) []
  | partFrame {first : Word} {count : Nat} {rest : List UInt8}
      (hcount : Frame.wordsOf first = count + 1) (h : rest.length < 4 * count) :
      Starts order (order.bytesOf [first] ++ rest) (.short (order.bytesOf [first] ++ rest)) []

variable {order : ByteOrder} {bytes left : List UInt8} {item : Item}

theorem Starts.ne_nil (h : Starts order bytes item left) : bytes ≠ [] := by
  cases h with
  | frame left h =>
      obtain ⟨first, later, rfl, -⟩ := h
      exact fun hnil => by simpa using congrArg List.length hnil
  | empty left h => exact fun hnil => by simpa using congrArg List.length hnil
  | partWord hne h => exact hne
  | partFrame hcount h => exact fun hnil => by simpa using congrArg List.length hnil

theorem Starts.size_add (h : Starts order bytes item left) :
    item.size + left.length = bytes.length := by
  cases h <;> simp [size]

theorem Starts.size_pos (h : Starts order bytes item left) : 0 < item.size := by
  cases h with
  | frame left h =>
      obtain ⟨first, later, rfl, -⟩ := h
      exact Nat.mul_pos (by decide) (Nat.succ_pos _)
  | empty left h => exact Nat.succ_pos _
  | partWord hne h => exact List.length_pos_iff.mpr hne
  | partFrame hcount h =>
      simp only [size, List.length_append, ByteOrder.length_bytesOf, List.length_singleton]
      omega

theorem Starts.drop_size (h : Starts order bytes item left) : bytes.drop item.size = left := by
  cases h with
  | frame left h => exact List.drop_left' (order.length_bytesOf _)
  | empty left h => exact List.drop_left' (order.length_bytesOf _)
  | partWord hne h => exact List.drop_length
  | partFrame hcount h => exact List.drop_length

theorem starts_first (order : ByteOrder) (hne : bytes ≠ []) :
    Starts order bytes (first order bytes) (bytes.drop (first order bytes).size) := by
  suffices h : ∃ left, Starts order bytes (first order bytes) left by
    obtain ⟨left, h⟩ := h
    rwa [h.drop_size]
  have hlength := order.length_wordsOf bytes
  unfold first
  cases hwords : order.wordsOf bytes with
  | nil =>
      rw [hwords, List.length_nil] at hlength
      exact ⟨[], .partWord hne (by omega)⟩
  | cons first later =>
      rw [hwords, List.length_cons] at hlength
      obtain ⟨front, rest, hfront, rfl⟩ := order.exists_bytesOf_append
        (show 4 * 1 ≤ bytes.length by omega)
      obtain ⟨w, rfl⟩ := List.length_eq_one_iff.mp hfront
      rw [ByteOrder.wordsOf_bytesOf_append, List.singleton_append] at hwords
      obtain ⟨rfl, rfl⟩ := List.cons.inj hwords
      rw [order.length_wordsOf] at hlength
      simp only [List.length_cons, order.length_wordsOf]
      cases hcount : Frame.wordsOf w with
      | zero => exact ⟨rest, .empty rest hcount⟩
      | succ count =>
          by_cases hrest : rest.length < 4 * count
          · rw [if_neg (by omega), if_pos (by omega)]
            exact ⟨[], .partFrame hcount hrest⟩
          · -- All the words are there, and the front of them is the frame.
            obtain ⟨more, left, hmore, rfl⟩ :=
              order.exists_bytesOf_append (Nat.le_of_not_lt hrest)
            rw [if_neg (by omega), if_neg (by omega), ByteOrder.wordsOf_bytesOf_append,
              List.take_succ_cons, List.take_left' hmore, ← List.append_assoc,
              ← ByteOrder.bytesOf_append, List.singleton_append]
            exact ⟨left, .frame left ⟨w, more, rfl, by rw [hcount, hmore]⟩⟩

theorem Starts.first_eq (h : Starts order bytes item left) : first order bytes = item := by
  unfold first
  cases h with
  | frame left h =>
      obtain ⟨w, later, rfl, hsize⟩ := h
      simp only [ByteOrder.wordsOf_bytesOf_append, List.cons_append, hsize, List.length_cons,
        List.length_append, List.take_succ_cons, List.take_left]
      rw [if_neg (by omega), if_neg (by omega)]
  | empty left h => simp only [ByteOrder.wordsOf_bytesOf_append, List.cons_append, h, if_true]
  | partWord hne h =>
      have hlength := order.length_wordsOf bytes
      rw [Nat.div_eq_of_lt h] at hlength
      rw [List.eq_nil_of_length_eq_zero hlength]
  | partFrame hcount h =>
      simp only [ByteOrder.wordsOf_bytesOf_append, List.cons_append, List.nil_append, hcount,
        List.length_cons, ByteOrder.length_wordsOf]
      rw [if_neg (by omega), if_pos (by omega)]

end Item

/-- What bytes are cut into, in order. -/
def items (order : ByteOrder) (bytes : List UInt8) : List Item :=
  if bytes = [] then []
  else Item.first order bytes :: items order (bytes.drop (Item.first order bytes).size)
termination_by bytes.length
decreasing_by
  next hne =>
    have hstarts := Item.starts_first order hne
    have hsize := hstarts.size_add
    have hpos := hstarts.size_pos
    omega

variable {order : ByteOrder} {bytes left : List UInt8} {item : Item}

theorem items_nil (order : ByteOrder) : items order [] = [] := by
  rw [items, if_pos rfl]

theorem items_of_starts (h : Item.Starts order bytes item left) :
    items order bytes = item :: items order left := by
  rw [items, if_neg h.ne_nil, h.first_eq, h.drop_size]

/-- What holds of no bytes, and of bytes if it holds of those behind their first item, holds of all
bytes. -/
theorem items_induction (order : ByteOrder) {motive : List UInt8 → Prop} (nil : motive [])
    (starts : ∀ bytes item left, Item.Starts order bytes item left → motive left → motive bytes)
    (bytes : List UInt8) : motive bytes := by
  fun_induction items order bytes with
  | case1 => exact nil
  | case2 bytes hne ih => exact starts _ _ _ (Item.starts_first order hne) ih

theorem items_ne_nil (hne : bytes ≠ []) : items order bytes ≠ [] := by
  rw [items_of_starts (Item.starts_first order hne)]
  exact List.cons_ne_nil _ _

/-- Frames are cut off as they are. -/
theorem items_bytesOf_append {frames : List (List Word)}
    (h : ∀ frame ∈ frames, Frame.Announced frame) (rest : List UInt8) :
    items order (order.bytesOf frames.flatten ++ rest) =
      frames.map Item.frame ++ items order rest := by
  induction frames with
  | nil => rfl
  | cons frame frames ih =>
      rw [List.flatten_cons, ByteOrder.bytesOf_append, List.append_assoc,
        items_of_starts (.frame _ (h frame List.mem_cons_self)),
        ih fun other hother => h other (List.mem_cons_of_mem _ hother)]
      rfl

/-- Bytes that are cut into frames only are made of these frames. -/
theorem items_eq_map_frame_iff {frames : List (List Word)} :
    items order bytes = frames.map Item.frame ↔
      (∀ frame ∈ frames, Frame.Announced frame) ∧ bytes = order.bytesOf frames.flatten := by
  constructor
  · intro h
    induction frames generalizing bytes with
    | nil => exact ⟨by simp, by_contra fun hne => items_ne_nil hne h⟩
    | cons frame frames ih =>
        have hne : bytes ≠ [] := by
          rintro rfl
          rw [items_nil] at h
          cases h
        have hstarts := Item.starts_first order hne
        rw [items_of_starts hstarts, List.map_cons] at h
        obtain ⟨hframe, hrest⟩ := List.cons.inj h
        obtain ⟨hlater, hleft⟩ := ih hrest
        rw [hleft, hframe] at hstarts
        generalize hcut : order.bytesOf frames.flatten = left at hstarts
        cases hstarts with
        | frame left hannounced =>
            refine ⟨List.forall_mem_cons.mpr ⟨hannounced, hlater⟩, ?_⟩
            rw [List.flatten_cons, ByteOrder.bytesOf_append, hcut]
  · rintro ⟨h, rfl⟩
    have hitems : items order (order.bytesOf frames.flatten ++ []) = _ := items_bytesOf_append h []
    rwa [List.append_nil, items_nil, List.append_nil] at hitems

end Wire
end ShaderBinary
