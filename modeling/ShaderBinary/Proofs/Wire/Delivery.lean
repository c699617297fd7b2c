import ShaderBinary.Wire.Input
import ShaderBinary.Proofs.Word

/-!
# Reading from a source that delivers its bytes

A source may bring its bytes in any pieces, with any interruptions between them, and may then be exhausted
or fail. `Delivers` says which bytes arrive.

What is read does not depend on the pieces. A `Plain` reader has its bytes at hand, and answers every
request by counting them: `Plain.take?` is the whole of it. `Input.Presents` says that a plain reader is
what an input amounts to, and `bytes?_of_presents`, `words?_of_presents` and `words_of_presents` that both
then answer alike and leave as much.
-/

namespace ShaderBinary
namespace Wire

/-! ## Sources -/

/-- The arrivals bring these bytes. No piece is empty, unless there is nothing to bring. -/
inductive Delivers : List Arrival → List UInt8 → Prop
  | done : Delivers [] []
  | nothing : Delivers [.piece []] []
  | interruption {later : List Arrival} {bytes : List UInt8} (h : Delivers later bytes) :
      Delivers (.interruption :: later) bytes
  | piece {first rest : List UInt8} {later : List Arrival} (hfirst : first ≠ [])
      (h : Delivers later rest) : Delivers (.piece first :: later) (first ++ rest)

theorem delivers_ofBytes (bytes : List UInt8) : Delivers (Source.ofBytes bytes).arrivals bytes := by
  cases bytes with
  | nil => exact .nothing
  | cons byte later =>
      have h := Delivers.piece (List.cons_ne_nil byte later) .done
      rwa [List.append_nil] at h

theorem size_of_delivers {source : Source} {bytes : List UInt8}
    (h : Delivers source.arrivals bytes) : source.size = bytes.length := by
  rw [Source.size, ← Nat.zero_add bytes.length]
  generalize source.arrivals = arrivals at h ⊢
  generalize 0 = total
  induction h generalizing total with
  | done | nothing => rfl
  | interruption h ih => exact ih total
  | piece hfirst h ih => rw [List.foldl_cons, ih, List.length_append, Nat.add_assoc]

/-- What a source makes of the bytes gathered from it when it has no more to bring. -/
def Ending.conclude : Ending → List UInt8 → Except String (List UInt8)
  | .exhausted, got => .ok got
  | .failing reason, _ => .error reason

/-- A source that fails is not taken for exhausted, as long as no call to it brings an empty piece. -/
def Honest (ending : Ending) (arrivals : List Arrival) : Prop :=
  ending = .exhausted ∨ .piece [] ∉ arrivals

theorem Honest.later {ending : Ending} {first : Arrival} {later : List Arrival}
    (h : Honest ending (first :: later)) : Honest ending later :=
  h.imp_right fun hpieces hmem => hpieces (List.mem_cons_of_mem _ hmem)

/-- Whatever the pieces, as many bytes are gathered as there are. -/
theorem gatherFrom_of_delivers {ending : Ending} {arrivals : List Arrival} {bytes : List UInt8}
    (h : Delivers arrivals bytes) (hhonest : Honest ending arrivals) (room : Nat)
    (got : List UInt8) :
    ∃ left, Source.gatherFrom ending arrivals room got =
        (if room ≤ bytes.length then .ok (got ++ bytes.take room)
          else ending.conclude (got ++ bytes), left) ∧
      Delivers left (bytes.drop room) ∧ Honest ending left := by
  induction h generalizing room got with
  | done =>
      cases room with
      | zero => exact ⟨[], by simp [Source.gatherFrom], .done, hhonest⟩
      | succ room =>
          refine ⟨[], ?_, .done, hhonest⟩
          cases ending <;> simp [Source.gatherFrom, Ending.conclude]
  | nothing =>
      cases room with
      | zero => exact ⟨[.piece []], by simp [Source.gatherFrom], .nothing, hhonest⟩
      | succ room =>
          -- An empty piece looks like the end, and here it is the end.
          obtain rfl : ending = .exhausted := hhonest.resolve_right (by simp)
          exact ⟨[], by simp [Source.gatherFrom, Ending.conclude], .done, .inl rfl⟩
  | interruption h ih =>
      cases room with
      | zero => exact ⟨_, by simp [Source.gatherFrom], .interruption h, hhonest⟩
      | succ room =>
          rw [Source.gatherFrom]
          exact ih hhonest.later (room + 1) got
  | @piece first rest later hfirst h ih =>
      cases room with
      | zero => exact ⟨_, by simp [Source.gatherFrom], .piece hfirst h, hhonest⟩
      | succ room =>
          obtain ⟨byte, others, htake⟩ : ∃ byte others, first.take (room + 1) = byte :: others := by
            obtain ⟨byte, others, rfl⟩ := List.exists_cons_of_ne_nil hfirst
            exact ⟨byte, others.take room, List.take_succ_cons⟩
          rw [Source.gatherFrom, htake]
          cases hdrop : first.drop (room + 1) with
          | nil =>
              -- The piece is used up, and the rest of the room is filled from later ones.
              have hle : first.length ≤ room + 1 := List.drop_eq_nil_iff.mp hdrop
              have hroom : room + 1 - first.length ≤ rest.length ↔
                  room + 1 ≤ (first ++ rest).length := by
                rw [List.length_append]
                omega
              rw [List.take_of_length_le hle] at htake
              obtain ⟨left, hleft, hdelivers, hleftHonest⟩ :=
                ih hhonest.later (room + 1 - first.length) (got ++ first)
              refine ⟨left, ?_, ?_, hleftHonest⟩
              · simp only [← htake]
                simp only [hleft, hroom, List.take_append, List.take_of_length_le hle,
                  List.append_assoc]
              · rwa [List.drop_append, hdrop, List.nil_append]
          | cons next more =>
              -- The piece brings more than there is room for, and what is left of it arrives next.
              have hlt : room + 1 ≤ first.length := by
                by_contra hbeyond
                rw [List.drop_eq_nil_of_le (by omega)] at hdrop
                cases hdrop
              refine ⟨.piece (next :: more) :: later, ?_, ?_, ?_⟩
              · rw [if_pos (by rw [List.length_append]; omega),
                  List.take_append_of_le_length hlt, htake]
              · rw [List.drop_append_of_le_length hlt, hdrop]
                exact .piece (List.cons_ne_nil _ _) h
              · refine hhonest.imp_right fun hpieces hmem => ?_
                rcases List.mem_cons.mp hmem with hempty | hlater
                · cases hempty
                · exact hpieces (List.mem_cons_of_mem _ hlater)

/-! ## Plain readers -/

/-- An input once it does not matter in which pieces its bytes arrive. -/
structure Plain where
  left : List UInt8
  ending : Ending
  order : ByteOrder
  offset : Nat
deriving DecidableEq

namespace Plain

/-- The answer if the bytes do not suffice. An exhausted source gives all of them up, and only if there
were none was this its end. A failing source loses those that make no whole unit of `unit` bytes. -/
def fallShort (unit : Nat) (plain : Plain) : Except Failure (Option (List UInt8)) × Plain :=
  match plain.ending with
  | .exhausted =>
    (if plain.left.isEmpty then .ok none else .error .truncated,
      { plain with left := [], offset := plain.offset + plain.left.length })
  | .failing reason =>
    (.error (.stream reason),
      { plain with left := [], offset := plain.offset + unit * (plain.left.length / unit) })

/-- Takes `count` units of `unit` bytes each, one after another. -/
def take? (unit count : Nat) (plain : Plain) : Except Failure (Option (List UInt8)) × Plain :=
  if unit * count ≤ plain.left.length then
    (.ok (some (plain.left.take (unit * count))),
      { plain with left := plain.left.drop (unit * count), offset := plain.offset + unit * count })
  else plain.fallShort unit

/-- Takes `count` bytes at once. -/
def bytes? (count : Nat) (plain : Plain) : Except Failure (Option (List UInt8)) × Plain :=
  plain.take? count 1

/-- Takes `count` words. -/
def words? (count : Nat) (plain : Plain) : Except Failure (Option (List Word)) × Plain :=
  match plain.take? 4 count with
  | (.error failure, next) => (.error failure, next)
  | (.ok none, next) => (.ok none, next)
  | (.ok (some bytes), next) => (.ok (some (plain.order.wordsOf bytes)), next)

/-- Takes `count` words, and does without an end. -/
def words (count : Nat) (plain : Plain) : Except Failure (List Word) × Plain :=
  match plain.words? count with
  | (.error failure, next) => (.error failure, next)
  | (.ok none, next) => (.error .truncated, next)
  | (.ok (some words), next) => (.ok words, next)

variable {plain : Plain} {unit count : Nat}

theorem take?_of_le (h : unit * count ≤ plain.left.length) : plain.take? unit count =
    (.ok (some (plain.left.take (unit * count))),
      { plain with left := plain.left.drop (unit * count), offset := plain.offset + unit * count }) :=
  if_pos h

theorem take?_of_lt (h : plain.left.length < unit * count) :
    plain.take? unit count = plain.fallShort unit :=
  if_neg (Nat.not_le.mpr h)

/-- What a reader that does without an end makes of one. -/
def required {α : Type} : Except Failure (Option α) → Except Failure α
  | .error failure => .error failure
  | .ok none => .error .truncated
  | .ok (some value) => .ok value

theorem words?_eq (plain : Plain) (count : Nat) : plain.words? count =
    ((plain.take? 4 count).1.map (Option.map plain.order.wordsOf), (plain.take? 4 count).2) := by
  unfold words?
  rcases plain.take? 4 count with ⟨_ | _ | _, next⟩ <;> rfl

theorem words_eq (plain : Plain) (count : Nat) :
    plain.words count = (required (plain.words? count).1, (plain.words? count).2) := by
  unfold words
  rcases plain.words? count with ⟨_ | _ | _, next⟩ <;> rfl

end Plain

/-! ## Inputs as plain readers -/

namespace Input

/-- An input that brings what the plain reader has at hand, and stands where it stands. -/
structure Presents (input : Input) (plain : Plain) : Prop where
  delivers : Delivers input.source.arrivals plain.left
  honest : Honest plain.ending input.source.arrivals
  ending_eq : input.source.ending = plain.ending
  order_eq : input.order = plain.order
  offset_eq : input.offset = plain.offset

variable {input : Input} {plain : Plain}

theorem presents_ofSource {source : Source} {bytes : List UInt8}
    (h : Delivers source.arrivals bytes) (hhonest : Honest source.ending source.arrivals)
    (order : ByteOrder) :
    Presents ⟨source, order, 0⟩ ⟨bytes, source.ending, order, 0⟩ :=
  ⟨h, hhonest, rfl, rfl, rfl⟩

theorem Presents.withOrder (h : input.Presents plain) (order : ByteOrder) :
    Presents { input with order := order } { plain with order := order } :=
  ⟨h.delivers, h.honest, h.ending_eq, rfl, h.offset_eq⟩

theorem bytes?_of_presents (h : input.Presents plain) (count : Nat) :
    ∃ next, input.bytes? count = ((plain.bytes? count).1, next) ∧
      next.Presents (plain.bytes? count).2 := by
  obtain ⟨⟨arrivals, ending⟩, order, offset⟩ := input
  obtain ⟨left, _, _, _⟩ := plain
  obtain ⟨hdelivers, hhonest, rfl, rfl, rfl⟩ := h
  obtain ⟨later, hgather, hlater, hlaterHonest⟩ :=
    gatherFrom_of_delivers hdelivers hhonest count []
  simp only [List.nil_append] at hgather
  unfold bytes? Source.gather Plain.bytes?
  simp only [hgather]
  by_cases hle : count ≤ left.length
  · have htake : (left.take count).length = count := by
      rw [List.length_take]
      omega
    rw [if_pos hle, Plain.take?_of_le (by rw [Nat.mul_one]; exact hle)]
    simp only [htake, if_true, Nat.mul_one]
    exact ⟨_, rfl, hlater, hlaterHonest, rfl, rfl, rfl⟩
  · have hlt : left.length < count := Nat.lt_of_not_le hle
    rw [List.drop_eq_nil_of_le (Nat.le_of_lt hlt)] at hlater
    rw [if_neg hle, Plain.take?_of_lt (by rw [Nat.mul_one]; exact hlt)]
    cases ending with
    | exhausted =>
        simp only [Ending.conclude, Plain.fallShort, if_neg (Nat.ne_of_lt hlt)]
        cases left with
        | nil => exact ⟨_, rfl, hlater, hlaterHonest, rfl, rfl, rfl⟩
        | cons byte others => exact ⟨_, rfl, hlater, hlaterHonest, rfl, rfl, rfl⟩
    | failing reason =>
        -- The bytes gathered so far are lost, and are not counted.
        have hnothing : left.length / count = 0 := Nat.div_eq_of_lt hlt
        simp only [Ending.conclude, Plain.fallShort, hnothing, Nat.mul_zero, Nat.add_zero]
        exact ⟨_, rfl, hlater, hlaterHonest, rfl, rfl, rfl⟩

/-- The words that bytes make up, behind those in `taken`, the last one first. The end of the bytes is a
clean one only if no word was taken before. -/
def wordsFrom (order : ByteOrder) (taken : List Word) :
    Except Failure (Option (List UInt8)) → Except Failure (Option (List Word))
  | .error failure => .error failure
  | .ok none => if taken.isEmpty then .ok none else .error .truncated
  | .ok (some bytes) => .ok (some (taken.reverse ++ order.wordsOf bytes))

/-- Words can be taken one by one. -/
theorem wordsFrom_take?_succ (h : 4 ≤ plain.left.length) (taken : List Word) (count : Nat) :
    (wordsFrom plain.order taken (plain.take? 4 (count + 1)).1, (plain.take? 4 (count + 1)).2) =
      (wordsFrom plain.order (plain.order.toWord (plain.left.take 4) :: taken)
          (Plain.take? 4 count
            { plain with left := plain.left.drop 4, offset := plain.offset + 4 }).1,
        (Plain.take? 4 count
          { plain with left := plain.left.drop 4, offset := plain.offset + 4 }).2) := by
  obtain ⟨left, ending, order, offset⟩ := plain
  simp only at h
  have hfirst : (left.take 4).length = 4 := by
    rw [List.length_take]
    omega
  have hdrop : (left.drop 4).length = left.length - 4 := List.length_drop
  by_cases hle : 4 * (count + 1) ≤ left.length
  · rw [Plain.take?_of_le hle, Plain.take?_of_le (by simp only [hdrop]; omega)]
    have hsize : 4 * (count + 1) = 4 + 4 * count := by omega
    have hwords : order.wordsOf (left.take (4 * (count + 1))) =
        order.toWord (left.take 4) :: order.wordsOf ((left.drop 4).take (4 * count)) := by
      rw [hsize, List.take_add, ByteOrder.wordsOf_append order hfirst]
    simp only [wordsFrom, hwords, List.reverse_cons, List.append_assoc, List.singleton_append]
    simp only [hsize, List.drop_drop, Nat.add_assoc]
  · have hlt : left.length < 4 * (count + 1) := Nat.lt_of_not_le hle
    have hlater : (left.drop 4).length < 4 * count := by omega
    rw [Plain.take?_of_lt hlt, Plain.take?_of_lt hlater]
    cases ending with
    | exhausted =>
        -- There was a word, so that the bytes do not end cleanly, whether or not there are more.
        have hsome : left.isEmpty = false := by
          cases left with
          | nil => simp at h
          | cons byte later => rfl
        have hoffset : offset + 4 + (left.length - 4) = offset + left.length := by omega
        simp only [Plain.fallShort, hsome, hdrop, hoffset]
        cases (left.drop 4).isEmpty <;> rfl
    | failing reason =>
        have hoffset : offset + 4 + 4 * ((left.length - 4) / 4) =
            offset + 4 * (left.length / 4) := by omega
        simp only [Plain.fallShort, wordsFrom, hdrop, hoffset]

theorem wordsAfter_of_presents (h : input.Presents plain) (taken : List Word) (count : Nat) :
    ∃ next, wordsAfter taken count input =
        (wordsFrom plain.order taken (plain.take? 4 count).1, next) ∧
      next.Presents (plain.take? 4 count).2 := by
  induction count generalizing input plain taken with
  | zero =>
      rw [Plain.take?_of_le (Nat.zero_le _)]
      exact ⟨input, by simp [wordsAfter, wordsFrom, ByteOrder.wordsOf], h⟩
  | succ count ih =>
      obtain ⟨next, hread, hnext⟩ := bytes?_of_presents h 4
      unfold Plain.bytes? at hread hnext
      rw [wordsAfter, hread, h.order_eq]
      by_cases hfour : 4 ≤ plain.left.length
      · rw [Plain.take?_of_le (show 4 * 1 ≤ plain.left.length from hfour)] at hnext ⊢
        obtain ⟨last, hlater, hlast⟩ :=
          ih hnext (plain.order.toWord (plain.left.take 4) :: taken)
        obtain ⟨houtcome, hleft⟩ := Prod.mk.inj (wordsFrom_take?_succ hfour taken count)
        exact ⟨last, by rw [houtcome]; exact hlater, by rw [hleft]; exact hlast⟩
      · -- What is left does not make one word, so that it matters no more how many are asked for.
        rw [Plain.take?_of_lt (by omega)] at hnext ⊢
        rw [Plain.take?_of_lt (by omega)]
        refine ⟨next, ?_, hnext⟩
        unfold Plain.fallShort
        cases plain.ending with
        | exhausted => cases plain.left.isEmpty <;> rfl
        | failing reason => rfl

/-- An input is asked for words as a plain reader is. -/
theorem words?_of_presents (h : input.Presents plain) (count : Nat) :
    ∃ next, input.words? count = ((plain.words? count).1, next) ∧
      next.Presents (plain.words? count).2 := by
  obtain ⟨next, hread, hnext⟩ := wordsAfter_of_presents h [] count
  rw [Input.words?, hread, Plain.words?]
  rcases htake : plain.take? 4 count with ⟨failure | _ | bytes, last⟩
  all_goals
    rw [htake] at hnext
    exact ⟨next, rfl, hnext⟩

theorem words_of_presents (h : input.Presents plain) (count : Nat) :
    ∃ next, input.words count = ((plain.words count).1, next) ∧
      next.Presents (plain.words count).2 := by
  obtain ⟨next, hread, hnext⟩ := words?_of_presents h count
  rw [Input.words, hread, Plain.words]
  rcases hwords : plain.words? count with ⟨failure | _ | words, last⟩
  all_goals
    rw [hwords] at hnext
    exact ⟨next, rfl, hnext⟩

end Input

end Wire
end ShaderBinary
