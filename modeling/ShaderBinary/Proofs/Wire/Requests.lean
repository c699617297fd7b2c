import Mathlib.Algebra.GroupWithZero.Nat
import ShaderBinary.Proofs.Wire.Delivery

/-!
# Sequences of requests

A reader is asked for bytes and for words, and told another byte order, in any sequence. `transcript` lists
what it answers, and where it then stands. An input has the transcript of the plain reader it presents
(`Input.transcript_of_presents`).

Words are read one after another, so that a request is a list of `reads`. A source that fails does not count
the bytes of the read it fails in: `completed` adds up those of the reads before it, and
`Input.offset_after_of_presents` says that these are all that an input has counted.
-/

namespace ShaderBinary
namespace Wire

/-- What a reader can be asked for. -/
inductive Request
  | bytes? (count : Nat)
  | words? (count : Nat)
  | words (count : Nat)
  | order (order : ByteOrder)
deriving DecidableEq

/-- What it answers to a request of the same name. -/
inductive Reply
  | bytes? (outcome : Except Failure (Option (List UInt8)))
  | words? (outcome : Except Failure (Option (List Word)))
  | words (outcome : Except Failure (List Word))
  | order
deriving DecidableEq

/-- The replies to one request after another, each with the offset and the byte order after it. -/
def transcript {σ : Type} (answer : Request → σ → Reply × σ) (position : σ → Nat × ByteOrder) :
    List Request → σ → List (Reply × Nat × ByteOrder)
  | [], _ => []
  | request :: later, reader =>
    match answer request reader with
    | (reply, next) => (reply, position next) :: transcript answer position later next

/-- A plain reader answers a request. -/
def Plain.answer (request : Request) (plain : Plain) : Reply × Plain :=
  match request with
  | .bytes? count => (.bytes? (plain.bytes? count).1, (plain.bytes? count).2)
  | .words? count => (.words? (plain.words? count).1, (plain.words? count).2)
  | .words count => (.words (plain.words count).1, (plain.words count).2)
  | .order order => (.order, { plain with order := order })

def Plain.transcript (requests : List Request) (plain : Plain) : List (Reply × Nat × ByteOrder) :=
  Wire.transcript answer (fun reader => (reader.offset, reader.order)) requests plain

namespace Input

/-- An input answers a request. -/
def answer (request : Request) (input : Input) : Reply × Input :=
  match request with
  | .bytes? count => (.bytes? (input.bytes? count).1, (input.bytes? count).2)
  | .words? count => (.words? (input.words? count).1, (input.words? count).2)
  | .words count => (.words (input.words count).1, (input.words count).2)
  | .order order => (.order, { input with order := order })

def transcript (requests : List Request) (input : Input) : List (Reply × Nat × ByteOrder) :=
  Wire.transcript answer (fun reader => (reader.offset, reader.order)) requests input

/-- The input after it was asked for one thing after another. -/
def after (requests : List Request) (input : Input) : Input :=
  requests.foldl (fun reader request => (reader.answer request).2) input

variable {input : Input} {plain : Plain}

theorem answer_of_presents (h : input.Presents plain) (request : Request) :
    ∃ next, input.answer request = ((plain.answer request).1, next) ∧
      next.Presents (plain.answer request).2 := by
  cases request with
  | bytes? count =>
      obtain ⟨next, hread, hnext⟩ := bytes?_of_presents h count
      exact ⟨next, by rw [answer, hread, Plain.answer], hnext⟩
  | words? count =>
      obtain ⟨next, hread, hnext⟩ := words?_of_presents h count
      exact ⟨next, by rw [answer, hread, Plain.answer], hnext⟩
  | words count =>
      obtain ⟨next, hread, hnext⟩ := words_of_presents h count
      exact ⟨next, by rw [answer, hread, Plain.answer], hnext⟩
  | order order => exact ⟨_, rfl, h.withOrder order⟩

theorem transcript_of_presents (h : input.Presents plain) (requests : List Request) :
    input.transcript requests = plain.transcript requests := by
  induction requests generalizing input plain with
  | nil => rfl
  | cons request later ih =>
      obtain ⟨next, hanswer, hnext⟩ := answer_of_presents h request
      have hlater := ih hnext
      unfold transcript Plain.transcript at hlater ⊢
      rw [Wire.transcript, Wire.transcript, hanswer]
      simp only [hlater, hnext.offset_eq, hnext.order_eq]

end Input

/-! ## Reads -/

/-- The sizes of the reads that a request is made of. -/
def Request.reads : Request → List Nat
  | .bytes? count => [count]
  | .words? count | .words count => List.replicate count 4
  | .order _ => []

/-- The bytes of the reads that come to an end, one after another, if so many bytes are available. -/
def completed : (sizes : List Nat) → (available : Nat) → Nat
  | [], _ => 0
  | size :: later, available =>
    if size ≤ available then size + completed later (available - size) else 0

theorem completed_zero (sizes : List Nat) : completed sizes 0 = 0 := by
  induction sizes with
  | nil => rfl
  | cons size later ih =>
      unfold completed
      split
      · next hsize => rw [Nat.le_zero.mp hsize, ih]
      · rfl

/-- The bytes of a read that does not come to an end are not available afterwards. -/
theorem completed_append (earlier later : List Nat) (available : Nat) :
    completed (earlier ++ later) available =
      completed earlier available + completed later (available - earlier.sum) := by
  induction earlier generalizing available with
  | nil => simp [completed]
  | cons size earlier ih =>
      simp only [List.cons_append, List.sum_cons, completed]
      split
      · rw [ih, Nat.add_assoc, Nat.sub_sub]
      · next hsize => rw [show available - (size + earlier.sum) = 0 by omega, completed_zero]

theorem completed_replicate (size count available : Nat) :
    completed (List.replicate count size) available =
      if size * count ≤ available then size * count else size * (available / size) := by
  induction count generalizing available with
  | zero => rfl
  | succ count ih =>
      have hsucc : size * (count + 1) = size * count + size := Nat.mul_succ size count
      rw [List.replicate_succ, completed, ih]
      by_cases hsize : size ≤ available
      · rw [if_pos hsize]
        by_cases hcount : size * count ≤ available - size
        · rw [if_pos hcount, if_pos (by omega), hsucc, Nat.add_comm]
        · have hpos : 0 < size := Nat.pos_of_ne_zero fun hzero => hcount (by simp [hzero])
          rw [if_neg hcount, if_neg (by omega), Nat.div_eq_sub_div hpos hsize, Nat.mul_succ,
            Nat.add_comm]
      · rw [if_neg hsize, if_neg (by omega), Nat.div_eq_of_lt (Nat.lt_of_not_le hsize),
          Nat.mul_zero]

/-! ## Failing sources -/

namespace Plain

variable {plain : Plain} {reason : String}

theorem take?_of_failing (h : plain.ending = .failing reason) (unit count : Nat) :
    (plain.take? unit count).2.ending = .failing reason ∧
      (plain.take? unit count).2.left.length = plain.left.length - unit * count ∧
      (plain.take? unit count).2.offset =
        plain.offset + completed (List.replicate count unit) plain.left.length := by
  rw [completed_replicate]
  by_cases hle : unit * count ≤ plain.left.length
  · rw [take?_of_le hle, if_pos hle]
    exact ⟨h, List.length_drop, rfl⟩
  · have hlt : plain.left.length < unit * count := Nat.lt_of_not_le hle
    rw [take?_of_lt hlt, if_neg hle, fallShort, h]
    exact ⟨rfl, (Nat.sub_eq_zero_of_le (Nat.le_of_lt hlt)).symm, rfl⟩

theorem answer_of_failing (h : plain.ending = .failing reason) (request : Request) :
    (plain.answer request).2.ending = .failing reason ∧
      (plain.answer request).2.left.length = plain.left.length - request.reads.sum ∧
      (plain.answer request).2.offset =
        plain.offset + completed request.reads plain.left.length := by
  have hwords (count : Nat) := take?_of_failing h 4 count
  cases request with
  | bytes? count =>
      obtain ⟨hending, hleft, hoffset⟩ := take?_of_failing h count 1
      rw [Nat.mul_one] at hleft
      refine ⟨hending, ?_, hoffset⟩
      rw [Request.reads, List.sum_singleton]
      exact hleft
  | words? count =>
      rw [answer, words?_eq, Request.reads, List.sum_replicate_nat, Nat.mul_comm]
      exact hwords count
  | words count =>
      rw [answer, words_eq, words?_eq, Request.reads, List.sum_replicate_nat, Nat.mul_comm]
      exact hwords count
  | order order => exact ⟨h, rfl, rfl⟩

end Plain

namespace Input

/-- The bytes that were gathered for the read in which the source failed are not counted. -/
theorem offset_after_of_presents {input : Input} {plain : Plain} {reason : String}
    (h : input.Presents plain) (hending : plain.ending = .failing reason)
    (requests : List Request) :
    (input.after requests).offset =
      plain.offset + completed (requests.flatMap Request.reads) plain.left.length := by
  induction requests generalizing input plain with
  | nil => exact h.offset_eq
  | cons request later ih =>
      obtain ⟨next, hanswer, hnext⟩ := answer_of_presents h request
      obtain ⟨hfailing, hleft, hoffset⟩ := Plain.answer_of_failing hending request
      have hlater := ih hnext hfailing
      rw [List.flatMap_cons, completed_append, ← Nat.add_assoc, ← hoffset, ← hleft, ← hlater]
      rw [after, List.foldl_cons, hanswer]
      rfl

end Input

end Wire
end ShaderBinary
