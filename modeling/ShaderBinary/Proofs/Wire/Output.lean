import Mathlib.Algebra.GroupWithZero.Nat
import ShaderBinary.Wire.Frames
import ShaderBinary.Proofs.Word

/-!
# Handing pieces over to a sink

Everything that is written is handed over in pieces, a word at a time. `Output.putPieces` hands one piece
over after another, up to the first that the sink does not take as a whole; writing words or a frame is
that (`putWords_eq_putPieces`), so that what a sink does to a module is said once,
about pieces:

* A sink that accepts everything takes all the bytes (`putPieces_of_accepting`).
* A sink that refuses has room for as many bytes as its grants add up to. It takes the bytes up to there,
  and the pieces are handed over as a whole if there is room for all of them (`putPieces_of_refusing`).
* Whatever the sink does, the offset adds up the pieces that were taken as a whole
  (`offset_putPieces`), and lags behind what the sink has taken by less than one piece
  (`putPieces_lags`).

Each of them is shown for one piece and then for a run. The pieces a sink takes from one call to another
have nothing to do with those that are handed over: grants may end anywhere.
-/

namespace ShaderBinary
namespace Wire

/-! ## One call of a sink -/

theorem acceptUnder_accepting (accepted : Array UInt8) (grants : List Nat) (bytes : List UInt8) :
    ∃ result left, Sink.acceptUnder accepted .accepting grants bytes = (.ok (), result, left) ∧
      result.toList = accepted.toList ++ bytes := by
  induction grants generalizing accepted bytes with
  | nil =>
      cases bytes with
      | nil => exact ⟨accepted, [], by rw [Sink.acceptUnder], by simp⟩
      | cons byte later =>
          exact ⟨accepted ++ (byte :: later), [], by simp [Sink.acceptUnder], by simp⟩
  | cons grant grants ih =>
      cases bytes with
      | nil => exact ⟨accepted, grant :: grants, by rw [Sink.acceptUnder], by simp⟩
      | cons byte later =>
          simp only [Sink.acceptUnder]
          cases hdrop : (byte :: later).drop grant with
          | nil =>
              have hall : (byte :: later).take grant = byte :: later :=
                List.take_of_length_le (List.drop_eq_nil_iff.mp hdrop)
              exact ⟨_, _, rfl, by rw [hall]; simp⟩
          | cons next others =>
              -- The grant did not cover the bytes, and the next one is asked for the others.
              obtain ⟨result, left, hleft, hresult⟩ :=
                ih (accepted ++ (byte :: later).take grant) (next :: others)
              refine ⟨result, left, hleft, ?_⟩
              rw [hresult, ← hdrop, Array.toList_appendList, List.append_assoc,
                List.take_append_drop]

/-- The outcome of handing over bytes where there is room for `room` of them. -/
def outcomeWithin {ε : Type} (room : Nat) (failure : ε) (bytes : List UInt8) : Except ε Unit :=
  if bytes.length ≤ room then .ok () else .error failure

section OutcomeWithin

variable {ε : Type} {room : Nat} {failure : ε} {bytes : List UInt8}

theorem outcomeWithin_of_le (h : bytes.length ≤ room) : outcomeWithin room failure bytes = .ok () :=
  if_pos h

theorem outcomeWithin_of_lt (h : room < bytes.length) :
    outcomeWithin room failure bytes = .error failure :=
  if_neg (Nat.not_le_of_lt h)

theorem outcomeWithin_drop (n : Nat) :
    outcomeWithin room failure (bytes.drop n) = outcomeWithin (n + room) failure bytes := by
  unfold outcomeWithin
  rw [List.length_drop]
  exact if_congr Nat.sub_le_iff_le_add' rfl rfl

theorem outcomeWithin_append (h : bytes.length ≤ room) (more : List UInt8) :
    outcomeWithin (room - bytes.length) failure more =
      outcomeWithin room failure (bytes ++ more) := by
  unfold outcomeWithin
  rw [List.length_append]
  exact if_congr (by omega) rfl rfl

end OutcomeWithin

/-- Bytes are refused if the grants do not add up to as many, and what is granted is taken before. -/
theorem acceptUnder_refusing (reason : String) (accepted : Array UInt8) (grants : List Nat)
    (bytes : List UInt8) :
    ∃ result left, Sink.acceptUnder accepted (.refusing reason) grants bytes =
        (outcomeWithin grants.sum reason bytes, result, left) ∧
      result.toList = accepted.toList ++ bytes.take grants.sum ∧
      left.sum = grants.sum - bytes.length := by
  induction grants generalizing accepted bytes with
  | nil =>
      cases bytes with
      | nil => exact ⟨accepted, [], by rw [Sink.acceptUnder]; rfl, by simp, rfl⟩
      | cons byte later => exact ⟨accepted, [], by simp [Sink.acceptUnder, outcomeWithin], by simp, by simp⟩
  | cons grant grants ih =>
      cases bytes with
      | nil => exact ⟨accepted, grant :: grants, by rw [Sink.acceptUnder]; rfl, by simp, by simp⟩
      | cons byte later =>
          simp only [Sink.acceptUnder]
          rw [List.sum_cons]
          cases hdrop : (byte :: later).drop grant with
          | nil =>
              have hle : (byte :: later).length ≤ grant := List.drop_eq_nil_iff.mp hdrop
              have hall : (byte :: later).take grant = byte :: later := List.take_of_length_le hle
              refine ⟨_, _, by rw [outcomeWithin_of_le (by omega)], ?_, ?_⟩
              · rw [hall, List.take_of_length_le (by omega), Array.toList_appendList]
              · rw [hall, List.sum_cons]
                omega
          | cons next others =>
              have hbeyond : grant < (byte :: later).length := by
                by_contra hle
                rw [List.drop_eq_nil_of_le (Nat.le_of_not_lt hle)] at hdrop
                cases hdrop
              obtain ⟨result, left, hleft, hresult, hsum⟩ :=
                ih (accepted ++ (byte :: later).take grant) (next :: others)
              rw [← hdrop, outcomeWithin_drop] at hleft
              refine ⟨result, left, ?_, ?_, ?_⟩
              · rw [← hleft, hdrop]
              · rw [hresult, ← hdrop, Array.toList_appendList, List.append_assoc, ← List.take_add]
              · rw [hsum, ← hdrop, List.length_drop]
                omega

/-- How many bytes a sink still accepts, if it refuses at last. -/
def Sink.room (sink : Sink) : Nat :=
  sink.grants.sum

namespace Output

variable {output next last : Output} {bytes more : List UInt8} {reason : String}

/-! ## One piece -/

/-- An output has taken these bytes after those it had. -/
structure Extends (output next : Output) (bytes : List UInt8) : Prop where
  accepted_eq : next.sink.accepted.toList = output.sink.accepted.toList ++ bytes
  accepting : next.sink.disposition = .accepting
  flush_eq : next.sink.flushFailure? = output.sink.flushFailure?

/-- An output has taken as many of these bytes as it had room for. -/
structure Fills (output next : Output) (bytes : List UInt8) : Prop where
  accepted_eq : next.sink.accepted.toList =
    output.sink.accepted.toList ++ bytes.take output.sink.room
  room_eq : next.sink.room = output.sink.room - bytes.length
  disposition_eq : next.sink.disposition = output.sink.disposition
  flush_eq : next.sink.flushFailure? = output.sink.flushFailure?

theorem Extends.refl (h : output.sink.disposition = .accepting) : output.Extends output [] :=
  ⟨(List.append_nil _).symm, h, rfl⟩

theorem Extends.trans (first : output.Extends next bytes) (second : next.Extends last more) :
    output.Extends last (bytes ++ more) :=
  ⟨by rw [second.accepted_eq, first.accepted_eq, List.append_assoc], second.accepting,
    second.flush_eq.trans first.flush_eq⟩

theorem Fills.refl (output : Output) : output.Fills output [] :=
  ⟨by rw [List.take_nil, List.append_nil], rfl, rfl, rfl⟩

theorem Fills.trans (first : output.Fills next bytes) (second : next.Fills last more) :
    output.Fills last (bytes ++ more) where
  accepted_eq := by
    rw [second.accepted_eq, first.accepted_eq, first.room_eq, List.append_assoc,
      ← List.take_append]
  room_eq := by
    rw [second.room_eq, first.room_eq, List.length_append, Nat.sub_sub]
  disposition_eq := second.disposition_eq.trans first.disposition_eq
  flush_eq := second.flush_eq.trans first.flush_eq

/-- Nothing more is taken once there is no room. -/
theorem Fills.append (h : output.Fills next bytes) (hfull : output.sink.room < bytes.length)
    (more : List UInt8) : output.Fills next (bytes ++ more) where
  accepted_eq := by
    rw [h.accepted_eq, List.take_append_of_le_length (Nat.le_of_lt hfull)]
  room_eq := by
    rw [h.room_eq, List.length_append]
    omega
  disposition_eq := h.disposition_eq
  flush_eq := h.flush_eq

theorem putBytes_eq (output : Output) (bytes : List UInt8) :
    output.putBytes bytes =
      match output.sink.accept bytes with
      | (.error reason, sink) => (.error (.stream reason), ⟨sink, output.order, output.offset⟩)
      | (.ok (), sink) => (.ok (), ⟨sink, output.order, output.offset + bytes.length⟩) :=
  rfl

/-- Only a piece that is taken as a whole is counted. -/
theorem offset_putBytes (output : Output) (bytes : List UInt8) :
    (output.putBytes bytes).2.offset =
      output.offset + if (output.putBytes bytes).1.isOk then bytes.length else 0 := by
  rw [putBytes_eq]
  rcases output.sink.accept bytes with ⟨_ | _, sink⟩ <;> rfl

theorem order_putBytes (output : Output) (bytes : List UInt8) :
    (output.putBytes bytes).2.order = output.order := by
  rw [putBytes_eq]
  rcases output.sink.accept bytes with ⟨_ | _, sink⟩ <;> rfl

/-- The byte order plays no part, as bytes are handed over as they are. -/
theorem putBytes_withOrder (output : Output) (order : ByteOrder) (bytes : List UInt8) :
    Output.putBytes bytes { output with order := order } =
      ((output.putBytes bytes).1, { (output.putBytes bytes).2 with order := order }) := by
  rw [putBytes_eq, putBytes_eq]
  rcases output.sink.accept bytes with ⟨_ | _, sink⟩ <;> rfl

theorem putBytes_of_accepting (h : output.sink.disposition = .accepting) (bytes : List UInt8) :
    ∃ next, output.putBytes bytes = (.ok (), next) ∧ output.Extends next bytes := by
  obtain ⟨⟨accepted, grants, disposition, flushFailure?⟩, order, offset⟩ := output
  cases h
  obtain ⟨result, left, hleft, hresult⟩ := acceptUnder_accepting accepted grants bytes
  refine ⟨⟨⟨result, left, .accepting, flushFailure?⟩, order, offset + bytes.length⟩, ?_,
    ⟨hresult, rfl, rfl⟩⟩
  simp only [putBytes, Sink.accept, hleft]

theorem putBytes_of_refusing (h : output.sink.disposition = .refusing reason)
    (bytes : List UInt8) :
    ∃ next, output.putBytes bytes =
        (outcomeWithin output.sink.room (.stream reason) bytes, next) ∧
      output.Fills next bytes := by
  obtain ⟨⟨accepted, grants, disposition, flushFailure?⟩, order, offset⟩ := output
  cases h
  obtain ⟨result, left, hleft, hresult, hroom⟩ :=
    acceptUnder_refusing reason accepted grants bytes
  unfold Sink.room
  simp only [putBytes, Sink.accept, hleft]
  rcases Nat.lt_or_ge grants.sum bytes.length with hlt | hle
  · rw [outcomeWithin_of_lt hlt, outcomeWithin_of_lt hlt]
    exact ⟨_, rfl, hresult, hroom, rfl, rfl⟩
  · rw [outcomeWithin_of_le hle, outcomeWithin_of_le hle]
    exact ⟨_, rfl, hresult, hroom, rfl, rfl⟩

/-- Whatever the sink does, a piece is taken as a whole and counted, or a proper part of it is taken and
nothing is counted. -/
theorem putBytes_cases (output : Output) (bytes : List UInt8) :
    (∃ next, output.putBytes bytes = (.ok (), next) ∧
        next.offset = output.offset + bytes.length ∧
        next.sink.accepted.size = output.sink.accepted.size + bytes.length) ∨
      ∃ failure next, output.putBytes bytes = (.error failure, next) ∧
        next.offset = output.offset ∧
        output.sink.accepted.size ≤ next.sink.accepted.size ∧
        next.sink.accepted.size < output.sink.accepted.size + bytes.length := by
  have hoffset := output.offset_putBytes bytes
  cases hdisposition : output.sink.disposition with
  | accepting =>
      obtain ⟨next, hput, hextends⟩ := putBytes_of_accepting hdisposition bytes
      have hsize := congrArg List.length hextends.accepted_eq
      rw [List.length_append, Array.length_toList, Array.length_toList] at hsize
      rw [hput] at hoffset
      exact .inl ⟨next, hput, hoffset, hsize⟩
  | refusing reason =>
      obtain ⟨next, hput, hfills⟩ := putBytes_of_refusing hdisposition bytes
      have hsize := congrArg List.length hfills.accepted_eq
      rw [List.length_append, List.length_take, Array.length_toList, Array.length_toList] at hsize
      rcases Nat.lt_or_ge output.sink.room bytes.length with hlt | hle
      · rw [outcomeWithin_of_lt hlt] at hput
        rw [hput] at hoffset
        exact .inr ⟨_, next, hput, hoffset, by omega, by omega⟩
      · rw [outcomeWithin_of_le hle] at hput
        rw [hput] at hoffset
        exact .inl ⟨next, hput, hoffset, by omega⟩

/-! ## One piece after another -/

/-- Hands pieces over in order, up to the first that is not taken as a whole. -/
def putPieces : List (List UInt8) → Output → Except Failure Unit × Output
  | [], output => (.ok (), output)
  | piece :: later, output =>
    match output.putBytes piece with
    | (.error failure, next) => (.error failure, next)
    | (.ok (), next) => putPieces later next

/-- The pieces that are taken as a whole. -/
def completed : List (List UInt8) → Output → List (List UInt8)
  | [], _ => []
  | piece :: later, output =>
    match output.putBytes piece with
    | (.error _, _) => []
    | (.ok (), next) => piece :: completed later next

variable {piece : List UInt8} {pieces : List (List UInt8)}

theorem putPieces_append (earlier later : List (List UInt8)) (output : Output) :
    output.putPieces (earlier ++ later) =
      match output.putPieces earlier with
      | (.error failure, next) => (.error failure, next)
      | (.ok (), next) => next.putPieces later := by
  induction earlier generalizing output with
  | nil => rfl
  | cons piece earlier ih =>
      rw [List.cons_append, putPieces, putPieces]
      rcases output.putBytes piece with ⟨_ | _, next⟩
      · rfl
      · exact ih next

theorem putPieces_withOrder (output : Output) (order : ByteOrder) (pieces : List (List UInt8)) :
    Output.putPieces pieces { output with order := order } =
      ((output.putPieces pieces).1, { (output.putPieces pieces).2 with order := order }) := by
  induction pieces generalizing output with
  | nil => rfl
  | cons piece later ih =>
      rw [putPieces, putPieces, putBytes_withOrder]
      rcases output.putBytes piece with ⟨_ | _, next⟩
      · rfl
      · exact ih next

theorem order_putPieces (output : Output) (pieces : List (List UInt8)) :
    (output.putPieces pieces).2.order = output.order := by
  induction pieces generalizing output with
  | nil => rfl
  | cons piece later ih =>
      have horder := output.order_putBytes piece
      rw [putPieces]
      rcases hput : output.putBytes piece with ⟨_ | _, next⟩ <;> rw [hput] at horder
      · exact horder
      · exact (ih next).trans horder

/-- A word is a piece. -/
theorem putWords_eq_putPieces (output : Output) (words : List Word) :
    output.putWords words = output.putPieces (words.map output.order.toOctets) := by
  induction words generalizing output with
  | nil => rfl
  | cons w later ih =>
      have horder := output.order_putBytes (output.order.toOctets w)
      rw [putWords, List.map_cons, putPieces]
      rcases hput : output.putBytes (output.order.toOctets w) with ⟨_ | _, next⟩
      · rfl
      · rw [hput] at horder
        rw [← horder]
        exact ih next

theorem putPieces_of_accepting (h : output.sink.disposition = .accepting)
    (pieces : List (List UInt8)) :
    ∃ next, output.putPieces pieces = (.ok (), next) ∧ output.Extends next pieces.flatten := by
  induction pieces generalizing output with
  | nil => exact ⟨output, rfl, .refl h⟩
  | cons piece later ih =>
      obtain ⟨next, hfirst, hextends⟩ := putBytes_of_accepting h piece
      obtain ⟨last, hlater, hlast⟩ := ih hextends.accepting
      refine ⟨last, ?_, hextends.trans hlast⟩
      rw [putPieces, hfirst]
      exact hlater

theorem putPieces_of_refusing (h : output.sink.disposition = .refusing reason)
    (pieces : List (List UInt8)) :
    ∃ next, output.putPieces pieces =
        (outcomeWithin output.sink.room (.stream reason) pieces.flatten, next) ∧
      output.Fills next pieces.flatten := by
  induction pieces generalizing output with
  | nil => exact ⟨output, rfl, .refl output⟩
  | cons piece later ih =>
      obtain ⟨next, hfirst, hfills⟩ := putBytes_of_refusing h piece
      rw [putPieces, hfirst, List.flatten_cons]
      rcases Nat.lt_or_ge output.sink.room piece.length with hlt | hle
      · -- The first piece has filled the sink, and the others are not handed over.
        have hall : output.sink.room < (piece ++ later.flatten).length := by
          rw [List.length_append]
          omega
        rw [outcomeWithin_of_lt hlt, outcomeWithin_of_lt hall]
        exact ⟨next, rfl, hfills.append hlt later.flatten⟩
      · obtain ⟨last, hlater, hlast⟩ := ih (hfills.disposition_eq.trans h)
        refine ⟨last, ?_, hfills.trans hlast⟩
        rw [outcomeWithin_of_le hle, ← outcomeWithin_append hle, ← hfills.room_eq]
        exact hlater

/-- The offset adds up the pieces that were taken as a whole. -/
theorem offset_putPieces (output : Output) (pieces : List (List UInt8)) :
    (output.putPieces pieces).2.offset =
      output.offset + ((output.completed pieces).map List.length).sum := by
  induction pieces generalizing output with
  | nil => rfl
  | cons piece later ih =>
      rw [putPieces, completed]
      rcases output.putBytes_cases piece with ⟨next, hput, hoffset, -⟩ |
        ⟨failure, next, hput, hoffset, -⟩
      · rw [hput, List.map_cons, List.sum_cons, ← Nat.add_assoc, ← hoffset]
        exact ih next
      · rw [hput]
        exact hoffset

/-- An output has taken these bytes as a whole, and counted them. -/
structure Took (output next : Output) (bytes : List UInt8) : Prop where
  accepted_eq : next.sink.accepted.toList = output.sink.accepted.toList ++ bytes
  order_eq : next.order = output.order
  offset_eq : next.offset = output.offset + bytes.length
  disposition_eq : next.sink.disposition = output.sink.disposition
  flush_eq : next.sink.flushFailure? = output.sink.flushFailure?

theorem Took.refl (output : Output) : output.Took output [] :=
  ⟨(List.append_nil _).symm, rfl, rfl, rfl, rfl⟩

theorem Took.trans (first : output.Took next bytes) (second : next.Took last more) :
    output.Took last (bytes ++ more) where
  accepted_eq := by
    rw [second.accepted_eq, first.accepted_eq, List.append_assoc]
  order_eq := second.order_eq.trans first.order_eq
  offset_eq := by
    rw [second.offset_eq, first.offset_eq, List.length_append, Nat.add_assoc]
  disposition_eq := second.disposition_eq.trans first.disposition_eq
  flush_eq := second.flush_eq.trans first.flush_eq

/-- A piece for which nothing failed was taken, whatever sink it was handed to. -/
theorem took_of_putBytes (h : output.putBytes bytes = (.ok (), next)) :
    output.Took next bytes := by
  have horder := output.order_putBytes bytes
  have hoffset := output.offset_putBytes bytes
  rw [h] at horder hoffset
  cases hdisposition : output.sink.disposition with
  | accepting =>
      obtain ⟨last, hput, hextends⟩ := putBytes_of_accepting hdisposition bytes
      rw [h] at hput
      cases hput
      exact ⟨hextends.accepted_eq, horder, hoffset, hextends.accepting.trans hdisposition.symm,
        hextends.flush_eq⟩
  | refusing reason =>
      obtain ⟨last, hput, hfills⟩ := putBytes_of_refusing hdisposition bytes
      rw [h, Prod.mk.injEq] at hput
      obtain ⟨hok, rfl⟩ := hput
      have hroom : bytes.length ≤ output.sink.room := by
        by_contra hbeyond
        rw [outcomeWithin_of_lt (Nat.lt_of_not_le hbeyond)] at hok
        cases hok
      refine ⟨?_, horder, hoffset, hfills.disposition_eq, hfills.flush_eq⟩
      rw [hfills.accepted_eq, List.take_of_length_le hroom]

theorem took_of_putPieces (h : output.putPieces pieces = (.ok (), next)) :
    output.Took next pieces.flatten := by
  induction pieces generalizing output with
  | nil => cases h; exact .refl _
  | cons piece later ih =>
      rw [putPieces] at h
      rcases hput : output.putBytes piece with ⟨_ | _, middle⟩ <;> rw [hput] at h
      · cases h
      · exact (took_of_putBytes hput).trans (ih h)

theorem took_of_putPieces_words {words : List Word}
    (h : output.putPieces (words.map output.order.toOctets) = (.ok (), next)) :
    output.Took next (output.order.bytesOf words) := by
  rw [ByteOrder.bytesOf, List.flatMap_def]
  exact took_of_putPieces h

theorem putPieces_words_of_accepting (h : output.sink.disposition = .accepting) (words : List Word) :
    ∃ next, output.putPieces (words.map output.order.toOctets) = (.ok (), next) ∧
      output.Took next (output.order.bytesOf words) := by
  obtain ⟨next, hput, -⟩ := putPieces_of_accepting h (words.map output.order.toOctets)
  exact ⟨next, hput, took_of_putPieces_words hput⟩

/-- The offset is behind what the sink has taken, but by less than a word. `start` is how much the sink had
taken when the offset was zero. -/
structure Lags (start : Nat) (output : Output) : Prop where
  counted : start + output.offset ≤ output.sink.accepted.size
  behind : output.sink.accepted.size < start + output.offset + 4

theorem putPieces_lags {start : Nat} (hpieces : ∀ piece ∈ pieces, piece.length = 4)
    (h : output.sink.accepted.size = start + output.offset) :
    Lags start (output.putPieces pieces).2 := by
  induction pieces generalizing output with
  | nil =>
      apply Lags.mk
      · show start + output.offset ≤ output.sink.accepted.size
        omega
      · show output.sink.accepted.size < start + output.offset + 4
        omega
  | cons piece later ih =>
      have hlength : piece.length = 4 := hpieces piece List.mem_cons_self
      rw [putPieces]
      rcases output.putBytes_cases piece with ⟨next, hput, hoffset, hsize⟩ |
        ⟨failure, next, hput, hoffset, hle, hlt⟩
      · -- After a whole piece the offset has caught up.
        rw [hput]
        apply ih
        · intro other hother
          exact hpieces other (List.mem_cons_of_mem _ hother)
        · omega
      · rw [hput]
        apply Lags.mk
        · show start + next.offset ≤ next.sink.accepted.size
          omega
        · show next.sink.accepted.size < start + next.offset + 4
          omega

end Output

end Wire
end ShaderBinary
