import ShaderBinary.Proofs.Module.Saving
import ShaderBinary.Proofs.Standard

/-!
# Saving to a sink that stops accepting

A sink may stop accepting anywhere, and an instruction may be refused anywhere. `Module.save_of_refusing`
says what is in the sink afterwards and which of the two is reported. It compares the sink with one that
never fails: what that one is left with is the whole module, or what stands before the first refused
instruction. A sink that stops has a front of it.

The codecs of the dialect are those of signatures, bound to any opcodes. Another codec may put any words into
its buffer and fail or succeed depending on what the buffer held before, and for that one cannot speak of the
instruction that is refused.
-/

namespace ShaderBinary

open Wire

namespace Module

variable {dialect : Dialect} {module : Module} {sink : Sink} {reason : String}

/-- The pieces of a module are words. -/
theorem length_of_mem_pieces {piece : List UInt8} (h : piece ∈ module.pieces dialect) :
    piece.length = 4 := by
  unfold pieces Header.pieces Saving.pieces at h
  split at h
  · cases h
  · next order _ =>
    rw [List.cons_append, List.mem_cons, List.mem_append, List.mem_map, List.mem_map] at h
    rcases h with rfl | ⟨w, -, rfl⟩ | ⟨w, -, rfl⟩
    · exact ByteOrder.length_toOctets .big module.header.magic
    · exact ByteOrder.length_toOctets order w
    · exact ByteOrder.length_toOctets order w

/-- Without a supported header nothing is handed over. -/
theorem pieces_of_not_supported (h : ∀ order, ¬module.header.Supported order) :
    module.pieces dialect = [] := by
  unfold pieces
  split
  · rfl
  · next order horder => exact absurd (Header.writtenOrder_eq_ok_iff.mp horder) (h order)

/-- What a sink that refuses is left with, and what is reported: the refusal of the sink if it has no room
for all the pieces, and otherwise that of the module, or what flushing says. -/
theorem save_eq_of_refusing (hsettles : ∀ instruction ∈ module.code, dialect.Settles instruction)
    (hrefusing : sink.disposition = .refusing reason) :
    (module.save dialect sink).2.accepted.toList =
        sink.accepted.toList ++ (module.pieces dialect).flatten.take sink.room ∧
      (module.save dialect sink).1 =
        if sink.room < (module.pieces dialect).flatten.length then .error (.stream reason)
        else (module.refusal? dialect).elim (Output.ofSink sink).flush Except.error := by
  obtain ⟨next, hput, hfills⟩ := Output.putPieces_of_refusing
    (show (Output.ofSink sink).sink.disposition = .refusing reason from hrefusing)
    (module.pieces dialect)
  have hflush : next.flush = (Output.ofSink sink).flush := by
    unfold Output.flush
    rw [hfills.flush_eq]
  rw [save_eq hsettles, hput]
  constructor
  · rw [Saving.sink_finish]
    exact hfills.accepted_eq
  · show (Saving.finish (Saving.verdict (outcomeWithin sink.room (.stream reason) _) _) next).1 = _
    rcases Nat.lt_or_ge sink.room (module.pieces dialect).flatten.length with hlt | hle
    · rw [if_pos hlt, outcomeWithin_of_lt hlt]
      rfl
    · rw [if_neg (Nat.not_lt_of_le hle), outcomeWithin_of_le hle, ← hflush]
      cases module.refusal? dialect <;> rfl

theorem flush_ofSink_eq_ok_iff :
    (Output.ofSink sink).flush = .ok () ↔ sink.flushFailure? = none := by
  unfold Output.flush Output.ofSink
  cases sink.flushFailure? <;> simp

/-- Saving succeeds if nothing stops it. -/
theorem save_ok_iff_of_refusing
    (hsettles : ∀ instruction ∈ module.code, dialect.Settles instruction)
    (hrefusing : sink.disposition = .refusing reason) :
    (module.save dialect sink).1 = .ok () ↔ module.refusal? dialect = none ∧
      (module.pieces dialect).flatten.length ≤ sink.room ∧ sink.flushFailure? = none := by
  rw [(save_eq_of_refusing hsettles hrefusing).2]
  rcases Nat.lt_or_ge sink.room (module.pieces dialect).flatten.length with hlt | hle
  · rw [if_pos hlt]
    constructor
    · intro hok
      cases hok
    · rintro ⟨-, hle, -⟩
      exact absurd hlt (Nat.not_lt_of_le hle)
  · rw [if_neg (Nat.not_lt_of_le hle)]
    cases module.refusal? dialect with
    | some failure => simp
    | none =>
        show (Output.ofSink sink).flush = .ok () ↔ _
        rw [flush_ofSink_eq_ok_iff]
        exact ⟨fun hnone => ⟨rfl, hle, hnone⟩, fun h => h.2.2⟩

/-- The output after the first `n` pieces of the module, or after the one of them that was not taken. -/
def outputAfter (dialect : Dialect) (module : Module) (sink : Sink) (n : Nat) : Output :=
  ((Output.ofSink sink).putPieces ((module.pieces dialect).take n)).2

theorem outputAfter_lags (dialect : Dialect) (module : Module) (sink : Sink) (n : Nat) :
    (module.outputAfter dialect sink n).Lags sink.accepted.size := by
  apply Output.putPieces_lags
  · intro piece hpiece
    exact length_of_mem_pieces (List.mem_of_mem_take hpiece)
  · rfl

/-- A sink with room for some bytes is left with as many of those that a sink that never fails is left
with, which are all of the module or all before the first refused instruction. Saving succeeds if nothing
is refused, there is room for all the bytes, and the sink can be flushed. The failure of the sink is
reported if it had no room, even if something was refused behind the bytes it has taken.

On the way, the offset is the size of all the pieces that were taken as a whole, and the sink has taken
less than a word more. -/
theorem save_of_refusing (hdialect : dialect.OfSignatureCodecs) (module : Module)
    (hrefusing : sink.disposition = .refusing reason) :
    ∃ result unfailing, module.save dialect .unbounded = (result, unfailing) ∧
      (∀ order, module.header.Supported order → unfailing.accepted.toList =
        module.header.image order ++
          order.bytesOf ((dialect.encodable module.code).flatMap Instruction.words)) ∧
      ((∀ order, ¬module.header.Supported order) → unfailing.accepted.toList = []) ∧
      (module.save dialect sink).2.accepted.toList =
        sink.accepted.toList ++ unfailing.accepted.toList.take sink.room ∧
      ((module.save dialect sink).1 = .ok () ↔
        result = .ok () ∧ unfailing.accepted.size ≤ sink.room ∧ sink.flushFailure? = none) ∧
      (sink.room < unfailing.accepted.size →
        (module.save dialect sink).1 = .error (.stream reason)) ∧
      (unfailing.accepted.size ≤ sink.room → ∀ failure, result = .error failure →
        (module.save dialect sink).1 = .error failure) ∧
      (unfailing.accepted.size ≤ sink.room → result = .ok () → ∀ why,
        sink.flushFailure? = some why → (module.save dialect sink).1 = .error (.stream why)) ∧
      unfailing.accepted.toList = (module.pieces dialect).flatten ∧
      (∃ order, ((Saving.ofSink sink).all dialect module).2.output =
        { module.outputAfter dialect sink (module.pieces dialect).length with order := order }) ∧
      ∀ n, (module.outputAfter dialect sink n).offset =
          (((Output.ofSink sink).completed ((module.pieces dialect).take n)).map
            List.length).sum ∧
        (module.outputAfter dialect sink n).Lags sink.accepted.size := by
  have hsettles : ∀ instruction ∈ module.code, dialect.Settles instruction :=
    fun instruction _ => hdialect.settles instruction
  obtain ⟨unfailing, hunfailing, hpieces⟩ := save_unbounded hsettles
  obtain ⟨haccepted, houtcome⟩ := save_eq_of_refusing hsettles hrefusing
  obtain ⟨next, order, hall, hnext⟩ := Saving.all_eq hsettles (Saving.ofSink sink)
  rw [← hpieces] at haccepted houtcome
  rw [Array.length_toList] at houtcome
  refine ⟨_, unfailing, hunfailing, ?_, ?_, haccepted, ?_, ?_, ?_, ?_, hpieces, ?_, ?_⟩
  · intro order hsupported
    rw [hpieces, flatten_pieces_of_supported hsupported]
  · intro hnot
    rw [hpieces, pieces_of_not_supported hnot]
    rfl
  · rw [save_ok_iff_of_refusing hsettles hrefusing, Saving.verdict_eq_ok_iff, ← hpieces,
      Array.length_toList]
    exact ⟨fun h => ⟨⟨rfl, h.1⟩, h.2⟩, fun h => ⟨h.1.2, h.2⟩⟩
  · intro hlt
    rw [houtcome, if_pos hlt]
  · intro hle failure hfailure
    rw [houtcome, if_neg (Nat.not_lt_of_le hle)]
    cases hrefusal : module.refusal? dialect <;> rw [hrefusal] at hfailure
    · cases hfailure
    · exact hfailure
  · intro hle hok why hwhy
    rw [houtcome, if_neg (Nat.not_lt_of_le hle), (Saving.verdict_eq_ok_iff.mp hok).2]
    show (Output.ofSink sink).flush = _
    unfold Output.flush Output.ofSink
    rw [hwhy]
  · refine ⟨order, ?_⟩
    rw [hall, outputAfter, List.take_length]
    exact hnext
  · intro n
    refine ⟨?_, module.outputAfter_lags dialect sink n⟩
    rw [outputAfter, Output.offset_putPieces]
    exact Nat.zero_add _

/-- A module with a capability, which takes two words, and an instruction that is refused. -/
def ofForeign : Module :=
  ⟨.ofOrder .little,
    [⟨⟨"OpCapability", 17, .preamble, [⟨"capability", .selector Standard.capability⟩], []⟩, ⟨1⟩, ()⟩,
      Standard.foreign]⟩

/-- A sink that is empty at first, and full after some bytes. -/
def limitedTo (grants : List Nat) : Sink :=
  ⟨#[], grants, .refusing "full", none⟩

/-- With room for one byte of the second word of the capability, that word is not counted, and the sink is
what fails. With room for the whole word, the other instruction is refused: its opcode is bound to the codec
of a name. -/
theorem save_limitedTo :
    (ofForeign.save Standard.crossBound (limitedTo [3, 22])).1 = .error (.stream "full") ∧
      (ofForeign.save Standard.crossBound (limitedTo [3, 22])).2.accepted.toList =
        ByteOrder.little.bytesOf [0x03022307, 0x00010000, 0, 0, 0, 0x00020011] ++ [1] ∧
      (ofForeign.outputAfter Standard.crossBound (limitedTo [3, 22]) 7).offset = 24 ∧
      (ofForeign.save Standard.crossBound (limitedTo [3, 25])).1 =
        .error (.foreignInstruction 1000 "OpName") := by
  have hideal : ofForeign.save Standard.crossBound .unbounded = (.error (.foreignInstruction 1000 "OpName"),
      ⟨(ByteOrder.little.bytesOf [0x03022307, 0x00010000, 0, 0, 0, 0x00020011, 1]).toArray, [],
        .accepting, none⟩) := by
    decide +kernel
  obtain ⟨_, _, hunfailing, -, -, haccepted, -, hstream, -, -, -, -, hpoints⟩ :=
    save_of_refusing Standard.crossBound_ofSignatureCodecs ofForeign
      (show (limitedTo [3, 22]).disposition = .refusing "full" from rfl)
  obtain ⟨rfl, rfl⟩ := Prod.mk.inj (hunfailing.symm.trans hideal)
  obtain ⟨_, _, hunfailing', -, -, -, -, -, hrefused, -⟩ :=
    save_of_refusing Standard.crossBound_ofSignatureCodecs ofForeign
      (show (limitedTo [3, 25]).disposition = .refusing "full" from rfl)
  obtain ⟨rfl, rfl⟩ := Prod.mk.inj (hunfailing'.symm.trans hideal)
  refine ⟨hstream (by decide +kernel), haccepted.trans (by decide +kernel),
    (hpoints 7).1.trans (by decide +kernel), hrefused (by decide +kernel) _ rfl⟩

end Module

end ShaderBinary
