import ShaderBinary.Proofs.Module.Saving
import ShaderBinary.Proofs.Wire.Framing
import ShaderBinary.Standard.Signatures

/-!
# Encoding one instruction after another

A saving can be asked to write any number of instructions, also after a failure. What is handed over for one
of them depends on the codec and on what the scratch buffer held before, but not on the output
(`Saving.instruction_eq`), and whatever the codec is, it is a frame (`Saving.announced_of_layOut`).

Nothing is assumed of the codecs. They may put anything into the buffer, claim to have written any number of
words, and keep a state of their own; that is why each `Saving.Attempt` has its own dialect. Even so the
output is made of frames, one for each attempt that succeeded, and nothing is written for any other
(`Saving.frames_of_attempts`). `Saving.layOutAll` are the frames of a whole module, up to the first refusal,
and saving gives the header and these frames (`Module.toBytes_eq`).
-/

namespace ShaderBinary

open Wire

namespace Saving

variable {dialect : Dialect} {instruction : Instruction} {saving started : Saving}
  {scratch : Array Word} {frame : List Word}

/-! ## One attempt -/

/-- Whatever a codec does, what is handed over is a frame, and no longer than the instruction. -/
theorem announced_of_layOut (h : (layOut dialect instruction scratch).1 = .ok frame) :
    Frame.Announced frame ∧ frame.length ≤ instruction.wordCount := by
  unfold layOut at h
  split at h
  · cases h
  · next written buffer _ =>
    simp only at h
    split at h
    · next hwritten =>
      obtain ⟨first, later, -, -, -, htake⟩ := Frame.cut_eq_ok_iff.mp h
      refine ⟨Frame.announced_of_cut h, ?_⟩
      calc frame.length ≤ (buffer.toList.take written).length :=
            htake ▸ List.length_take_le' _ _
        _ ≤ written := List.length_take_le _ _
        _ = instruction.wordCount := hwritten
    · cases h

/-- A failure is the codec's own, or a wrong size. -/
theorem failure_of_layOut {failure : Failure}
    (h : (layOut dialect instruction scratch).1 = .error failure) :
    (dialect.encode instruction (Frame.grown scratch instruction.wordCount).toVector).1 =
        .error failure ∨ ∃ size, failure = .badSize size := by
  unfold layOut at h
  split at h
  · next hencode =>
    cases h
    exact .inl (congrArg Prod.fst hencode)
  · simp only at h
    split at h
    · exact .inr ⟨_, Frame.failure_of_cut h⟩
    · exact .inr ⟨_, (Except.error.inj h).symm⟩

/-- One call with a sink that accepts everything: the frame was taken and counted, or nothing happened but
to the scratch buffer. -/
theorem instruction_of_accepting (dialect : Dialect) (instruction : Instruction)
    (haccepting : saving.output.sink.disposition = .accepting) :
    (∃ frame next, (layOut dialect instruction saving.scratch).1 = .ok frame ∧
        saving.instruction dialect instruction = (.ok (), next) ∧
        saving.output.Took next.output (saving.output.order.bytesOf frame) ∧
        next.index = saving.index + 1) ∨
      ∃ failure next, (layOut dialect instruction saving.scratch).1 = .error failure ∧
        saving.instruction dialect instruction = (.error failure, next) ∧
        next.output = saving.output ∧ next.index = saving.index := by
  rw [instruction_eq]
  rcases layOut dialect instruction saving.scratch with ⟨failure | frame, scratch⟩
  · exact .inr ⟨failure, _, rfl, rfl, rfl, rfl⟩
  · obtain ⟨output, hput, htook⟩ := Output.putPieces_words_of_accepting haccepting frame
    simp only [hput]
    exact .inl ⟨frame, _, rfl, rfl, htook, rfl⟩

/-! ## Reading no further than the buffer -/

/-- The first words of a buffer, if it has as many. -/
def slice? (count : Nat) (words : List Word) : Option (List Word) :=
  if count ≤ words.length then some (words.take count) else none

/-- Writes a frame like `Wire.Output.putFrame`, and has no result if that takes words that are not there. -/
def putFrameWithin? (words : List Word) (output : Output) : Option (Except Failure Unit × Output) :=
  match words with
  | [] => some (.error (.badSize 0), output)
  | first :: _ =>
    let announced := Frame.wordsOf first
    if announced < 1 ∨ words.length < announced then some (.error (.badSize announced), output)
    else (slice? announced words).map fun frame => output.putWords frame

/-- Writes an instruction like `Saving.instruction`, and has no result if that takes words from beyond the
end of the scratch buffer. -/
def instructionWithin? (dialect : Dialect) (instruction : Instruction) :
    Saving → Option (Except Failure Unit × Saving)
  | ⟨output, scratch, index⟩ =>
    let words := instruction.wordCount
    match dialect.encode instruction (Frame.grown scratch words).toVector with
    | (.error failure, buffer) => some (.error failure, ⟨output, buffer.toArray, index⟩)
    | (.ok written, buffer) =>
      if written ≠ words then some (.error (.badSize written), ⟨output, buffer.toArray, index⟩)
      else
        match (slice? written buffer.toList).bind (putFrameWithin? · output) with
        | none => none
        | some (.error failure, output) => some (.error failure, ⟨output, buffer.toArray, index⟩)
        | some (.ok (), output) => some (.ok (), ⟨output, buffer.toArray, index + 1⟩)

theorem putFrameWithin?_eq (words : List Word) (output : Output) :
    putFrameWithin? words output = some (output.putFrame words) := by
  unfold putFrameWithin? Output.putFrame
  cases words with
  | nil => rfl
  | cons first later =>
      simp only
      split
      · rfl
      · rw [slice?, if_pos (by omega), Option.map_some]

/-- All the words that are taken are there, whatever a codec claims. -/
theorem instructionWithin?_eq (dialect : Dialect) (instruction : Instruction) (saving : Saving) :
    saving.instructionWithin? dialect instruction =
      some (saving.instruction dialect instruction) := by
  obtain ⟨output, scratch, index⟩ := saving
  unfold instructionWithin? Saving.instruction
  simp only
  have hroom := Frame.le_size_grown scratch instruction.wordCount
  rcases dialect.encode instruction (Frame.grown scratch instruction.wordCount).toVector with
    ⟨failure | written, buffer⟩
  · rfl
  · simp only [ne_eq, ite_not]
    by_cases hwritten : written = instruction.wordCount
    · have hslice : slice? written buffer.toList =
          some (buffer.toArray.extract 0 written).toList := by
        rw [Array.toList_extract, List.extract_eq_take_drop, Nat.sub_zero, List.drop_zero, slice?,
          if_pos (by rw [Vector.length_toList, hwritten]; exact hroom)]
        rfl
      rw [if_pos hwritten, if_pos hwritten, hslice, Option.bind_some, putFrameWithin?_eq]
      rcases output.putFrame (buffer.toArray.extract 0 written).toList with ⟨_ | _, next⟩ <;> rfl
    · rw [if_neg hwritten, if_neg hwritten]

/-! ## One attempt after another -/

/-- An instruction that is to be written, and the dialect it is to be written in. -/
structure Attempt where
  dialect : Dialect
  instruction : Instruction

/-- What is answered to an attempt. -/
def attempt (attempt : Attempt) (saving : Saving) : Except Failure Unit × Saving :=
  saving.instruction attempt.dialect attempt.instruction

/-- The saving after one attempt after another, whatever was answered. -/
def after (attempts : List Attempt) (saving : Saving) : Saving :=
  attempts.foldl (fun saving next => (saving.attempt next).2) saving

/-- Attempts one after another, each with what was answered. -/
def transcript : List Attempt → Saving → List (Attempt × Except Failure Unit)
  | [], _ => []
  | first :: later, saving =>
    match saving.attempt first with
    | (answer, next) => (first, answer) :: transcript later next

/-- The attempts that succeeded. -/
def succeeded (attempts : List Attempt) (saving : Saving) : List Attempt :=
  ((saving.transcript attempts).filter fun answered => answered.2.isOk).map (·.1)

theorem after_cons (first : Attempt) (later : List Attempt) (saving : Saving) :
    saving.after (first :: later) = (saving.attempt first).2.after later := rfl

theorem succeeded_cons_of_ok {first : Attempt} {next : Saving}
    (h : saving.attempt first = (.ok (), next)) (later : List Attempt) :
    saving.succeeded (first :: later) = first :: next.succeeded later := by
  rw [succeeded, transcript, h]
  rfl

theorem succeeded_cons_of_error {first : Attempt} {failure : Failure} {next : Saving}
    (h : saving.attempt first = (.error failure, next)) (later : List Attempt) :
    saving.succeeded (first :: later) = next.succeeded later := by
  rw [succeeded, transcript, h]
  rfl

/-- A frame that was handed over for an attempt. -/
def Fits (attempt : Attempt) (frame : List Word) : Prop :=
  Frame.Announced frame ∧ frame.length ≤ attempt.instruction.wordCount

/-- The output goes on by one frame for each attempt that succeeds, and they are counted. -/
theorem after_of_accepting (haccepting : saving.output.sink.disposition = .accepting)
    (attempts : List Attempt) :
    ∃ frames, List.Forall₂ Fits (saving.succeeded attempts) frames ∧
      saving.output.Took (saving.after attempts).output
        (saving.output.order.bytesOf frames.flatten) ∧
      (saving.after attempts).index = saving.index + frames.length := by
  induction attempts generalizing saving with
  | nil => exact ⟨[], .nil, .refl _, rfl⟩
  | cons first later ih =>
      rcases instruction_of_accepting first.dialect first.instruction haccepting with
        ⟨frame, next, hlayOut, hok, htook, hindex⟩ | ⟨failure, next, -, herror, houtput, hindex⟩
      · have hattempt : saving.attempt first = (.ok (), next) := hok
        obtain ⟨frames, hfits, hlater, hcount⟩ :=
          ih (htook.disposition_eq.trans haccepting)
        rw [htook.order_eq] at hlater
        rw [succeeded_cons_of_ok hattempt, after_cons, hattempt]
        refine ⟨frame :: frames, .cons (announced_of_layOut hlayOut) hfits, ?_, ?_⟩
        · rw [List.flatten_cons, ByteOrder.bytesOf_append]
          exact htook.trans hlater
        · rw [hcount, hindex, List.length_cons]
          omega
      · -- Nothing but the scratch buffer has changed, and the frames are those of the later attempts.
        have hattempt : saving.attempt first = (.error failure, next) := herror
        rw [← houtput] at haccepting ⊢
        rw [succeeded_cons_of_error hattempt, after_cons, hattempt, ← hindex]
        exact ih haccepting

/-! ## Behind a header -/

/-- A header was written, and the saving goes on in its byte order. -/
structure Begins (saving started : Saving) (header : Header) (order : ByteOrder) : Prop where
  supported : header.Supported order
  accepted_eq : started.output.sink.accepted.toList =
    saving.output.sink.accepted.toList ++ header.image order
  order_eq : started.output.order = order
  disposition_eq : started.output.sink.disposition = saving.output.sink.disposition
  flush_eq : started.output.sink.flushFailure? = saving.output.sink.flushFailure?
  scratch_eq : started.scratch = saving.scratch
  index_eq : started.index = saving.index

theorem header_of_error {header : Header} {failure : Failure}
    (h : header.writtenOrder = .error failure) : saving.header header = (.error failure, saving) := by
  obtain ⟨output, scratch, index⟩ := saving
  rw [Saving.header, Header.write_of_error h]

theorem header_of_supported {header : Header} {order : ByteOrder} (h : header.Supported order)
    (haccepting : saving.output.sink.disposition = .accepting) :
    ∃ started, saving.header header = (.ok (), started) := by
  obtain ⟨output, scratch, index⟩ := saving
  obtain ⟨last, hwrite, -⟩ := Header.write_of_supported h output
  obtain ⟨next, hput, -⟩ := Output.putPieces_of_accepting haccepting (header.pieces order)
  rw [Saving.header, hwrite, hput]
  exact ⟨_, rfl⟩

theorem begins_of_header {header : Header} (h : saving.header header = (.ok (), started)) :
    ∃ order, saving.Begins started header order := by
  cases horder : header.writtenOrder with
  | error failure =>
      rw [header_of_error horder] at h
      cases h
  | ok order =>
      obtain ⟨output, scratch, index⟩ := saving
      have hsupported := Header.writtenOrder_eq_ok_iff.mp horder
      obtain ⟨last, hwrite, hlast⟩ := Header.write_of_supported hsupported output
      rw [Saving.header, hwrite] at h
      rcases hput : output.putPieces (header.pieces order) with ⟨_ | _, next⟩
      · rw [hput] at h
        cases h
      · rw [hput] at h hlast
        cases h
        have htook := Output.took_of_putPieces hput
        rw [Header.flatten_pieces] at htook
        exact ⟨order, hsupported, htook.accepted_eq, hlast rfl, htook.disposition_eq, htook.flush_eq,
          rfl, rfl⟩

/-- Whatever the codecs do, what follows the header is made of frames: one for each attempt that succeeded,
with a first word that announces as many words as the frame has, which are no more than the instruction
takes. They are as many as were counted. After any attempts the next one takes no words from beyond the end
of a buffer; and if it fails, the failure is the codec's own or a wrong size, and nothing is written. -/
theorem frames_of_attempts {sink : Sink} {header : Header}
    (haccepting : sink.disposition = .accepting)
    (hheader : (ofSink sink).header header = (.ok (), started)) (attempts : List Attempt) :
    ∃ order frames, header.Supported order ∧
      started.output.sink.accepted.toList = sink.accepted.toList ++ header.image order ∧
      (started.after attempts).output.sink.accepted.toList =
        started.output.sink.accepted.toList ++ order.bytesOf frames.flatten ∧
      items order (order.bytesOf frames.flatten) = frames.map Item.frame ∧
      List.Forall₂ (fun attempt frame => (∃ first later, frame = first :: later ∧
          1 ≤ Frame.wordsOf first ∧ Frame.wordsOf first ≤ attempt.instruction.wordCount ∧
          Frame.wordsOf first = frame.length)) (started.succeeded attempts) frames ∧
      frames.length =
        (started.transcript attempts).countP (fun answered => answered.2.isOk) ∧
      (started.after attempts).index = frames.length ∧
      ∀ dialect instruction,
        (started.after attempts).instructionWithin? dialect instruction =
          some ((started.after attempts).instruction dialect instruction) ∧
        ∀ failure,
          ((started.after attempts).instruction dialect instruction).1 = .error failure →
          ((started.after attempts).instruction dialect instruction).2.output =
              (started.after attempts).output ∧
            ((dialect.encode instruction (Frame.grown (started.after attempts).scratch
                instruction.wordCount).toVector).1 = .error failure ∨
              ∃ size, failure = .badSize size) := by
  obtain ⟨order, hbegins⟩ := begins_of_header hheader
  have hstarted := hbegins.disposition_eq.trans haccepting
  obtain ⟨frames, hfits, htook, hindex⟩ := after_of_accepting hstarted attempts
  have hlast := htook.disposition_eq.trans hstarted
  rw [hbegins.order_eq] at htook
  rw [hbegins.index_eq] at hindex
  have hannounced : ∀ frame ∈ frames, Frame.Announced frame :=
    ((List.forall₂_and_left _ _).mp hfits.flip).1
  refine ⟨order, frames, hbegins.supported, hbegins.accepted_eq, htook.accepted_eq,
    items_eq_map_frame_iff.mpr ⟨hannounced, rfl⟩, ?_, ?_, hindex.trans (Nat.zero_add _), ?_⟩
  · refine hfits.imp fun attempt frame hframe => ?_
    obtain ⟨⟨first, later, rfl, hsize⟩, hle⟩ := hframe
    exact ⟨first, later, rfl, by omega, hsize ▸ hle, hsize⟩
  · rw [← hfits.length_eq, succeeded, List.length_map, List.countP_eq_length_filter]
  · intro dialect instruction
    refine ⟨instructionWithin?_eq _ _ _, fun failure hfailure => ?_⟩
    rcases instruction_of_accepting dialect instruction hlast with
      ⟨frame, next, -, hok, -⟩ | ⟨other, next, hlayOut, herror, houtput, -⟩
    · rw [hok] at hfailure
      cases hfailure
    · rw [herror] at hfailure ⊢
      cases hfailure
      exact ⟨houtput, failure_of_layOut hlayOut⟩

/-- A codec that fills the buffer with one word, and claims to have written any number of them. -/
def filling (first : Word) (claimed : Nat) : Codec where
  decode := fun _ => .error .truncated
  encode := fun {size} _ _ => (.ok claimed, Vector.replicate size first)

/-- An attempt to write a capability, which takes two words, with a codec of that kind. -/
def fillingAttempt (first : Word) (claimed : Nat) : Attempt where
  dialect := Dialect.empty.bind 17 (filling first claimed)
  instruction :=
    ⟨⟨"OpCapability", 17, .preamble, [⟨"capability", .selector Standard.capability⟩], []⟩,
      ⟨1⟩, ()⟩

/-- A first word that announces one word, one that announces five, a codec that claims to have written three,
and one that writes a frame. -/
def fillingAttempts : List Attempt :=
  [fillingAttempt 0x00010011 2, fillingAttempt 0x00050011 2, fillingAttempt 0x00020011 3,
    fillingAttempt 0x00020011 2]

/-- The first and the last attempt succeed, and the output is cut into their two frames. -/
theorem frames_of_fillingAttempts :
    ∃ started, (ofSink .unbounded).header (.ofOrder .little) = (.ok (), started) ∧
      (started.after fillingAttempts).index = 2 ∧
      (started.after fillingAttempts).output.sink.accepted.toList =
        (Header.ofOrder .little).image .little ++
          ByteOrder.little.bytesOf [0x00010011, 0x00020011, 0x00020011] ∧
      ∃ frames : List (List Word), frames.length = 2 ∧
        items .little (ByteOrder.little.bytesOf [0x00010011, 0x00020011, 0x00020011]) =
          frames.map Item.frame := by
  have hheader : (ofSink .unbounded).header (.ofOrder .little) =
      (.ok (), ((ofSink .unbounded).header (.ofOrder .little)).2) :=
    Prod.ext (by decide +kernel) rfl
  obtain ⟨order, frames, hsupported, hstarted, haccepted, hitems, -, hcount, hindex, -⟩ :=
    frames_of_attempts (show Sink.unbounded.disposition = .accepting from rfl) hheader
      fillingAttempts
  obtain rfl : ByteOrder.little = order := Except.ok.inj hsupported.order_eq
  have hbytes : ByteOrder.little.bytesOf frames.flatten =
      ByteOrder.little.bytesOf [0x00010011, 0x00020011, 0x00020011] := by
    refine List.append_cancel_left (haccepted.symm.trans ?_)
    decide +kernel
  have htwo : frames.length = 2 := hcount.trans (by decide +kernel)
  refine ⟨_, hheader, hindex.trans htwo, ?_, frames, htwo, hbytes ▸ hitems⟩
  rw [haccepted, hstarted, hbytes]
  rfl

/-! ## Whole modules -/

/-- What becomes of instructions one after another: their frames, or what the first refused one of them is
refused with. -/
def layOutAll (dialect : Dialect) : List Instruction → Array Word → Except Failure (List (List Word))
  | [], _ => .ok []
  | first :: later, scratch =>
    match layOut dialect first scratch with
    | (.error failure, _) => .error failure
    | (.ok frame, scratch) => (layOutAll dialect later scratch).map (frame :: ·)

/-- A sink that accepts everything takes the frames, and only a refusal is a failure. -/
theorem instructions_of_accepting (dialect : Dialect) (code : List Instruction)
    (haccepting : saving.output.sink.disposition = .accepting) :
    ∃ next, saving.instructions dialect code =
        ((layOutAll dialect code saving.scratch).map fun _ => (), next) ∧
      ∀ frames, layOutAll dialect code saving.scratch = .ok frames →
        saving.output.Took next.output (saving.output.order.bytesOf frames.flatten) := by
  induction code generalizing saving with
  | nil =>
      refine ⟨saving, rfl, fun frames hframes => ?_⟩
      cases hframes
      exact .refl _
  | cons first later ih =>
      rw [instructions, layOutAll, instruction_eq]
      rcases layOut dialect first saving.scratch with ⟨failure | frame, scratch⟩
      · exact ⟨_, rfl, fun _ hframes => by cases hframes⟩
      · obtain ⟨output, hput, htook⟩ := Output.putPieces_words_of_accepting haccepting frame
        -- The later instructions are laid out in the buffer that the first one has left.
        have hnext : (Saving.mk output scratch (saving.index + 1)).output.sink.disposition =
            .accepting := htook.disposition_eq.trans haccepting
        obtain ⟨next, hcode, hlater⟩ := ih hnext
        dsimp only at hlater
        simp only [hput, hcode]
        rcases hlayOut : layOutAll dialect later scratch with failure | frames
        · exact ⟨next, rfl, fun _ hframes => by cases hframes⟩
        · refine ⟨next, rfl, fun _ hframes => ?_⟩
          cases hframes
          have htook' := hlater frames hlayOut
          rw [htook.order_eq] at htook'
          rw [List.flatten_cons, ByteOrder.bytesOf_append]
          exact htook.trans htook'

end Saving

/-- Whatever the codecs do, what is saved is the header and then the frames, which do not depend on it. -/
theorem Module.toBytes_eq (dialect : Dialect) (module : Module) :
    module.toBytes dialect =
      match module.header.writtenOrder with
      | .error failure => .error failure
      | .ok order => (Saving.layOutAll dialect module.code #[]).map fun frames =>
          module.header.image order ++ order.bytesOf frames.flatten := by
  have haccepting : (Saving.ofSink .unbounded).output.sink.disposition = .accepting := rfl
  unfold toBytes save
  cases horder : module.header.writtenOrder with
  | error failure => rw [Saving.header_of_error horder]
  | ok order =>
      have hsupported := Header.writtenOrder_eq_ok_iff.mp horder
      obtain ⟨started, hheader⟩ := Saving.header_of_supported hsupported haccepting
      obtain ⟨other, hbegins⟩ := Saving.begins_of_header hheader
      obtain rfl : order = other :=
        Except.ok.inj (hsupported.order_eq.symm.trans hbegins.supported.order_eq)
      obtain ⟨next, hcode, hframes⟩ := Saving.instructions_of_accepting dialect module.code
        (hbegins.disposition_eq.trans haccepting)
      have hscratch : started.scratch = #[] := hbegins.scratch_eq
      rw [hscratch] at hcode hframes
      simp only [hheader, hcode]
      rcases hlayOut : Saving.layOutAll dialect module.code #[] with failure | frames
      · rfl
      · have htook := hframes frames hlayOut
        have hflush : next.output.flush = .ok () := by
          rw [Output.flush, htook.flush_eq, hbegins.flush_eq]
          rfl
        have haccepted := htook.accepted_eq
        rw [hbegins.order_eq, hbegins.accepted_eq] at haccepted
        simp only [Except.map, hflush, haccepted]
        rfl

end ShaderBinary
