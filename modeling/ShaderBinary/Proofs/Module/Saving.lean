import ShaderBinary.Proofs.Module.Loading
import ShaderBinary.Proofs.Wire.Framing

/-!
# Saving modules

An instruction is laid out in a scratch buffer, and the frame at the front of it is handed over
(`Saving.layOut`, `Saving.instruction_eq`). Of a known instruction these are its words, whatever the buffer
held before (`Saving.layOut_of_knows`).

What saving hands over, and whether it stops before the end, does not depend on the sink. `Module.pieces`
are the pieces, the magic number and then a word each, and `Module.refusal?` is what the header or an
instruction is refused with. `Module.save_eq` says that saving is handing over the pieces; only when all of
them are taken does the refusal show, and only when there is none is the sink asked to flush.

`Module.toBytes_eq_ok_iff` is the case of known instructions and a sink that accepts everything: such a
module can be saved if its header is supported and every instruction short enough for its first word, and
then the bytes are the image of the header followed by the words of the instructions.
-/

namespace ShaderBinary

open Wire

/-! ## Headers -/

namespace Header

variable {header : Header} {order : ByteOrder}

/-- The byte order that a header is written in, unless it is refused. -/
def writtenOrder (header : Header) : Except Failure ByteOrder :=
  match header.order with
  | .error failure => .error failure
  | .ok order =>
    if header.version = supportedVersion then .ok order
    else .error (.unsupportedVersion header.version)

theorem writtenOrder_eq_ok_iff : header.writtenOrder = .ok order ↔ header.Supported order := by
  unfold writtenOrder
  constructor
  · intro h
    split at h
    · cases h
    · next horder =>
      split at h
      · next hversion => exact ⟨by rw [horder, ← h], hversion⟩
      · cases h
  · intro h
    rw [h.order_eq]
    exact if_pos h.version_eq

/-- The pieces that a header is written in. -/
def pieces (order : ByteOrder) (header : Header) : List (List UInt8) :=
  ByteOrder.big.toOctets header.magic ::
    [header.version, header.generator, header.bound, header.reserved].map order.toOctets

theorem flatten_pieces (order : ByteOrder) (header : Header) :
    (header.pieces order).flatten = header.image order := by
  rw [pieces, List.flatten_cons, ← List.flatMap_def]
  rfl

theorem write_of_error {failure : Failure} (h : header.writtenOrder = .error failure)
    (output : Output) : header.write output = (.error failure, output) := by
  unfold writtenOrder at h
  unfold write
  cases horder : header.order with
  | error found =>
      rw [horder] at h
      rw [Except.error.inj h]
  | ok order =>
      simp only [horder] at h ⊢
      split at h
      · cases h
      · next hversion =>
        rw [if_pos hversion, ← Except.error.inj h]

/-- A header is handed over in its pieces. The byte order of the output changes behind the magic number. -/
theorem write_of_supported (h : header.Supported order) (output : Output) :
    ∃ last, header.write output =
        ((output.putPieces (header.pieces order)).1,
          { (output.putPieces (header.pieces order)).2 with order := last }) ∧
      ((output.putPieces (header.pieces order)).1 = .ok () → last = order) := by
  have hversion : ¬header.version ≠ supportedVersion := not_not.mpr h.version_eq
  rw [pieces, Output.putPieces, write]
  simp only [h.order_eq, if_neg hversion]
  rcases output.putBytes (ByteOrder.big.toOctets header.magic) with ⟨failure | _, next⟩
  · refine ⟨next.order, rfl, ?_⟩
    intro hok
    cases hok
  · refine ⟨order, ?_, fun _ => rfl⟩
    show Output.putWords _ { next with order := order } = _
    rw [Output.putWords_eq_putPieces, Output.putPieces_withOrder]

end Header

/-! ## Instructions -/

namespace Saving

variable {dialect : Dialect} {instruction : Instruction}

/-- What is answered once pieces have been handed over: a sink that fails is heard before a refusal. -/
def verdict (handed : Except Failure Unit) (refusal? : Option Failure) : Except Failure Unit :=
  match handed, refusal? with
  | .error failure, _ => .error failure
  | .ok (), some failure => .error failure
  | .ok (), none => .ok ()

theorem verdict_eq_ok_iff {handed : Except Failure Unit} {refusal? : Option Failure} :
    verdict handed refusal? = .ok () ↔ handed = .ok () ∧ refusal? = none := by
  cases handed <;> cases refusal? <;> simp [verdict]

/-- What becomes of an instruction in a scratch buffer: the frame that is to be handed over, or what the
instruction is refused with; and the buffer afterwards. -/
def layOut (dialect : Dialect) (instruction : Instruction) (scratch : Array Word) :
    Except Failure (List Word) × Array Word :=
  match dialect.encode instruction (Frame.grown scratch instruction.wordCount).toVector with
  | (.error failure, buffer) => (.error failure, buffer.toArray)
  | (.ok written, buffer) =>
    (if written = instruction.wordCount then Frame.cut (buffer.toList.take written)
      else .error (.badSize written), buffer.toArray)

/-- An instruction is refused, or its frame is handed over. -/
theorem instruction_eq (dialect : Dialect) (instruction : Instruction) (saving : Saving) :
    saving.instruction dialect instruction =
      match layOut dialect instruction saving.scratch with
      | (.error failure, scratch) => (.error failure, ⟨saving.output, scratch, saving.index⟩)
      | (.ok frame, scratch) =>
        match saving.output.putPieces (frame.map saving.output.order.toOctets) with
        | (.error failure, output) => (.error failure, ⟨output, scratch, saving.index⟩)
        | (.ok (), output) => (.ok (), ⟨output, scratch, saving.index + 1⟩) := by
  obtain ⟨output, scratch, index⟩ := saving
  unfold Saving.instruction layOut
  simp only
  rcases dialect.encode instruction (Frame.grown scratch instruction.wordCount).toVector with
    ⟨failure | written, buffer⟩
  · rfl
  · simp only [ne_eq, ite_not]
    by_cases hwritten : written = instruction.wordCount
    · rw [if_pos hwritten, if_pos hwritten, toList_extract_zero, Output.putFrame_eq]
      rcases Frame.cut (buffer.toList.take written) with failure | frame <;> rfl
    · rw [if_neg hwritten, if_neg hwritten]

/-- Whatever the scratch buffer holds, the words of a known instruction are handed over. -/
theorem layOut_of_knows (hknows : dialect.Knows instruction.signature)
    (hmax : instruction.wordCount ≤ Frame.maxWords) (scratch : Array Word) :
    (layOut dialect instruction scratch).1 = .ok instruction.words := by
  obtain ⟨buffer, hencode, hbuffer⟩ := Dialect.encode_eq_ok hknows
    (Frame.grown scratch instruction.wordCount).toVector (Frame.le_size_grown _ _) hmax
  rw [layOut, hencode]
  simp only [if_true]
  rw [hbuffer, List.take_left' instruction.length_words]
  exact Frame.cut_of_announced (Dialect.announced_words hmax)

theorem layOut_of_refuses {failure : Failure} (h : dialect.Refuses instruction failure)
    (scratch : Array Word) : (layOut dialect instruction scratch).1 = .error failure := by
  rw [layOut, h _ _ (Frame.le_size_grown _ _)]

theorem instruction_of_le (hknows : dialect.Knows instruction.signature)
    (hmax : instruction.wordCount ≤ Frame.maxWords) (saving : Saving) :
    ∃ next, saving.instruction dialect instruction =
        ((saving.output.putPieces (instruction.words.map saving.output.order.toOctets)).1, next) ∧
      next.output =
        (saving.output.putPieces (instruction.words.map saving.output.order.toOctets)).2 := by
  have hlayOut := layOut_of_knows hknows hmax saving.scratch
  rw [instruction_eq]
  rcases hlaid : layOut dialect instruction saving.scratch with ⟨failure | frame, scratch⟩ <;>
    rw [hlaid] at hlayOut <;> cases hlayOut
  simp only
  rcases saving.output.putPieces (instruction.words.map saving.output.order.toOctets) with
    ⟨_ | _, output⟩
  · exact ⟨_, rfl, rfl⟩
  · exact ⟨_, rfl, rfl⟩

/-- Nothing is handed over of an instruction that is refused. -/
theorem instruction_of_refuses {failure : Failure} (h : dialect.Refuses instruction failure)
    (saving : Saving) :
    ∃ next, saving.instruction dialect instruction = (.error failure, next) ∧
      next.output = saving.output := by
  have hlayOut := layOut_of_refuses h saving.scratch
  rw [instruction_eq]
  rcases hlaid : layOut dialect instruction saving.scratch with ⟨found | frame, scratch⟩ <;>
    rw [hlaid] at hlayOut <;> cases hlayOut
  exact ⟨_, rfl, rfl⟩

/-- The pieces that instructions are written in: the words of those before the first refused one. -/
def pieces (dialect : Dialect) (order : ByteOrder) (code : List Instruction) : List (List UInt8) :=
  ((dialect.encodable code).flatMap Instruction.words).map order.toOctets

theorem flatten_pieces (dialect : Dialect) (order : ByteOrder) (code : List Instruction) :
    (pieces dialect order code).flatten =
      order.bytesOf ((dialect.encodable code).flatMap Instruction.words) := by
  rw [pieces, ← List.flatMap_def]
  rfl

/-- Instructions are handed over in their pieces. -/
theorem instructions_eq {code : List Instruction}
    (hsettles : ∀ instruction ∈ code, dialect.Settles instruction) (saving : Saving) :
    ∃ next, saving.instructions dialect code =
        (verdict (saving.output.putPieces (pieces dialect saving.output.order code)).1
          (code.findSome? dialect.refusal?), next) ∧
      next.output = (saving.output.putPieces (pieces dialect saving.output.order code)).2 := by
  induction code generalizing saving with
  | nil => exact ⟨saving, rfl, rfl⟩
  | cons first later ih =>
      rw [instructions]
      rcases hsettles first List.mem_cons_self with ⟨hknows, hmax⟩ | ⟨failure, hrefuses⟩
      · have hnone := Dialect.refusal?_of_knows hknows hmax
        have hpieces : pieces dialect saving.output.order (first :: later) =
            first.words.map saving.output.order.toOctets ++
              pieces dialect saving.output.order later := by
          rw [pieces, Dialect.encodable_cons_of_none hnone, List.flatMap_cons, List.map_append]
          rfl
        obtain ⟨next, hfirst, hnext⟩ := instruction_of_le hknows hmax saving
        have horder := saving.output.order_putPieces (first.words.map saving.output.order.toOctets)
        rw [hpieces, Output.putPieces_append, List.findSome?_cons, hnone, hfirst]
        rcases hput : saving.output.putPieces (first.words.map saving.output.order.toOctets) with
          ⟨_ | _, output⟩ <;> rw [hput] at hnext horder
        · exact ⟨next, rfl, hnext⟩
        · -- All of the first instruction was taken, and the others follow in the same byte order.
          obtain rfl := hnext
          have hlater := ih (fun other hother => hsettles other (List.mem_cons_of_mem _ hother)) next
          rwa [horder] at hlater
      · have hsome := hrefuses.refusal?_eq
        have hpieces : pieces dialect saving.output.order (first :: later) = [] := by
          rw [pieces, Dialect.encodable_cons_of_some hsome]
          rfl
        obtain ⟨next, hfirst, hnext⟩ := instruction_of_refuses hrefuses saving
        rw [hpieces, List.findSome?_cons, hsome, hfirst]
        exact ⟨next, rfl, hnext⟩

end Saving

/-! ## Modules -/

namespace Module

variable {dialect : Dialect} {module : Module} {bytes : List UInt8}

/-- The pieces that a module is written in. -/
def pieces (dialect : Dialect) (module : Module) : List (List UInt8) :=
  match module.header.writtenOrder with
  | .error _ => []
  | .ok order => module.header.pieces order ++ Saving.pieces dialect order module.code

/-- What a module is refused with, if its header or one of its instructions is. -/
def refusal? (dialect : Dialect) (module : Module) : Option Failure :=
  match module.header.writtenOrder with
  | .error failure => some failure
  | .ok _ => module.code.findSome? dialect.refusal?

end Module

namespace Saving

variable {dialect : Dialect} {module : Module}

/-- Writes a module: its header, then its instructions. -/
def all (dialect : Dialect) (module : Module) (saving : Saving) : Except Failure Unit × Saving :=
  match saving.header module.header with
  | (.error failure, next) => (.error failure, next)
  | (.ok (), next) => next.instructions dialect module.code

/-- What saving answers once the module has been written: the sink is asked to flush. -/
def finish (outcome : Except Failure Unit) (output : Output) : Except Failure Unit × Sink :=
  match outcome with
  | .error failure => (.error failure, output.sink)
  | .ok () => (output.flush, output.sink)

theorem finish_withOrder (outcome : Except Failure Unit) (output : Output) (order : ByteOrder) :
    finish outcome { output with order := order } = finish outcome output := by
  cases outcome <;> rfl

theorem sink_finish (outcome : Except Failure Unit) (output : Output) :
    (finish outcome output).2 = output.sink := by
  cases outcome <;> rfl

/-- A module is handed over in its pieces. -/
theorem all_eq (hsettles : ∀ instruction ∈ module.code, dialect.Settles instruction)
    (saving : Saving) :
    ∃ next order, saving.all dialect module =
        (verdict (saving.output.putPieces (module.pieces dialect)).1 (module.refusal? dialect),
          next) ∧
      next.output =
        { (saving.output.putPieces (module.pieces dialect)).2 with order := order } := by
  obtain ⟨output, scratch, index⟩ := saving
  rw [all, header, Module.pieces, Module.refusal?]
  cases horder : module.header.writtenOrder with
  | error failure =>
      rw [Header.write_of_error horder]
      exact ⟨_, output.order, rfl, rfl⟩
  | ok order =>
      obtain ⟨last, hwrite, hlast⟩ :=
        Header.write_of_supported (Header.writtenOrder_eq_ok_iff.mp horder) output
      simp only [hwrite, Output.putPieces_append]
      rcases hheader : output.putPieces (module.header.pieces order) with ⟨_ | _, afterHeader⟩
      · exact ⟨_, last, rfl, rfl⟩
      · rw [hheader] at hlast
        obtain rfl := hlast rfl
        obtain ⟨next, hcode, hnext⟩ :=
          instructions_eq hsettles ⟨{ afterHeader with order := last }, scratch, index⟩
        rw [Output.putPieces_withOrder] at hcode hnext
        exact ⟨next, last, hcode, hnext⟩

end Saving

namespace Module

variable {dialect : Dialect} {module : Module} {bytes : List UInt8}

/-- Saving is writing the module, and then flushing. -/
theorem save_eq_all (dialect : Dialect) (module : Module) (sink : Sink) :
    module.save dialect sink =
      Saving.finish ((Saving.ofSink sink).all dialect module).1
        ((Saving.ofSink sink).all dialect module).2.output := by
  rw [save, Saving.all]
  rcases (Saving.ofSink sink).header module.header with ⟨_ | _, started⟩
  · rfl
  · simp only
    rcases started.instructions dialect module.code with ⟨_ | _, last⟩ <;> rfl

/-- Saving hands over the pieces of the module. -/
theorem save_eq (hsettles : ∀ instruction ∈ module.code, dialect.Settles instruction)
    (sink : Sink) : module.save dialect sink =
      Saving.finish (Saving.verdict ((Output.ofSink sink).putPieces (module.pieces dialect)).1
          (module.refusal? dialect))
        ((Output.ofSink sink).putPieces (module.pieces dialect)).2 := by
  obtain ⟨next, order, hall, hnext⟩ := Saving.all_eq hsettles (Saving.ofSink sink)
  rw [save_eq_all, hall, hnext]
  exact Saving.finish_withOrder _ _ order

/-- What is saved to a sink that accepts everything are all the bytes of the pieces. -/
theorem save_unbounded (hsettles : ∀ instruction ∈ module.code, dialect.Settles instruction) :
    ∃ final, module.save dialect .unbounded =
        (Saving.verdict (.ok ()) (module.refusal? dialect), final) ∧
      final.accepted.toList = (module.pieces dialect).flatten := by
  have haccepting : (Output.ofSink .unbounded).sink.disposition = .accepting := rfl
  obtain ⟨next, hput, hextends⟩ := Output.putPieces_of_accepting haccepting (module.pieces dialect)
  have hflush : next.flush = .ok () := by
    rw [Output.flush, hextends.flush_eq]
    rfl
  refine ⟨next.sink, ?_, hextends.accepted_eq⟩
  rw [save_eq hsettles, hput]
  cases module.refusal? dialect with
  | some failure => rfl
  | none =>
      show (next.flush, next.sink) = _
      rw [hflush]
      rfl

/-- The bytes of the pieces are the image of a supported header and the words of the instructions before the
first refused one. -/
theorem flatten_pieces_of_supported {order : ByteOrder} (h : module.header.Supported order) :
    (module.pieces dialect).flatten = module.header.image order ++
      order.bytesOf ((dialect.encodable module.code).flatMap Instruction.words) := by
  rw [pieces, Header.writtenOrder_eq_ok_iff.mpr h]
  simp only [List.flatten_append, Header.flatten_pieces, Saving.flatten_pieces]

/-- Nothing is refused if the header is supported and every instruction can be encoded. -/
theorem refusal?_eq_none_iff : module.refusal? dialect = none ↔
    ∃ order, module.header.Supported order ∧
      ∀ instruction ∈ module.code, dialect.refusal? instruction = none := by
  rw [refusal?]
  simp only [← Header.writtenOrder_eq_ok_iff, ← List.findSome?_eq_none_iff]
  cases module.header.writtenOrder <;> simp

theorem toBytes_eq_ok_iff_save : module.toBytes dialect = .ok bytes ↔
    ∃ final, module.save dialect .unbounded = (.ok (), final) ∧ final.accepted.toList = bytes := by
  unfold Module.toBytes
  rcases hsave : module.save dialect .unbounded with ⟨_ | _, final⟩ <;> simp

/-- A module of known instructions can be saved exactly if its header is supported and none of its
instructions is too long. -/
theorem toBytes_eq_ok_iff
    (hknows : ∀ instruction ∈ module.code, dialect.Knows instruction.signature)
    (bytes : List UInt8) : module.toBytes dialect = .ok bytes ↔
      ∃ order, module.header.Supported order ∧
        (∀ instruction ∈ module.code, instruction.wordCount ≤ Frame.maxWords) ∧
        bytes = module.header.image order ++
          order.bytesOf (module.code.flatMap Instruction.words) := by
  have hsettles : ∀ instruction ∈ module.code, dialect.Settles instruction :=
    fun instruction hinstruction => Dialect.settles_of_knows (hknows instruction hinstruction)
  have hfits : (∀ instruction ∈ module.code, dialect.refusal? instruction = none) ↔
      ∀ instruction ∈ module.code, instruction.wordCount ≤ Frame.maxWords :=
    forall₂_congr fun instruction hinstruction =>
      Dialect.refusal?_eq_none_iff (hknows instruction hinstruction)
  obtain ⟨final, hsave, hbytes⟩ := save_unbounded hsettles
  -- The bytes are those of the whole module once nothing is refused.
  have himage {order : ByteOrder} (hsupported : module.header.Supported order)
      (hnone : ∀ instruction ∈ module.code, dialect.refusal? instruction = none) :
      final.accepted.toList = module.header.image order ++
        order.bytesOf (module.code.flatMap Instruction.words) := by
    rw [hbytes, flatten_pieces_of_supported hsupported,
      Dialect.encodable_eq_self (List.findSome?_eq_none_iff.mpr hnone)]
  rw [toBytes_eq_ok_iff_save, hsave]
  constructor
  · rintro ⟨_, hok, rfl⟩
    obtain ⟨hverdict, rfl⟩ := Prod.mk.inj hok
    obtain ⟨order, hsupported, hnone⟩ :=
      refusal?_eq_none_iff.mp (Saving.verdict_eq_ok_iff.mp hverdict).2
    exact ⟨order, hsupported, hfits.mp hnone, himage hsupported hnone⟩
  · rintro ⟨order, hsupported, hmax, rfl⟩
    have hnone := hfits.mpr hmax
    rw [refusal?_eq_none_iff.mpr ⟨order, hsupported, hnone⟩]
    exact ⟨final, rfl, himage hsupported hnone⟩

end Module

end ShaderBinary
