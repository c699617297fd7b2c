import ShaderBinary.Proofs.Module.Encoding
import ShaderBinary.Proofs.Module.Truncation

/-!
# Saving is a concatenation

`Dialect.encoding` is what a dialect writes for an instruction into a buffer of its own. With the codec of a
signature, whatever opcode it is bound to, an instruction is refused or overwrites all the words it claims, so
that the scratch buffer, which still holds those of earlier instructions, makes no difference
(`Saving.layOut_eq_encoding`). What is saved is therefore one encoding after another, and taking instructions
out of a module takes their frames out of its bytes (`Module.toBytes_concatenates`).
-/

namespace ShaderBinary

open Wire

/-! ## Encodings -/

namespace Dialect

variable {dialect : Dialect} {instruction : Instruction} {frame : List Word}

/-- The words of an instruction, written into a buffer of its own size, or what it is refused with. -/
def encoding (dialect : Dialect) (instruction : Instruction) : Except Failure (List Word) :=
  match dialect.encode instruction (Vector.replicate instruction.wordCount 0) with
  | (.error failure, _) => .error failure
  | (.ok _, encoded) => .ok encoded.toList

/-- A buffer of its own size holds the words of a known instruction, and nothing else. -/
theorem encode_fresh (hknows : dialect.Knows instruction.signature)
    (hmax : instruction.wordCount ≤ Frame.maxWords)
    (fresh : Vector Word instruction.wordCount) :
    ∃ encoded, dialect.encode instruction fresh = (.ok instruction.wordCount, encoded) ∧
      encoded.toList = instruction.words := by
  obtain ⟨encoded, hencode, hwords⟩ := encode_eq_ok hknows fresh (Nat.le_refl _) hmax
  rw [List.drop_eq_nil_of_le (Nat.le_of_eq fresh.length_toList), List.append_nil] at hwords
  exact ⟨encoded, hencode, hwords⟩

theorem encoding_of_knows (hknows : dialect.Knows instruction.signature)
    (hmax : instruction.wordCount ≤ Frame.maxWords) :
    dialect.encoding instruction = .ok instruction.words := by
  obtain ⟨encoded, hencode, hwords⟩ := encode_fresh hknows hmax (Vector.replicate _ 0)
  rw [encoding, hencode, ← hwords]

theorem Refuses.encoding_eq {failure : Failure} (h : dialect.Refuses instruction failure) :
    dialect.encoding instruction = .error failure := by
  rw [encoding, h _ _ (Nat.le_refl _)]

/-- What is encoded is the words of an instruction that is known and short enough. -/
theorem Settles.encoding_eq_ok_iff (h : dialect.Settles instruction) :
    dialect.encoding instruction = .ok frame ↔ (dialect.Knows instruction.signature ∧
      instruction.wordCount ≤ Frame.maxWords) ∧ instruction.words = frame := by
  constructor
  · intro hok
    rcases h with ⟨hknows, hmax⟩ | ⟨failure, hrefuses⟩
    · rw [encoding_of_knows hknows hmax] at hok
      exact ⟨⟨hknows, hmax⟩, Except.ok.inj hok⟩
    · rw [hrefuses.encoding_eq] at hok
      cases hok
  · rintro ⟨⟨hknows, hmax⟩, rfl⟩
    exact encoding_of_knows hknows hmax

/-- The encodings of instructions that are not refused. -/
def encodings (dialect : Dialect) (code : List Instruction) : List (List Word) :=
  code.filterMap fun instruction => (dialect.encoding instruction).toOption

end Dialect

/-! ## Saving -/

namespace Saving

variable {dialect : Dialect} {instruction : Instruction} {saving started next : Saving}

/-- The scratch buffer makes no difference. -/
theorem layOut_eq_encoding (h : dialect.Settles instruction) (scratch : Array Word) :
    (layOut dialect instruction scratch).1 = dialect.encoding instruction := by
  rcases h with ⟨hknows, hmax⟩ | ⟨failure, hrefuses⟩
  · rw [layOut_of_knows hknows hmax, Dialect.encoding_of_knows hknows hmax]
  · rw [layOut_of_refuses hrefuses, hrefuses.encoding_eq]

theorem order_instruction (dialect : Dialect) (instruction : Instruction) (saving : Saving) :
    (saving.instruction dialect instruction).2.output.order = saving.output.order := by
  rw [instruction_eq]
  rcases layOut dialect instruction saving.scratch with ⟨_ | frame, scratch⟩
  · rfl
  · have horder := saving.output.order_putPieces (frame.map saving.output.order.toOctets)
    simp only
    rcases hput : saving.output.putPieces (frame.map saving.output.order.toOctets) with
      ⟨_ | _, output⟩ <;> rw [hput] at horder <;> exact horder

theorem order_after (attempts : List Attempt) (saving : Saving) :
    (saving.after attempts).output.order = saving.output.order := by
  induction attempts generalizing saving with
  | nil => rfl
  | cons first later ih =>
      rw [after_cons, ih]
      exact order_instruction first.dialect first.instruction saving

/-- A call that succeeds appends the encoding of its instruction, whatever sink it is for. -/
theorem took_of_instruction (h : dialect.Settles instruction)
    (hok : saving.instruction dialect instruction = (.ok (), next)) :
    ∃ frame, dialect.encoding instruction = .ok frame ∧
      saving.output.Took next.output (saving.output.order.bytesOf frame) := by
  rw [instruction_eq] at hok
  have hencoding := layOut_eq_encoding h saving.scratch
  rcases hlayOut : layOut dialect instruction saving.scratch with ⟨failure | frame, scratch⟩ <;>
    rw [hlayOut] at hok hencoding
  · cases hok
  · rcases hput : saving.output.putPieces (frame.map saving.output.order.toOctets) with
      ⟨failure | _, output⟩ <;> simp only [hput] at hok <;> cases hok
    exact ⟨frame, hencoding.symm, Output.took_of_putPieces_words hput⟩

/-- Instructions one after another in one dialect. -/
def attemptsIn (dialect : Dialect) (code : List Instruction) : List Attempt :=
  code.map (Attempt.mk dialect)

/-- A sink that accepts everything is left with one encoding after another, and each instruction is answered
as it would be on its own. -/
theorem after_attemptsIn {code : List Instruction}
    (hsettles : ∀ instruction ∈ code, dialect.Settles instruction)
    (haccepting : saving.output.sink.disposition = .accepting) :
    (saving.transcript (attemptsIn dialect code)).map (·.2) =
        code.map (fun instruction => (dialect.encoding instruction).map fun _ => ()) ∧
      saving.output.Took (saving.after (attemptsIn dialect code)).output
        (saving.output.order.bytesOf (dialect.encodings code).flatten) := by
  induction code generalizing saving with
  | nil => exact ⟨rfl, .refl _⟩
  | cons first later ih =>
      have hfirst := layOut_eq_encoding (hsettles first List.mem_cons_self) saving.scratch
      have hlater : ∀ instruction ∈ later, dialect.Settles instruction :=
        fun instruction hmem => hsettles instruction (List.mem_cons_of_mem _ hmem)
      rw [attemptsIn, List.map_cons, ← attemptsIn, transcript, after_cons, Dialect.encodings]
      rcases instruction_of_accepting dialect first haccepting with
        ⟨frame, next, hlayOut, hok, htook, -⟩ | ⟨failure, next, hlayOut, herror, houtput, -⟩
      · have hattempt : saving.attempt ⟨dialect, first⟩ = (.ok (), next) := hok
        rw [hlayOut] at hfirst
        obtain ⟨hanswers, htook'⟩ := ih hlater (htook.disposition_eq.trans haccepting)
        rw [htook.order_eq] at htook'
        rw [hattempt, List.filterMap_cons_some (by rw [← hfirst]; rfl), List.flatten_cons,
          ByteOrder.bytesOf_append]
        exact ⟨by simp only [List.map_cons, hanswers, ← hfirst]; rfl, htook.trans htook'⟩
      · have hattempt : saving.attempt ⟨dialect, first⟩ = (.error failure, next) := herror
        rw [hlayOut] at hfirst
        rw [← houtput] at haccepting ⊢
        obtain ⟨hanswers, htook'⟩ := ih hlater haccepting
        rw [hattempt, List.filterMap_cons_none (by rw [← hfirst]; rfl)]
        exact ⟨by simp only [List.map_cons, hanswers, ← hfirst]; rfl, htook'⟩

end Saving

/-! ## Modules -/

namespace Module

variable {dialect : Dialect} {module : Module} {bytes : List UInt8}

/-- Whatever was saved is known and short enough. -/
theorem knows_of_toBytes (hdialect : dialect.OfSignatureCodecs)
    (h : module.toBytes dialect = .ok bytes) : ∀ instruction ∈ module.code,
      dialect.Knows instruction.signature ∧ instruction.wordCount ≤ Frame.maxWords := by
  have hsettles : ∀ instruction ∈ module.code, dialect.Settles instruction :=
    fun instruction _ => hdialect.settles instruction
  obtain ⟨final, hsave, -⟩ := toBytes_eq_ok_iff_save.mp h
  obtain ⟨other, hother, -⟩ := save_unbounded hsettles
  obtain ⟨hverdict, -⟩ := Prod.mk.inj (hother.symm.trans hsave)
  obtain ⟨-, -, hnone⟩ := refusal?_eq_none_iff.mp (Saving.verdict_eq_ok_iff.mp hverdict).2
  intro instruction hinstruction
  rcases hsettles instruction hinstruction with hknown | ⟨failure, hrefuses⟩
  · exact hknown
  · have hrefused := hrefuses.refusal?_eq
    rw [hnone instruction hinstruction] at hrefused
    cases hrefused

/-- The frames of the instructions of a module that are kept when it is stripped. -/
def keptFrames (module : Module) (frames : List (List Word)) : List (List Word) :=
  ((module.code.zip frames).filter fun framed => framed.1.category ≠ .debug).map (·.2)

theorem keptFrames_map (module : Module) (frameOf : Instruction → List Word) :
    module.keptFrames (module.code.map frameOf) = module.strip.code.map frameOf := by
  unfold keptFrames strip
  induction module.code with
  | nil => rfl
  | cons first later ih =>
      simp only [List.map_cons, List.zip_cons_cons, List.filter_cons]
      split
      · rw [List.map_cons, List.map_cons, ih]
      · exact ih

/-- The frames of a module's bytes are the encodings of its instructions. -/
theorem frames_of_toBytes (hdialect : dialect.OfSignatureCodecs)
    (h : module.toBytes dialect = .ok bytes) :
    ∃ order, module.header.Supported order ∧
      bytes = module.header.image order ++
        order.bytesOf (module.code.map Instruction.words).flatten := by
  have hknown := knows_of_toBytes hdialect h
  obtain ⟨order, hsupported, -, hbytes⟩ :=
    (toBytes_eq_ok_iff (fun instruction hmem => (hknown instruction hmem).1) bytes).mp h
  rw [List.flatMap_def] at hbytes
  exact ⟨order, hsupported, hbytes⟩

/-- A module that is saved is also saved when it is stripped. -/
theorem toBytes_strip (hdialect : dialect.OfSignatureCodecs) {order : ByteOrder}
    (h : module.toBytes dialect = .ok bytes) (hsupported : module.header.Supported order) :
    module.strip.toBytes dialect = .ok (module.header.image order ++
      order.bytesOf (module.strip.code.map Instruction.words).flatten) := by
  have hknown : ∀ instruction ∈ module.strip.code,
      dialect.Knows instruction.signature ∧ instruction.wordCount ≤ Frame.maxWords :=
    fun instruction hmem => knows_of_toBytes hdialect h instruction (List.mem_of_mem_filter hmem)
  rw [← List.flatMap_def]
  exact (toBytes_eq_ok_iff (fun instruction hmem => (hknown instruction hmem).1) _).mpr
    ⟨order, hsupported, fun instruction hmem => (hknown instruction hmem).2, rfl⟩

/-- With codecs of signatures every call that succeeds appends the words that its instruction has when it is
encoded on its own, into a buffer that holds anything. A sink that accepts everything gets one such
encoding after another, and each call is answered as if it were the only one. So the bytes of a module are a
header and the frames of its instructions, and those of the stripped module are the same without the frames
of the debug instructions. -/
theorem toBytes_concatenates (hdialect : dialect.OfSignatureCodecs) :
    (∀ sink header started, (Saving.ofSink sink).header header = (.ok (), started) →
      ∃ order, header.Supported order ∧
        (∀ earlier instruction next,
          (started.after earlier).instruction dialect instruction = (.ok (), next) →
          ∀ fresh : Vector Word instruction.wordCount, ∃ encoded,
            dialect.encode instruction fresh = (.ok instruction.wordCount, encoded) ∧
            next.output.sink.accepted.toList =
              (started.after earlier).output.sink.accepted.toList ++
                order.bytesOf encoded.toList) ∧
        (sink.disposition = .accepting → ∀ code,
          (started.transcript (Saving.attemptsIn dialect code)).map (·.2) =
              code.map (fun instruction => (dialect.encoding instruction).map fun _ => ()) ∧
            (started.after (Saving.attemptsIn dialect code)).output.sink.accepted.toList =
              sink.accepted.toList ++ header.image order ++
                order.bytesOf (dialect.encodings code).flatten)) ∧
      ∀ (module : Module) bytes, module.toBytes dialect = .ok bytes →
        ∃ order frames, module.header.Supported order ∧
          List.Forall₂ (fun instruction frame => dialect.encoding instruction = .ok frame)
            module.code frames ∧
          bytes = module.header.image order ++ order.bytesOf frames.flatten ∧
          items order (bytes.drop 20) = frames.map Item.frame ∧
          ∃ stripped, module.strip.toBytes dialect = .ok stripped ∧
            stripped =
              module.header.image order ++ order.bytesOf (module.keptFrames frames).flatten ∧
            stripped.length = 20 + 4 * (module.strip.code.map Instruction.wordCount).sum := by
  refine ⟨fun sink header started hheader => ?_, fun module bytes h => ?_⟩
  · obtain ⟨order, hbegins⟩ := Saving.begins_of_header hheader
    refine ⟨order, hbegins.supported, fun earlier instruction next hok fresh => ?_,
      fun haccepting code => ?_⟩
    · obtain ⟨frame, hencoding, htook⟩ :=
        Saving.took_of_instruction (hdialect.settles instruction) hok
      -- What the earlier calls have left in the scratch buffer is gone from here on.
      obtain ⟨⟨hknows, hmax⟩, rfl⟩ :=
        (hdialect.settles instruction).encoding_eq_ok_iff.mp hencoding
      obtain ⟨encoded, hencode, hwords⟩ := Dialect.encode_fresh hknows hmax fresh
      have haccepted := htook.accepted_eq
      rw [Saving.order_after, hbegins.order_eq, ← hwords] at haccepted
      exact ⟨encoded, hencode, haccepted⟩
    · obtain ⟨hanswers, htook⟩ := Saving.after_attemptsIn
        (fun instruction (_ : instruction ∈ code) => hdialect.settles instruction)
        (hbegins.disposition_eq.trans haccepting)
      have haccepted := htook.accepted_eq
      rw [hbegins.order_eq, hbegins.accepted_eq] at haccepted
      exact ⟨hanswers, haccepted⟩
  · have hknown := knows_of_toBytes hdialect h
    obtain ⟨order, hsupported, hbytes⟩ := frames_of_toBytes hdialect h
    have hencodings : List.Forall₂ (fun instruction frame => dialect.encoding instruction = .ok frame)
        module.code (module.code.map Instruction.words) := by
      refine List.forall₂_map_right_iff.mpr (List.forall₂_same.mpr fun instruction hmem => ?_)
      exact Dialect.encoding_of_knows (hknown instruction hmem).1 (hknown instruction hmem).2
    have hannounced : ∀ frame ∈ module.code.map Instruction.words, Frame.Announced frame := by
      intro frame hframe
      obtain ⟨instruction, hmem, rfl⟩ := List.mem_map.mp hframe
      exact Dialect.announced_words (hknown instruction hmem).2
    refine ⟨order, _, hsupported, hencodings, hbytes, ?_, _, toBytes_strip hdialect h hsupported,
      ?_, ?_⟩
    · rw [hbytes, List.drop_left' (module.header.length_image order)]
      exact items_eq_map_frame_iff.mpr ⟨hannounced, rfl⟩
    · rw [keptFrames_map]
    · have hlengths : (module.strip.code.map Instruction.words).map List.length =
          module.strip.code.map Instruction.wordCount := by
        rw [List.map_map]
        exact List.map_congr_left fun instruction _ => instruction.length_words
      rw [List.length_append, Header.length_image, ByteOrder.length_bytesOf, List.length_flatten,
        hlengths]

/-- A capability that is written after a text, which is longer, and after an instruction that is refused, has
nothing of either. Stripped of the text that follows it, it is saved as the bytes up to the text. -/
theorem toBytes_concatenates_ofCapability :
    (∃ started, (Saving.ofSink .unbounded).header ofCapability.header = (.ok (), started) ∧
      (started.after (Saving.attemptsIn Standard.crossBound
          (Standard.foreign :: ofCapability.code.reverse))).output.sink.accepted.toList =
        ByteOrder.little.bytesOf
          [0x03022307, 0x00010000, 0, 0, 0, 0x00040007, 1, 0x64636261, 0, 0x00020011, 1] ∧
      (started.transcript (Saving.attemptsIn Standard.crossBound
          (Standard.foreign :: ofCapability.code.reverse))).map (·.2) =
        [.error (.foreignInstruction 1000 "OpName"), .ok (), .ok ()]) ∧
      ofCapability.strip.toBytes Standard.crossBound = .ok (capabilityBytes.take 28) := by
  obtain ⟨hcalls, hsaved⟩ := toBytes_concatenates Standard.crossBound_ofSignatureCodecs
  constructor
  · have hheader : (Saving.ofSink .unbounded).header ofCapability.header =
        (.ok (), ((Saving.ofSink .unbounded).header ofCapability.header).2) :=
      Prod.ext (by decide +kernel) rfl
    obtain ⟨order, hsupported, -, haccepting⟩ := hcalls _ _ _ hheader
    obtain rfl : ByteOrder.little = order := Except.ok.inj hsupported.order_eq
    obtain ⟨hanswers, haccepted⟩ :=
      haccepting rfl (Standard.foreign :: ofCapability.code.reverse)
    exact ⟨_, hheader, haccepted.trans (by decide +kernel), hanswers.trans (by decide +kernel)⟩
  · obtain ⟨order, frames, hsupported, hframes, -, -, stripped, hstripped, hkept, -⟩ :=
      hsaved ofCapability capabilityBytes (by decide +kernel)
    obtain rfl : ByteOrder.little = order := Except.ok.inj hsupported.order_eq
    have hknown : List.Forall₂ (fun instruction frame =>
        Standard.crossBound.encoding instruction = .ok frame) ofCapability.code
        [[0x00020011, 1], [0x00040007, 1, 0x64636261, 0]] :=
      .cons (by decide +kernel) (.cons (by decide +kernel) .nil)
    have hunique : Relator.RightUnique fun instruction frame =>
        Standard.crossBound.encoding instruction = .ok frame :=
      fun _ _ _ hone hother => Except.ok.inj (hone.symm.trans hother)
    obtain rfl := hunique.forall₂ hknown hframes
    rw [hstripped, hkept]
    decide +kernel

end Module
end ShaderBinary
