import ShaderBinary.Proofs.Module.Exhausting

/-!
# What a dialect remembers of the calls to it

A dialect is put together and extended by any sequence of calls, and may be used for decoding and encoding
in between. All it remembers is the last codec that each opcode was bound to: `history` lists the bindings
of all calls in order, `LastBound` picks the last one of an opcode, and a dialect `Records` a history if
these are what it finds. One call adds its own bindings to what is recorded (`Records.afterCall`), so that
a sequence of calls records its history (`records_ofCalls`).

`Dialect.last_binding_wins` is what follows for everything that can be asked of a dialect. Opcode 0 can be
bound like any other, but nothing is decoded or encoded with it, and so no module is loaded from a stream
with an instruction of this opcode.
-/

namespace ShaderBinary

open Wire

/-- What can be done with a dialect, while it is put together and afterwards. -/
inductive Call
  /-- Binds the standard signatures, one after the other. -/
  | bindStandard
  /-- Binds a signature's opcode to its codec. -/
  | bindSignature (signature : Signature)
  /-- Binds an opcode. -/
  | bind (opcode : Opcode) (codec : Codec)
  /-- Binds an opcode and asks for the codec this replaces. -/
  | register (opcode : Opcode) (codec : Codec)
  | decode (frame : List Word)
  | encode {size : Nat} (instruction : Instruction) (buffer : Vector Word size)

/-- The bindings that a call adds, in order. -/
def Call.bindings : Call → List (Opcode × Codec)
  | .bindStandard => Standard.signatures.map fun signature => (signature.opcode, signature.codec)
  | .bindSignature signature => [(signature.opcode, signature.codec)]
  | .bind opcode codec => [(opcode, codec)]
  | .register opcode codec => [(opcode, codec)]
  | .decode _ => []
  | .encode _ _ => []

/-- The bindings of all calls, in order. -/
def history (calls : List Call) : List (Opcode × Codec) :=
  calls.flatMap Call.bindings

/-- The last binding of the opcode binds it to the codec. -/
inductive LastBound (opcode : Opcode) (codec : Codec) : List (Opcode × Codec) → Prop
  | here {later : List (Opcode × Codec)} (h : opcode ∉ later.map Prod.fst) :
      LastBound opcode codec ((opcode, codec) :: later)
  | later {first : Opcode × Codec} {later : List (Opcode × Codec)}
      (h : LastBound opcode codec later) : LastBound opcode codec (first :: later)

namespace Dialect

/-- The dialect after a call. -/
def afterCall (dialect : Dialect) : Call → Dialect
  | .bindStandard => dialect.bindSignatures Standard.signatures
  | .bindSignature signature => dialect.bindSignature signature
  | .bind opcode codec => dialect.bind opcode codec
  | .register opcode codec => (dialect.register opcode codec).2
  | .decode _ => dialect
  | .encode _ _ => dialect

/-- The dialect that starts empty, after calls in order. -/
def ofCalls (calls : List Call) : Dialect :=
  calls.foldl afterCall empty

end Dialect

/-! ## The last binding -/

namespace LastBound

variable {opcode : Opcode} {codec : Codec} {bindings : List (Opcode × Codec)}

theorem cons_iff {first : Opcode × Codec} :
    LastBound opcode codec (first :: bindings) ↔
      LastBound opcode codec bindings ∨
        first = (opcode, codec) ∧ opcode ∉ bindings.map Prod.fst := by
  constructor
  · intro h
    cases h with
    | here h => exact .inr ⟨rfl, h⟩
    | later h => exact .inl h
  · rintro (h | ⟨rfl, h⟩)
    · exact .later h
    · exact .here h

/-- An opcode that is bound at all is bound last to some codec. -/
theorem exists_iff : (∃ codec, LastBound opcode codec bindings) ↔ opcode ∈ bindings.map Prod.fst := by
  constructor
  · rintro ⟨codec, h⟩
    induction h with
    | here h => exact List.mem_cons_self
    | later h ih => exact List.mem_cons_of_mem _ ih
  · intro h
    induction bindings with
    | nil => cases h
    | cons first later ih =>
        by_cases hlater : opcode ∈ later.map Prod.fst
        · obtain ⟨codec, hbound⟩ := ih hlater
          exact ⟨codec, .later hbound⟩
        · obtain rfl : opcode = first.1 := (List.mem_cons.mp h).resolve_right hlater
          exact ⟨first.2, .here hlater⟩

/-- One more binding is the last one of its opcode, and changes nothing for the others. -/
theorem append_singleton_iff (bound : Opcode) (replacement : Codec) :
    LastBound opcode codec (bindings ++ [(bound, replacement)]) ↔
      if bound = opcode then replacement = codec else LastBound opcode codec bindings := by
  induction bindings with
  | nil =>
      rw [List.nil_append, cons_iff]
      have hnothing : ¬ LastBound opcode codec [] := nofun
      by_cases hsame : bound = opcode <;> simp [hsame, hnothing]
  | cons first later ih =>
      rw [List.cons_append, cons_iff, ih, cons_iff, List.map_append, List.mem_append]
      by_cases hsame : bound = opcode
      · -- The last binding is behind that of `first`, whatever this binds.
        simp [hsame]
      · simp [hsame, Ne.symm hsame]

end LastBound

namespace Dialect

variable {dialect : Dialect} {bindings : List (Opcode × Codec)}

/-- What the dialect finds for an opcode is what the bindings bind it to last. -/
def Records (dialect : Dialect) (bindings : List (Opcode × Codec)) : Prop :=
  ∀ opcode codec, dialect.find? opcode = some codec ↔ LastBound opcode codec bindings

theorem records_empty : empty.Records [] := by
  intro opcode codec
  constructor
  · intro h
    cases h
  · intro h
    cases h

theorem Records.bind (h : dialect.Records bindings) (opcode : Opcode) (codec : Codec) :
    (dialect.bind opcode codec).Records (bindings ++ [(opcode, codec)]) := by
  intro other found
  rw [find?_bind, LastBound.append_singleton_iff]
  split
  · exact Option.some_inj
  · exact h other found

theorem Records.bindSignatures (h : dialect.Records bindings) (signatures : List Signature) :
    (dialect.bindSignatures signatures).Records
      (bindings ++ signatures.map fun signature => (signature.opcode, signature.codec)) := by
  induction signatures generalizing dialect bindings with
  | nil => rwa [List.map_nil, List.append_nil]
  | cons signature later ih =>
      have hlater := ih (h.bind signature.opcode signature.codec)
      rwa [List.append_assoc] at hlater

/-- A call adds its bindings to what is recorded. -/
theorem Records.afterCall (h : dialect.Records bindings) (call : Call) :
    (dialect.afterCall call).Records (bindings ++ call.bindings) := by
  cases call with
  | bindStandard => exact h.bindSignatures Standard.signatures
  | bindSignature signature => exact h.bind signature.opcode signature.codec
  | bind opcode codec => exact h.bind opcode codec
  | register opcode codec => exact h.bind opcode codec
  | decode frame => rwa [Call.bindings, List.append_nil]
  | encode instruction buffer => rwa [Call.bindings, List.append_nil]

theorem Records.afterCalls (h : dialect.Records bindings) (calls : List Call) :
    (calls.foldl Dialect.afterCall dialect).Records (bindings ++ history calls) := by
  induction calls generalizing dialect bindings with
  | nil => rwa [history, List.flatMap_nil, List.append_nil]
  | cons call later ih =>
      have hlater := ih (h.afterCall call)
      rwa [List.append_assoc] at hlater

theorem records_ofCalls (calls : List Call) : (ofCalls calls).Records (history calls) :=
  records_empty.afterCalls calls

/-! ## What is recorded decides the answers -/

theorem Records.find?_eq_none_iff (h : dialect.Records bindings) {opcode : Opcode} :
    dialect.find? opcode = none ↔ opcode ∉ bindings.map Prod.fst := by
  rw [← LastBound.exists_iff, Option.eq_none_iff_forall_ne_some, not_exists]
  exact forall_congr' fun codec => not_congr (h opcode codec)

theorem mem_opcodes_iff {opcode : Opcode} :
    opcode ∈ dialect.opcodes ↔ dialect.find? opcode ≠ none := by
  unfold opcodes find?
  rw [ne_eq, Option.map_eq_none_iff, List.find?_eq_none]
  simp

/-- Opcodes are listed in ascending order. -/
theorem opcodes_ascending (dialect : Dialect) : dialect.opcodes.Pairwise (· < ·) :=
  List.pairwise_map.mpr dialect.ascending

/-- Decoding by a codec, if one was selected. -/
def decodeBy (selected : Except Failure Codec) (payload : List Word) : Except Failure Instruction :=
  match selected with
  | .error failure => .error failure
  | .ok codec => codec.decode payload

/-- Encoding by a codec, if one was selected. Otherwise nothing is written. -/
def encodeBy {size : Nat} (selected : Except Failure Codec) (instruction : Instruction)
    (buffer : Vector Word size) : Except Failure Nat × Vector Word size :=
  match selected with
  | .error failure => (.error failure, buffer)
  | .ok codec => codec.encode instruction buffer

/-- The instructions of the opcode are left to a codec, or they are refused. -/
structure Dispatches (dialect : Dialect) (opcode : Opcode) (selected : Except Failure Codec) :
    Prop where
  decode_eq : ∀ first payload, Frame.opcodeOf first = opcode →
    dialect.decode (first :: payload) = decodeBy selected payload
  encode_eq : ∀ {size : Nat} (instruction : Instruction) (buffer : Vector Word size),
    instruction.signature.opcode = opcode →
      dialect.encode instruction buffer = encodeBy selected instruction buffer

theorem dispatches_codecFor (dialect : Dialect) (opcode : Opcode) :
    dialect.Dispatches opcode (dialect.codecFor opcode) := by
  refine ⟨?_, ?_⟩
  · rintro first payload rfl
    rfl
  · rintro size instruction buffer rfl
    rfl

/-- Whatever it is bound to, the reserved opcode is refused. -/
theorem dispatches_reserved (dialect : Dialect) :
    dialect.Dispatches reservedOpcode (.error (.reservedOpcode reservedOpcode)) :=
  dialect.dispatches_codecFor reservedOpcode

theorem Records.dispatches_of_notMem (h : dialect.Records bindings) {opcode : Opcode}
    (hne : opcode ≠ reservedOpcode) (hunbound : opcode ∉ bindings.map Prod.fst) :
    dialect.Dispatches opcode (.error (.unknownOpcode opcode)) := by
  have hcodec : dialect.codecFor opcode = .error (.unknownOpcode opcode) := by
    rw [codecFor, if_neg hne, h.find?_eq_none_iff.mpr hunbound]
  exact hcodec ▸ dialect.dispatches_codecFor opcode

theorem Records.dispatches_of_lastBound (h : dialect.Records bindings) {opcode : Opcode}
    {codec : Codec} (hne : opcode ≠ reservedOpcode) (hbound : LastBound opcode codec bindings) :
    dialect.Dispatches opcode (.ok codec) := by
  have hcodec : dialect.codecFor opcode = .ok codec :=
    codecFor_eq_ok_iff.mpr ⟨hne, (h opcode codec).mpr hbound⟩
  exact hcodec ▸ dialect.dispatches_codecFor opcode

/-! ## Other opcodes -/

/-- Nothing that can be asked about the opcode tells the dialects apart. -/
structure AgreesOn (dialect other : Dialect) (opcode : Opcode) : Prop where
  find?_eq : dialect.find? opcode = other.find? opcode
  replaced_eq : ∀ codec, (dialect.register opcode codec).1 = (other.register opcode codec).1
  mem_opcodes_iff : opcode ∈ dialect.opcodes ↔ opcode ∈ other.opcodes
  decode_eq : ∀ first payload, Frame.opcodeOf first = opcode →
    dialect.decode (first :: payload) = other.decode (first :: payload)
  encode_eq : ∀ {size : Nat} (instruction : Instruction) (buffer : Vector Word size),
    instruction.signature.opcode = opcode →
      dialect.encode instruction buffer = other.encode instruction buffer

theorem agreesOn_of_find?_eq {other : Dialect} {opcode : Opcode}
    (h : dialect.find? opcode = other.find? opcode) : dialect.AgreesOn other opcode := by
  have hcodec : dialect.codecFor opcode = other.codecFor opcode := by
    rw [codecFor, codecFor, h]
  have hdispatches := hcodec ▸ dialect.dispatches_codecFor opcode
  have hother := other.dispatches_codecFor opcode
  refine ⟨h, fun _ => h, ?_, fun first payload hopcode => ?_, fun instruction buffer hopcode => ?_⟩
  · rw [Dialect.mem_opcodes_iff, Dialect.mem_opcodes_iff, h]
  · rw [hdispatches.decode_eq first payload hopcode, hother.decode_eq first payload hopcode]
  · rw [hdispatches.encode_eq instruction buffer hopcode,
      hother.encode_eq instruction buffer hopcode]

/-- A call changes nothing for the opcodes it does not bind. -/
theorem agreesOn_afterCall {call : Call} {opcode : Opcode}
    (h : opcode ∉ call.bindings.map Prod.fst) (dialect : Dialect) :
    (dialect.afterCall call).AgreesOn dialect opcode := by
  have hbind {bound : Opcode} (codec : Codec) (hbound : opcode ∉ [bound]) :
      (dialect.bind bound codec).find? opcode = dialect.find? opcode := by
    rw [find?_bind, if_neg fun hsame => hbound (List.mem_singleton.mpr hsame.symm)]
  apply agreesOn_of_find?_eq
  cases call with
  | bindStandard =>
      rw [Call.bindings, List.map_map] at h
      exact find?_bindSignatures_of_notMem h dialect
  | bindSignature signature => exact hbind signature.codec h
  | bind bound codec => exact hbind codec h
  | register bound codec => exact hbind codec h
  | decode frame => rfl
  | encode instruction buffer => rfl

end Dialect

/-! ## Streams with the reserved opcode -/

/-- No module is loaded from a stream with an instruction of the reserved opcode. -/
theorem Module.load_ne_ok_of_reserved {dialect : Dialect} {source : Source} {header : Header}
    {order : ByteOrder} {bytes : List UInt8} {first : Word} {payload : List Word}
    (horder : header.order = .ok order)
    (hdelivers : Delivers source.arrivals (header.image order ++ bytes))
    (hitem : .frame (first :: payload) ∈ items order bytes)
    (hreserved : Frame.opcodeOf first = reservedOpcode) (module : Module) :
    load dialect source ≠ .ok module := by
  intro hload
  have hexhausted : load dialect source.exhausting = .ok module := load_exhausting hload
  by_cases hversion : header.version = Header.supportedVersion
  · have hending : source.exhausting.ending = .exhausted := rfl
    rw [load_image_append ⟨horder, hversion⟩ hending hdelivers] at hexhausted
    cases hitems : dialect.decodeItems (items order bytes) with
    | error failure =>
        rw [hitems] at hexhausted
        cases hexhausted
    | ok code =>
        -- All items are frames that were decoded, the one with the reserved opcode among them.
        obtain ⟨frames, hframes, hdecoded⟩ := Dialect.decodeItems_eq_ok_iff.mp hitems
        rw [hframes] at hitem
        obtain ⟨frame, hmem, hframe⟩ := List.mem_map.mp hitem
        cases hframe
        have hall : ∀ frame ∈ frames, ∃ instruction, dialect.decode frame = .ok instruction :=
          ((List.forall₂_and_left _ _).mp
            (hdecoded.imp fun _ instruction h => ⟨⟨instruction, h⟩, h⟩)).1
        obtain ⟨instruction, hdecode⟩ := hall _ hmem
        rw [dialect.dispatches_reserved.decode_eq first payload hreserved] at hdecode
        cases hdecode
  · have hholds : Input.Holds (.ofSource source.exhausting) (header.image order ++ bytes) :=
      ⟨rfl, hdelivers⟩
    obtain ⟨next, hread, -⟩ := Header.read_of_image horder hholds
    rw [if_neg hversion] at hread
    rw [load_of_read_error hread] at hexhausted
    cases hexhausted

/-! ## All calls -/

namespace Dialect

/-- A dialect is a map in which the last writer wins, with a reserved key. After any calls to it

* it finds the codec that an opcode was bound to last, if it was bound;
* binding an opcode once more hands back this codec;
* it lists the opcodes that were bound, in ascending order and each once, and counts them;
* an instruction is decoded and encoded by the codec that its opcode was bound to last, and one whose opcode
  was not bound, or is the reserved one, is refused;
* a further call changes nothing for the opcodes it does not bind;
* no module is loaded from a stream with an instruction of the reserved opcode, however the stream is
  delivered and whether it ends or fails. -/
theorem last_binding_wins (calls : List Call) :
    (∀ opcode codec, (ofCalls calls).find? opcode = some codec ↔
        LastBound opcode codec (history calls)) ∧
      (∀ opcode, (ofCalls calls).find? opcode = none ↔ opcode ∉ (history calls).map Prod.fst) ∧
      (∀ opcode codec replaced, ((ofCalls calls).register opcode codec).1 = some replaced ↔
        LastBound opcode replaced (history calls)) ∧
      (∀ opcode codec, ((ofCalls calls).register opcode codec).1.isSome ↔
        opcode ∈ (history calls).map Prod.fst) ∧
      (ofCalls calls).opcodes.Pairwise (· < ·) ∧
      (∀ opcode, opcode ∈ (ofCalls calls).opcodes ↔ opcode ∈ (history calls).map Prod.fst) ∧
      (ofCalls calls).size = (ofCalls calls).opcodes.length ∧
      (ofCalls calls).Dispatches reservedOpcode (.error (.reservedOpcode 0)) ∧
      (∀ opcode, opcode ≠ reservedOpcode → opcode ∉ (history calls).map Prod.fst →
        (ofCalls calls).Dispatches opcode (.error (.unknownOpcode opcode))) ∧
      (∀ opcode codec, opcode ≠ reservedOpcode → LastBound opcode codec (history calls) →
        (ofCalls calls).Dispatches opcode (.ok codec)) ∧
      (∀ call opcode, opcode ∉ call.bindings.map Prod.fst →
        ((ofCalls calls).afterCall call).AgreesOn (ofCalls calls) opcode) ∧
      ∀ (source : Source) (header : Header) order bytes first payload,
        header.order = .ok order → Delivers source.arrivals (header.image order ++ bytes) →
        .frame (first :: payload) ∈ items order bytes → Frame.opcodeOf first = reservedOpcode →
        ∀ module, Module.load (ofCalls calls) source ≠ .ok module := by
  have hrecords := records_ofCalls calls
  have hreplaced (opcode : Opcode) (codec : Codec) :
      ((ofCalls calls).register opcode codec).1.isSome ↔ opcode ∈ (history calls).map Prod.fst := by
    rw [Option.isSome_iff_ne_none, ne_eq,
      show ((ofCalls calls).register opcode codec).1 = (ofCalls calls).find? opcode from rfl,
      hrecords.find?_eq_none_iff, not_not]
  have hmem (opcode : Opcode) :
      opcode ∈ (ofCalls calls).opcodes ↔ opcode ∈ (history calls).map Prod.fst := by
    rw [mem_opcodes_iff, ne_eq, hrecords.find?_eq_none_iff, not_not]
  exact ⟨hrecords, fun _ => hrecords.find?_eq_none_iff,
    fun opcode _ replaced => hrecords opcode replaced, hreplaced, opcodes_ascending _, hmem,
    (List.length_map _).symm, dispatches_reserved _, fun _ => hrecords.dispatches_of_notMem,
    fun _ _ => hrecords.dispatches_of_lastBound, fun _ _ h => agreesOn_afterCall h _,
    fun _ _ _ _ _ _ => Module.load_ne_ok_of_reserved⟩

/-- An instruction that has one operand, an id. -/
def void : Signature :=
  ⟨"OpTypeVoid", 19, .declaration, [⟨"result", .id⟩], []⟩

/-- The reserved opcode is bound, and `OpCapability` becomes another name for `OpTypeVoid`. -/
def rebinding : List Call :=
  [.register 0 void.codec, .bindStandard, .decode [0x00010000], .bind 17 void.codec,
    .encode ⟨void, ⟨1⟩, ()⟩ (Vector.replicate 2 0)]

theorem last_binding_wins_rebinding :
    (ofCalls rebinding).find? 17 = some void.codec ∧
      ((ofCalls rebinding).register 0 void.codec).1 = some void.codec ∧
      (ofCalls rebinding).decode [0x00020011, 7] = .ok ⟨void, ⟨7⟩, ()⟩ ∧
      (ofCalls rebinding).decode [0x00020000, 7] = .error (.reservedOpcode 0) ∧
      (ofCalls rebinding).decode [0x000103E7] = .error (.unknownOpcode 999) ∧
      (∀ codec, ((ofCalls rebinding).afterCall (.register 17 codec)).AgreesOn (ofCalls rebinding) 19) ∧
      ∀ module, Module.load (ofCalls rebinding)
        ⟨[.piece ((Header.ofOrder .little).image .little ++ [0, 0, 1, 0])], .failing "out of reach"⟩ ≠
          .ok module := by
  obtain ⟨hfind, -, hreplaced, -, -, -, -, hreserved, hunknown, hselected, hothers, hload⟩ :=
    last_binding_wins rebinding
  have hlast : LastBound 17 void.codec (history (rebinding.take 3) ++ [(17, void.codec)]) := by
    rw [LastBound.append_singleton_iff, if_pos rfl]
  have hzero : LastBound 0 void.codec (history rebinding) := .here (by decide +kernel)
  refine ⟨(hfind 17 _).mpr hlast, (hreplaced 0 _ _).mpr hzero, ?_, ?_, ?_, fun codec => ?_, ?_⟩
  · exact (hselected 17 _ (by decide) hlast).decode_eq 0x00020011 [7] rfl
  · exact hreserved.decode_eq 0x00020000 [7] rfl
  · exact (hunknown 999 (by decide) (by decide +kernel)).decode_eq 0x000103E7 [] rfl
  · exact hothers (.register 17 codec) 19 (show (19 : Opcode) ∉ [17] by decide)
  · exact hload _ (.ofOrder .little) .little [0, 0, 1, 0] 0x00010000 [] rfl
      (.piece (by decide) .done) (by decide +kernel) rfl

end Dialect

end ShaderBinary
