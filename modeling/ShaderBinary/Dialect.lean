import ShaderBinary.Instruction
import ShaderBinary.Wire.Frames

/-!
# Codecs and dialects

A codec turns the words of an instruction into the instruction and back. Codecs may do anything with
the buffer they are given except change its size, which is part of its type. `Signature.codec` is the
codec that a signature's list of operands determines.

A dialect is what a reader or a writer of modules knows about instructions: it binds opcodes to
codecs, each opcode to at most one. Binding an opcode again replaces its codec. The bindings are
kept in ascending order of opcodes, so that a dialect can be listed.

Opcode 0 is reserved. It can be bound, but it is refused before its codec is looked up.
-/

namespace ShaderBinary

/-! ## Codecs -/

/-- How the instructions of one opcode are decoded and encoded. -/
structure Codec where
  /-- The instruction whose words after the first are those given. -/
  decode : (payload : List Word) → Except Failure Instruction
  /-- Encodes a whole instruction, first word included, at the front of a buffer, and tells how many
  words it takes. -/
  encode : {size : Nat} → Instruction → Vector Word size → Except Failure Nat × Vector Word size

/-- The failure of an instruction whose operands could not be read. -/
def Failure.ofLack (opcode : Opcode) : Operand.Lack → Failure
  | .words => .missingOperands opcode
  | .text => .badText opcode

namespace Signature

/-- Reads the operands of a signature from all words after the first. -/
def decode (signature : Signature) (payload : List Word) : Except Failure Instruction :=
  match Operands.read signature.slots payload with
  | (.error lack, _) => .error (.ofLack signature.opcode lack)
  | (.ok operands, []) => .ok ⟨signature, operands⟩
  | (.ok _, remaining) => .error (.excessOperands signature.opcode remaining.length)

/-- Writes an instruction of the signature at the front of a buffer. Everything that can be refused is
refused before the first word is written. -/
def encode {size : Nat} (signature : Signature) (instruction : Instruction)
    (buffer : Vector Word size) : Except Failure Nat × Vector Word size :=
  if instruction.signature ≠ signature then
    (.error (.foreignInstruction instruction.signature.opcode signature.name), buffer)
  else
    let words := instruction.wordCount
    if size < words then (.error (.badSize words), buffer)
    else
      match Frame.head words signature.opcode with
      | .error failure => (.error failure, buffer)
      | .ok first =>
        match Operand.Cursor.put first ⟨buffer, 0⟩ with
        | none => (.error .overrun, buffer)
        | some cursor =>
          match Operands.write instruction.signature.slots instruction.operands cursor with
          | none => (.error .overrun, buffer)
          | some final => (.ok words, final.buffer)

/-- The codec that the operands of a signature determine. -/
def codec (signature : Signature) : Codec where
  decode := signature.decode
  encode := signature.encode

end Signature

/-! ## Dialects -/

/-- The opcode that no instruction of a module has. -/
def reservedOpcode : Opcode := 0

/-- The codecs an opcode is bound to, in ascending order of opcodes. -/
structure Dialect where
  bindings : List (Opcode × Codec)
  ascending : bindings.Pairwise fun earlier later => earlier.1 < later.1

namespace Dialect

/-- Puts a binding in its place among ascending ones, instead of that of the same opcode. -/
def insertBinding (opcode : Opcode) (codec : Codec) :
    List (Opcode × Codec) → List (Opcode × Codec)
  | [] => [(opcode, codec)]
  | first :: later =>
    if opcode < first.1 then (opcode, codec) :: first :: later
    else if opcode = first.1 then (opcode, codec) :: later
    else first :: insertBinding opcode codec later

theorem opcode_of_mem_insertBinding {opcode : Opcode} {codec : Codec} {binding : Opcode × Codec} :
    {bindings : List (Opcode × Codec)} → binding ∈ insertBinding opcode codec bindings →
      binding.1 = opcode ∨ binding ∈ bindings
  | [], h => by
    simp only [insertBinding, List.mem_singleton] at h
    exact .inl (by rw [h])
  | first :: later, h => by
    unfold insertBinding at h
    split at h
    · rcases List.mem_cons.mp h with rfl | h
      · exact .inl rfl
      · exact .inr h
    · split at h
      · rcases List.mem_cons.mp h with rfl | h
        · exact .inl rfl
        · exact .inr (List.mem_cons_of_mem _ h)
      · rcases List.mem_cons.mp h with rfl | h
        · exact .inr List.mem_cons_self
        · exact (opcode_of_mem_insertBinding h).imp_right (List.mem_cons_of_mem _)

theorem insertBinding_ascending (opcode : Opcode) (codec : Codec) :
    {bindings : List (Opcode × Codec)} →
      bindings.Pairwise (fun earlier later => earlier.1 < later.1) →
      (insertBinding opcode codec bindings).Pairwise fun earlier later => earlier.1 < later.1
  | [], _ => List.pairwise_singleton ..
  | first :: later, h => by
    have headLt := (List.pairwise_cons.mp h).1
    have tail := (List.pairwise_cons.mp h).2
    unfold insertBinding
    split
    · rename_i below
      refine List.pairwise_cons.mpr ⟨fun binding member => ?_, h⟩
      rcases List.mem_cons.mp member with rfl | member
      · exact below
      · exact UInt16.lt_trans below (headLt binding member)
    · split
      · rename_i equal
        exact List.pairwise_cons.mpr ⟨fun binding member => equal ▸ headLt binding member, tail⟩
      · rename_i notBelow different
        refine List.pairwise_cons.mpr
          ⟨fun binding member => ?_, insertBinding_ascending opcode codec tail⟩
        rcases opcode_of_mem_insertBinding member with same | member
        · rw [same]
          exact UInt16.lt_of_le_of_ne (UInt16.not_lt.mp notBelow) (Ne.symm different)
        · exact headLt binding member

/-- The dialect that knows no instruction. -/
def empty : Dialect := ⟨[], List.Pairwise.nil⟩

/-- Binds an opcode to a codec, whatever it was bound to before. -/
def bind (dialect : Dialect) (opcode : Opcode) (codec : Codec) : Dialect :=
  ⟨insertBinding opcode codec dialect.bindings, insertBinding_ascending opcode codec
    dialect.ascending⟩

/-- Binds a signature's opcode to its codec. -/
def bindSignature (dialect : Dialect) (signature : Signature) : Dialect :=
  dialect.bind signature.opcode signature.codec

/-- Binds every one of several signatures, the later ones last. -/
def bindSignatures (dialect : Dialect) (signatures : List Signature) : Dialect :=
  signatures.foldl bindSignature dialect

/-- The codec an opcode is bound to. -/
def find? (dialect : Dialect) (opcode : Opcode) : Option Codec :=
  (dialect.bindings.find? fun binding => binding.1 == opcode).map (·.2)

/-- Binds an opcode and hands back the codec this replaces. -/
def register (dialect : Dialect) (opcode : Opcode) (codec : Codec) : Option Codec × Dialect :=
  (dialect.find? opcode, dialect.bind opcode codec)

/-- The codec for an opcode that occurs in a module. -/
def codecFor (dialect : Dialect) (opcode : Opcode) : Except Failure Codec :=
  if opcode = reservedOpcode then .error (.reservedOpcode opcode)
  else
    match dialect.find? opcode with
    | some codec => .ok codec
    | none => .error (.unknownOpcode opcode)

/-- The opcodes that are bound, in ascending order. -/
def opcodes (dialect : Dialect) : List Opcode :=
  dialect.bindings.map (·.1)

/-- How many opcodes are bound. -/
def size (dialect : Dialect) : Nat :=
  dialect.bindings.length

/-- Decodes the words of an instruction, first word included. The opcode in the first word selects
the codec; the number of words it announces plays no part. -/
def decode (dialect : Dialect) : (frame : List Word) → Except Failure Instruction
  | [] => .error (.badSize 0)
  | first :: payload =>
    match dialect.codecFor (Frame.opcodeOf first) with
    | .error failure => .error failure
    | .ok codec => codec.decode payload

/-- Encodes an instruction at the front of a buffer and tells how many words it takes. -/
def encode {size : Nat} (dialect : Dialect) (instruction : Instruction)
    (buffer : Vector Word size) : Except Failure Nat × Vector Word size :=
  match dialect.codecFor instruction.signature.opcode with
  | .error failure => (.error failure, buffer)
  | .ok codec => codec.encode instruction buffer

/-- The opcodes of a dialect as they are shown. -/
def describe (dialect : Dialect) : String :=
  "InstructionSet \x7b opcodes: " ++
    Operand.bracketed "[" "]" (dialect.opcodes.map fun opcode => toString opcode.toNat) ++ " \x7d"

end Dialect

end ShaderBinary
