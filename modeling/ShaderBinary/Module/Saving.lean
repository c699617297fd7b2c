import ShaderBinary.Dialect
import ShaderBinary.Header
import ShaderBinary.Wire.Frames

/-!
# Saving a module step by step

A `Saving` is a module that is being saved. It goes on one instruction at a time. Each instruction is
first laid out in a scratch buffer that grows with the longest one so far, and only handed over as a
whole. A codec that does not claim to have written exactly the words of its instruction is refused,
whatever it has put into the buffer.
-/

namespace ShaderBinary

/-- A module that is being saved. -/
structure Saving where
  output : Wire.Output
  scratch : Array Word
  /-- How many instructions have been written. -/
  index : Nat

namespace Saving

/-- The start of saving a module to a sink. -/
def ofSink (sink : Wire.Sink) : Saving :=
  ⟨.ofSink sink, #[], 0⟩

/-- Writes a header. -/
def header (header : Header) : Saving → Except Failure Unit × Saving
  | ⟨output, scratch, index⟩ =>
    match header.write output with
    | (outcome, output) => (outcome, ⟨output, scratch, index⟩)

/-- Writes an instruction. -/
def instruction (dialect : Dialect) (instruction : Instruction) :
    Saving → Except Failure Unit × Saving
  | ⟨output, scratch, index⟩ =>
    let words := instruction.wordCount
    match dialect.encode instruction (Frame.grown scratch words).toVector with
    | (.error failure, buffer) => (.error failure, ⟨output, buffer.toArray, index⟩)
    | (.ok written, buffer) =>
      if written ≠ words then (.error (.badSize written), ⟨output, buffer.toArray, index⟩)
      else
        match output.putFrame (buffer.toArray.extract 0 written).toList with
        | (.error failure, output) => (.error failure, ⟨output, buffer.toArray, index⟩)
        | (.ok (), output) => (.ok (), ⟨output, buffer.toArray, index + 1⟩)

/-- Writes instructions in order, up to the first failure. -/
def instructions (dialect : Dialect) :
    List Instruction → Saving → Except Failure Unit × Saving
  | [], saving => (.ok (), saving)
  | first :: later, saving =>
    match saving.instruction dialect first with
    | (.error failure, next) => (.error failure, next)
    | (.ok (), next) => instructions dialect later next

end Saving

end ShaderBinary
