import ShaderBinary.Dialect
import ShaderBinary.Header
import ShaderBinary.Wire.Frames

/-!
# Loading a module step by step

A `Loading` is a module that is being loaded. It goes on one instruction at a time and knows where it
is: the position of the frame it read last, and the number of instructions it has decoded. After a
failure it stands behind what it has read and can be asked to go on.

`Loading.drain` goes on until the source is exhausted or something fails.
-/

namespace ShaderBinary

/-- A module that is being loaded. -/
structure Loading where
  frames : Wire.FrameInput
  /-- How many instructions have been decoded. -/
  index : Nat

namespace Loading

/-- The start of loading a module from a source. -/
def ofSource (source : Wire.Source) : Loading :=
  ⟨.ofInput (.ofSource source), 0⟩

/-- Where the instruction that was read last starts, in bytes. -/
def byteOffset (loading : Loading) : Nat :=
  loading.frames.start

/-- Reads the header. -/
def header : Loading → Except Failure Header × Loading
  | ⟨⟨input, start, scratch⟩, index⟩ =>
    match Header.read input with
    | (outcome, input) => (outcome, ⟨⟨input, start, scratch⟩, index⟩)

/-- Reads the next instruction together with its words, unless the source is exhausted before it. -/
def frame? (dialect : Dialect) :
    Loading → Except Failure (Option (Instruction × List Word)) × Loading
  | ⟨frames, index⟩ =>
    match frames.next? with
    | (.error failure, frames) => (.error failure, ⟨frames, index⟩)
    | (.ok none, frames) => (.ok none, ⟨frames, index⟩)
    | (.ok (some words), frames) =>
      match dialect.decode words with
      | .error failure => (.error failure, ⟨frames, index⟩)
      | .ok instruction => (.ok (some (instruction, words)), ⟨frames, index + 1⟩)

/-- Reads the next instruction, unless the source is exhausted before it. -/
def instruction? (dialect : Dialect) (loading : Loading) :
    Except Failure (Option Instruction) × Loading :=
  match loading.frame? dialect with
  | (.error failure, next) => (.error failure, next)
  | (.ok found, next) => (.ok (found.map (·.1)), next)

/-- Reads no more than `bound` instructions after those in `taken`, the last one first, until the
source is exhausted or something fails. -/
def drainAfter (dialect : Dialect) : (bound : Nat) → (taken : List Instruction) → Loading →
    List Instruction × Option Failure × Loading
  | 0, taken, loading => (taken.reverse, none, loading)
  | bound + 1, taken, loading =>
    match loading.instruction? dialect with
    | (.error failure, next) => (taken.reverse, some failure, next)
    | (.ok none, next) => (taken.reverse, none, next)
    | (.ok (some instruction), next) => drainAfter dialect bound (instruction :: taken) next

/-- Reads all instructions up to the end of the source or to the first failure. Every instruction
takes at least one byte of those that still arrive, which bounds their number. -/
def drain (dialect : Dialect) (loading : Loading) :
    List Instruction × Option Failure × Loading :=
  drainAfter dialect (loading.frames.input.source.size + 1) [] loading

end Loading

end ShaderBinary
