import ShaderBinary.Wire.Input
import ShaderBinary.Wire.Output

/-!
# Frames of words

An instruction is a frame of words. The first word holds the number of words of the frame, itself
included, in its high half, and the opcode in its low half. A frame therefore has at least one word
and at most 65535.

An input is cut into frames by the number of words that each first word announces. The end of the
source between two frames is not a failure; inside a frame it is. Frames are read into a buffer that
grows with the longest one so far and is never cleared: what is handed out is the front of it.

An output takes frames whose first word announces no more words than there are.
-/

namespace ShaderBinary

/-! ## First words, and buffers for frames -/

namespace Frame

/-- The largest number of words a first word can hold. -/
def maxWords : Nat := 0xFFFF

/-- The number of words that a first word announces. -/
def wordsOf (first : Word) : Nat :=
  (first >>> 16).toNat

/-- The opcode in a first word. -/
def opcodeOf (first : Word) : Opcode :=
  first.toUInt16

/-- The first word of a frame of the given number of words, if there is one. -/
def head (words : Nat) (opcode : Opcode) : Except Failure Word :=
  if words < 1 ∨ maxWords < words then .error (.badSize words)
  else .ok ((words.toUInt32 <<< 16) ||| opcode.toUInt32)

/-- A buffer of at least `size` words that starts with the words of `buffer`. -/
def grown (buffer : Array Word) (size : Nat) : Array Word :=
  buffer ++ Array.replicate (size - buffer.size) 0

theorem le_size_grown (buffer : Array Word) (size : Nat) : size ≤ (grown buffer size).size := by
  rw [grown, Array.size_append, Array.size_replicate]
  omega

end Frame

namespace Wire

/-! ## Reading -/

/-- Reads the `later` words of a frame that come after its first one. The frame is read into a buffer,
which is grown to hold it, and is then the front of the buffer. -/
def Input.frameInto (first : Word) (later : Nat) (scratch : Array Word) (input : Input) :
    Except Failure (List Word) × Array Word × Input :=
  have hroom : later + 1 ≤ (Frame.grown scratch (later + 1)).size := Frame.le_size_grown _ _
  let buffer := (Frame.grown scratch (later + 1)).toVector.set 0 first (by omega)
  match input.fill 1 later (by omega) buffer with
  | (.error failure, buffer, input) => (.error failure, buffer.toArray, input)
  | (.ok (), buffer, input) => (.ok (buffer.toArray.extract 0 (later + 1)).toList, buffer.toArray, input)

/-- An input that is read frame by frame. -/
structure FrameInput where
  input : Input
  /-- Where the frame that was read last starts, in bytes. -/
  start : Nat
  /-- The buffer that frames are read into. -/
  scratch : Array Word
deriving DecidableEq

namespace FrameInput

/-- An input of which no frame has been read. -/
def ofInput (input : Input) : FrameInput :=
  ⟨input, 0, #[]⟩

/-- Reads the next frame, first word included, unless the source is exhausted before it. -/
def next? : FrameInput → Except Failure (Option (List Word)) × FrameInput
  | ⟨input, _, scratch⟩ =>
    let start := input.offset
    match input.words? 1 with
    | (.error failure, input) => (.error failure, ⟨input, start, scratch⟩)
    | (.ok (some [first]), input) =>
      match Frame.wordsOf first with
      | 0 => (.error (.badSize 0), ⟨input, start, scratch⟩)
      | later + 1 =>
        match input.frameInto first later scratch with
        | (.error failure, scratch, input) => (.error failure, ⟨input, start, scratch⟩)
        | (.ok words, scratch, input) => (.ok (some words), ⟨input, start, scratch⟩)
    | (.ok _, input) => (.ok none, ⟨input, start, scratch⟩)

end FrameInput

/-! ## Writing -/

/-- Writes the frame that starts with the first of the given words. Words after the number it
announces are left out. -/
def Output.putFrame (words : List Word) (output : Output) : Except Failure Unit × Output :=
  match words with
  | [] => (.error (.badSize 0), output)
  | first :: _ =>
    let announced := Frame.wordsOf first
    if announced < 1 ∨ words.length < announced then (.error (.badSize announced), output)
    else output.putWords (words.take announced)

end Wire
end ShaderBinary
