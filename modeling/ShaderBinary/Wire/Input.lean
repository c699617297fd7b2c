import ShaderBinary.Failure

/-!
# Byte sources, and reading words from them

A source is a value: what it will bring at one call after another, and how it ends. A call may bring
a piece of any size, or be interrupted and bring nothing; once all arrivals are used up, a source is
either exhausted or fails at every further call.

`Source.gather` asks again and again until it has the bytes it needs. An interrupted call is simply
repeated. A call that brings a piece without bytes counts as the end of what can be had now, even if
more would arrive later.

An `Input` is a source together with the byte order of its words and the number of bytes it has
given. A read that finds the source exhausted before its first byte is not a failure: it is answered
by `none`. A read that ends part of the way is always `Failure.truncated`.

A failing source loses the bytes that were gathered for the read in which it fails; the offset counts
the reads that came to an end.
-/

namespace ShaderBinary
namespace Wire

/-! ## Sources -/

/-- What one call to a source brings. -/
inductive Arrival
  /-- Bytes. A call that has room for fewer leaves the others for the next call. -/
  | piece (bytes : List UInt8)
  /-- Nothing; the call is to be repeated. -/
  | interruption
deriving DecidableEq

/-- What a source answers when nothing more arrives. -/
inductive Ending
  /-- There are no more bytes. -/
  | exhausted
  /-- Every call fails. -/
  | failing (reason : String)
deriving DecidableEq

/-- A byte source: what arrives, and what then. -/
structure Source where
  arrivals : List Arrival
  ending : Ending
deriving DecidableEq

namespace Source

/-- A source that has all its bytes at hand. -/
def ofBytes (bytes : List UInt8) : Source :=
  ⟨[.piece bytes], .exhausted⟩

/-- The bytes that still arrive. -/
def bytes (source : Source) : List UInt8 :=
  source.arrivals.flatMap fun
    | .piece bytes => bytes
    | .interruption => []

/-- How many bytes still arrive. -/
def size (source : Source) : Nat :=
  source.arrivals.foldl (fun total arrival =>
    match arrival with
    | .piece bytes => total + bytes.length
    | .interruption => total) 0

/-- Adds up to `room` bytes to those in `got`, and says what arrives afterwards. Fewer are added only
if no more can be had. -/
def gatherFrom (ending : Ending) :
    List Arrival → (room : Nat) → (got : List UInt8) → Except String (List UInt8) × List Arrival
  | arrivals, 0, got => (.ok got, arrivals)
  | [], _ + 1, got =>
    match ending with
    | .exhausted => (.ok got, [])
    | .failing reason => (.error reason, [])
  | .interruption :: later, room + 1, got => gatherFrom ending later (room + 1) got
  | .piece bytes :: later, room + 1, got =>
    match bytes.take (room + 1), bytes.drop (room + 1) with
    | [], _ => (.ok got, later)
    | taken, [] => gatherFrom ending later (room + 1 - taken.length) (got ++ taken)
    | taken, left => (.ok (got ++ taken), .piece left :: later)

/-- Takes up to `count` bytes from a source. Fewer are taken only if the source ends before, and none
are handed over if it fails before. -/
def gather (source : Source) (count : Nat) : Except String (List UInt8) × Source :=
  match gatherFrom source.ending source.arrivals count [] with
  | (outcome, arrivals) => (outcome, { source with arrivals := arrivals })

end Source

/-! ## Inputs -/

/-- A source that is read in words. -/
structure Input where
  source : Source
  order : ByteOrder
  /-- How many bytes have been read. -/
  offset : Nat
deriving DecidableEq

namespace Input

/-- An input that has not been read, in little-endian order. -/
def ofSource (source : Source) : Input :=
  ⟨source, .little, 0⟩

/-- Reads exactly `count` bytes, unless the source was exhausted already. -/
def bytes? (count : Nat) (input : Input) : Except Failure (Option (List UInt8)) × Input :=
  match input.source.gather count with
  | (.error reason, source) => (.error (.stream reason), { input with source := source })
  | (.ok got, source) =>
    let next : Input := { input with source := source, offset := input.offset + got.length }
    if got.length = count then (.ok (some got), next)
    else if got.isEmpty then (.ok none, next)
    else (.error .truncated, next)

/-- Reads `count` words more than those in `taken`, the last one first. -/
def wordsAfter : (taken : List Word) → (count : Nat) → Input →
    Except Failure (Option (List Word)) × Input
  | taken, 0, input => (.ok (some taken.reverse), input)
  | taken, count + 1, input =>
    match input.bytes? 4 with
    | (.error failure, next) => (.error failure, next)
    | (.ok none, next) => (if taken.isEmpty then .ok none else .error .truncated, next)
    | (.ok (some octets), next) => wordsAfter (input.order.toWord octets :: taken) count next

/-- Reads exactly `count` words, unless the source was exhausted already. -/
def words? (count : Nat) (input : Input) : Except Failure (Option (List Word)) × Input :=
  wordsAfter [] count input

/-- Reads exactly `count` words. -/
def words (count : Nat) (input : Input) : Except Failure (List Word) × Input :=
  match input.words? count with
  | (.error failure, next) => (.error failure, next)
  | (.ok none, next) => (.error .truncated, next)
  | (.ok (some words), next) => (.ok words, next)

/-- Reads exactly `count` words into a buffer, from a position on. Those that were read before a failure
stay there. -/
def fill {size : Nat} : (position count : Nat) → position + count ≤ size → Vector Word size → Input →
    Except Failure Unit × Vector Word size × Input
  | _, 0, _, buffer, input => (.ok (), buffer, input)
  | position, count + 1, hroom, buffer, input =>
    match input.bytes? 4 with
    | (.error failure, next) => (.error failure, buffer, next)
    | (.ok none, next) => (.error .truncated, buffer, next)
    | (.ok (some octets), next) =>
      fill (position + 1) count (by omega)
        (buffer.set position (input.order.toWord octets) (by omega)) next

end Input

end Wire
end ShaderBinary
