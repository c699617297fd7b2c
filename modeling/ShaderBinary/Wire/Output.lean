import ShaderBinary.Failure

/-!
# Byte sinks, and writing words to them

A sink is a value too: the bytes it has accepted so far, how many it will accept at one call after
another, and what it does after that. `Sink.accept` hands bytes over until all are accepted or the
sink refuses; the bytes accepted before a refusal stay in the sink.

An `Output` is a sink together with the byte order of its words and the number of bytes that were
handed over. The offset counts the pieces that were accepted as a whole: a word of which the sink
took only a part is not counted.
-/

namespace ShaderBinary
namespace Wire

/-! ## Sinks -/

/-- What a sink does once its grants are used up. -/
inductive Disposition
  /-- It accepts everything. -/
  | accepting
  /-- It accepts nothing. -/
  | refusing (reason : String)
deriving DecidableEq

/-- A byte sink. -/
structure Sink where
  /-- The bytes accepted so far. -/
  accepted : Array UInt8
  /-- How many bytes are accepted together, at most, in one call after another. -/
  grants : List Nat
  disposition : Disposition
  /-- Why flushing fails, if it does. -/
  flushFailure? : Option String
deriving DecidableEq

namespace Sink

/-- An empty sink that accepts everything. -/
def unbounded : Sink :=
  ⟨#[], [], .accepting, none⟩

/-- Hands bytes over under the grants that are left. -/
def acceptUnder (accepted : Array UInt8) (disposition : Disposition) :
    List Nat → List UInt8 → Except String Unit × Array UInt8 × List Nat
  | grants, [] => (.ok (), accepted, grants)
  | [], bytes =>
    match disposition with
    | .accepting => (.ok (), accepted ++ bytes, [])
    | .refusing reason => (.error reason, accepted, [])
  | grant :: later, bytes =>
    let taken := bytes.take grant
    match bytes.drop grant with
    | [] => (.ok (), accepted ++ taken, (grant - taken.length) :: later)
    | left => acceptUnder (accepted ++ taken) disposition later left

/-- Hands bytes over until all are accepted or the sink refuses. -/
def accept (bytes : List UInt8) : Sink → Except String Unit × Sink
  | ⟨accepted, grants, disposition, flushFailure?⟩ =>
    match acceptUnder accepted disposition grants bytes with
    | (outcome, accepted, grants) => (outcome, ⟨accepted, grants, disposition, flushFailure?⟩)

end Sink

/-! ## Outputs -/

/-- A sink that is written in words. -/
structure Output where
  sink : Sink
  order : ByteOrder
  /-- How many bytes have been handed over. -/
  offset : Nat
deriving DecidableEq

namespace Output

/-- An output to which nothing has been written, in little-endian order. -/
def ofSink (sink : Sink) : Output :=
  ⟨sink, .little, 0⟩

/-- Hands bytes over as they are. -/
def putBytes (bytes : List UInt8) : Output → Except Failure Unit × Output
  | ⟨sink, order, offset⟩ =>
    match sink.accept bytes with
    | (.error reason, sink) => (.error (.stream reason), ⟨sink, order, offset⟩)
    | (.ok (), sink) => (.ok (), ⟨sink, order, offset + bytes.length⟩)

/-- Writes words one after another. -/
def putWords : List Word → Output → Except Failure Unit × Output
  | [], output => (.ok (), output)
  | w :: later, ⟨sink, order, offset⟩ =>
    match putBytes (order.toOctets w) ⟨sink, order, offset⟩ with
    | (.error failure, next) => (.error failure, next)
    | (.ok (), next) => putWords later next

/-- Asks the sink to pass on what it has accepted. -/
def flush (output : Output) : Except Failure Unit :=
  match output.sink.flushFailure? with
  | some reason => .error (.stream reason)
  | none => .ok ()

end Output

end Wire
end ShaderBinary
