import ShaderBinary.Standard.Signatures
import ShaderBinary.Layout.Check
import ShaderBinary.Module.Loading
import ShaderBinary.Module.Saving

/-!
# Modules

A module is a header and a list of instructions. It can be loaded from a source, saved to a sink,
verified, and stripped of its debug instructions. Loading and saving stop at the first failure:
there is no partly loaded module, and what was saved before a failure is a part of the whole.
-/

namespace ShaderBinary

/-- A header and the instructions after it. -/
structure Module where
  header : Header
  code : List Instruction
deriving DecidableEq

namespace Module

/-- The module without instructions, in little-endian order. -/
def empty : Module :=
  ⟨.ofOrder .little, []⟩

/-- Loads a module: its header, then instructions until the source is exhausted between two. -/
def load (dialect : Dialect) (source : Wire.Source) : Except Failure Module :=
  match (Loading.ofSource source).header with
  | (.error failure, _) => .error failure
  | (.ok header, loading) =>
    match loading.drain dialect with
    | (code, none, _) => .ok ⟨header, code⟩
    | (_, some failure, _) => .error failure

/-- Saves a module: its header, then its instructions in order; at last the sink is asked to pass
everything on. -/
def save (dialect : Dialect) (module : Module) (sink : Wire.Sink) :
    Except Failure Unit × Wire.Sink :=
  match (Saving.ofSink sink).header module.header with
  | (.error failure, saving) => (.error failure, saving.output.sink)
  | (.ok (), saving) =>
    match saving.instructions dialect module.code with
    | (.error failure, saving) => (.error failure, saving.output.sink)
    | (.ok (), saving) => (saving.output.flush, saving.output.sink)

/-- The bytes of a saved module. -/
def toBytes (dialect : Dialect) (module : Module) : Except Failure (List UInt8) :=
  match module.save dialect .unbounded with
  | (.error failure, _) => .error failure
  | (.ok (), sink) => .ok sink.accepted.toList

/-- The categories of the instructions, in order. -/
def categories (module : Module) : List Layout.Category :=
  module.code.map Instruction.category

/-- Succeeds if nothing is wrong with any instruction, and then nothing with their order. -/
def verify (module : Module) : Except Failure Unit :=
  match module.code.findSome? Instruction.failure? with
  | some failure => .error failure
  | none =>
    match Layout.check module.categories with
    | .error violation => .error (.layout violation)
    | .ok () => .ok ()

/-- The module without its debug instructions. -/
def strip (module : Module) : Module :=
  { module with code := module.code.filter fun instruction => instruction.category ≠ .debug }

/-- The module in full. -/
def describe (module : Module) : String :=
  "Module \x7b header: " ++ module.header.describe ++ ", code: " ++
    Operand.bracketed "[" "]" (module.code.map Instruction.describe) ++ " \x7d"

end Module

end ShaderBinary
