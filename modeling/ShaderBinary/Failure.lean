import ShaderBinary.Layout.Category
import ShaderBinary.Operand.Objection

/-!
# Failures

Everything that can go wrong while a module is read, written or verified. The first failure ends
the operation it arises in; failures are never collected. `Failure.message` words each cause, and
`Failure.causes` follows a cause to the causes below it.
-/

namespace ShaderBinary

/-- The cause for which an operation stopped. -/
inductive Failure
  /-- The byte stream itself failed. -/
  | stream (reason : String)
  /-- The byte stream ended in the middle of a unit. -/
  | truncated
  /-- The first four bytes are a magic number in neither byte order. Holds them with the first byte
  as the most significant. -/
  | badMagic (value : Word)
  /-- The module is of a version other than the supported one. -/
  | unsupportedVersion (version : Word)
  /-- A number of words that is zero, too large for an instruction's first word, or not the number
  of words at hand. -/
  | badSize (words : Nat)
  /-- The words of an instruction end where an operand should start or go on. -/
  | missingOperands (opcode : Opcode)
  /-- Words are left over after the last operand. -/
  | excessOperands (opcode : Opcode) (count : Nat)
  /-- A text operand has no terminator or is not UTF-8. -/
  | badText (opcode : Opcode)
  /-- No codec is bound to the opcode. -/
  | unknownOpcode (opcode : Opcode)
  /-- The opcode may not occur in a module, whatever is bound to it. -/
  | reservedOpcode (opcode : Opcode)
  /-- The codec bound to an instruction's opcode is that of another kind of instruction. -/
  | foreignInstruction (opcode : Opcode) (codec : String)
  /-- Verification objects to an operand, or to the instruction called `name` as a whole. -/
  | rejected (name : String) (field : Option String) (objection : Operand.Objection)
  /-- The order of the instructions breaks the logical layout. -/
  | layout (violation : Layout.Violation)
  /-- A write went past the end of its buffer. -/
  | overrun
deriving DecidableEq

namespace Failure

/-- The failure in words. -/
def message : Failure → String
  | stream reason => s!"I/O error: {reason}"
  | truncated => "unexpected end of input"
  | badMagic value => s!"invalid magic value: {Text.hexPadded 8 value.toNat}"
  | unsupportedVersion version =>
    s!"unsupported module version: {Text.hexPadded 8 version.toNat}"
  | badSize words => s!"invalid instruction size: {words}"
  | missingOperands opcode => s!"missing instruction arguments for opcode {opcode.toNat}"
  | excessOperands opcode count =>
    s!"{count} excess instruction arguments for opcode {opcode.toNat}"
  | badText opcode => s!"invalid string operand for opcode {opcode.toNat}"
  | unknownOpcode opcode => s!"unknown instruction: {opcode.toNat}"
  | reservedOpcode opcode => s!"unacceptable instruction: {opcode.toNat}"
  | foreignInstruction opcode codec =>
    s!"codec for {codec} cannot encode opcode {opcode.toNat}"
  | rejected name none objection =>
    s!"verification of {name} failed: {objection.message}"
  | rejected name (some field) objection =>
    s!"verification of {name} failed at field `{field}`: {objection.message}"
  | layout violation => s!"logical layout violation: {violation.message}"
  | overrun => "write past the end of the buffer"

/-- The failure in words, followed by what it wraps: a stream's own reason or the layout
violation. -/
def causes (failure : Failure) : List String :=
  match failure with
  | stream reason => [failure.message, reason]
  | layout violation => [failure.message, violation.message]
  | _ => [failure.message]

end Failure

end ShaderBinary
