import ShaderBinary.Main
import ShaderBinary.Proofs.Layout.Verdict
import ShaderBinary.Proofs.Module.RoundTrip
import ShaderBinary.Proofs.Operand.Rereading
import ShaderBinary.Proofs.Module.Resaving
import ShaderBinary.Proofs.Module.Delivery
import ShaderBinary.Proofs.Module.Decoding
import ShaderBinary.Proofs.Module.Truncation
import ShaderBinary.Proofs.Module.PartialSaving
import ShaderBinary.Proofs.Module.Concatenation
import ShaderBinary.Proofs.Module.Mirroring
import ShaderBinary.Proofs.Module.FirstFailure
import ShaderBinary.Proofs.Dialect.History
import ShaderBinary.Proofs.Dump.Agreement
import ShaderBinary.Proofs.Operand.Finishing
import ShaderBinary.Proofs.Instruction.AllOrNothing
import ShaderBinary.Proofs.Standard.Failures
import ShaderBinary.Proofs.Header.RoundTrip
import ShaderBinary.Proofs.Text.Ending
