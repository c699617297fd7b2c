import ShaderBinary.Dump.Run

/-!
# Command line of the dump tool

Opens the module, runs the tool, prints what it shows and reports, and writes the module back.
-/

namespace ShaderBinary
namespace Dump

/-- What the system says about a failed operation, with the number of the error. -/
def systemReason : IO.Error → String
  | .noFileOrDirectory _ code details
  | .permissionDenied _ code details
  | .inappropriateType _ code details
  | .invalidArgument _ code details
  | .resourceExhausted _ code details => s!"{details} (os error {code})"
  | other => toString other

/-- Reads all of an open file. A file that cannot be read is a source that fails. -/
def readSource (file : IO.FS.Handle) : IO Wire.Source := do
  try
    let content ← file.readBinToEnd
    return .ofBytes content.data.toList
  catch problem =>
    return ⟨[], .failing (systemReason problem)⟩

/-- Opens a file and reads it. -/
def openSource (path : String) : IO (Except String Wire.Source) := do
  try
    let file ← IO.FS.Handle.mk path .read
    return .ok (← readSource file)
  catch problem =>
    return .error (systemReason problem)

end Dump
end ShaderBinary

open ShaderBinary Dump in
/-- Runs the dump tool on the arguments of the command line. -/
def main (arguments : List String) : IO UInt32 := do
  match Options.ofArguments arguments with
  | .error problem =>
    IO.eprintln s!"error: {problem.message}"
    return 2
  | .ok options =>
    let outcome := run options (← openSource options.input)
    IO.print outcome.printed
    IO.eprint outcome.reported
    if let some (path, bytes) := outcome.written? then
      IO.FS.writeBinFile path ⟨bytes.toArray⟩
    return outcome.exitCode
