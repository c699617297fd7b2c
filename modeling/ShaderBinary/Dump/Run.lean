import ShaderBinary.Dump.Options
import ShaderBinary.Dump.Report
import ShaderBinary.Module

/-!
# The dump tool

The tool loads a module, verifies it, and shows its header and its instructions as tables. It can
remove debug instructions first, and write the module back.

`run` is the whole tool except for opening and writing files: it is given what opening the input
brought, and says what is to be printed and written.
-/

namespace ShaderBinary
namespace Dump

/-- Loads no more than `bound` instructions after those in `taken`, the last one first, until the source is
exhausted. If one cannot be loaded, says which one it is and where it starts. -/
def loadAfter (dialect : Dialect) :
    (bound : Nat) → (taken : List Instruction) → Loading → Except Trouble (List Instruction)
  | 0, taken, _ => .ok taken.reverse
  | bound + 1, taken, loading =>
    match loading.instruction? dialect with
    | (.error failure, stopped) =>
      .error (.badInstruction stopped.index stopped.byteOffset failure)
    | (.ok none, _) => .ok taken.reverse
    | (.ok (some instruction), next) => loadAfter dialect bound (instruction :: taken) next

/-- Loads a module, and says where in the source loading stopped if it failed. Every instruction takes at
least one byte of those that still arrive, which bounds their number. -/
def load (dialect : Dialect) (source : Wire.Source) : Except Trouble Module :=
  match (Loading.ofSource source).header with
  | (.error failure, _) => .error (.badHeader failure)
  | (.ok header, loading) =>
    match loadAfter dialect (loading.frames.input.source.size + 1) [] loading with
    | .error trouble => .error trouble
    | .ok code => .ok ⟨header, code⟩

/-- The name of a byte order in a table. -/
def orderLabel : ByteOrder → String
  | .little => "Little"
  | .big => "Big"

/-- The header of a module, and how many instructions of each category it has. -/
def headerTable (module : Module) : Except Trouble Table :=
  match module.header.order with
  | .error failure => .error (.cannotShow failure)
  | .ok order =>
    let header := module.header
    let counts := Layout.Category.all.filterMap fun category =>
      match module.categories.count category with
      | 0 => none
      | count => some [category.name, toString count]
    .ok {
      columns := [⟨"Field", .right⟩, ⟨"Value", .left⟩]
      rows := [
        ["Magic", Text.hexPadded 8 header.magic.toNat],
        ["Byte order", orderLabel order],
        ["Version", Header.versionLabel header.version],
        ["Generator", Text.hexPadded 8 header.generator.toNat],
        ["Bound", toString header.bound.toNat],
        ["Instructions", toString module.code.length]] ++ counts }

/-- The words of an instruction, in hexadecimal. -/
def wordsCell (instruction : Instruction) : Except Trouble String :=
  match Standard.dialect.encode instruction (Vector.replicate instruction.wordCount 0) with
  | (.error failure, _) => .error (.cannotShow failure)
  | (.ok _, buffer) =>
    .ok (String.intercalate " " (buffer.toList.map fun w =>
      ((Text.hexPadded 8 w.toNat).drop 2).toString))

/-- The row of an instruction. -/
def instructionRow (showWords : Bool) (index : Nat) (instruction : Instruction) :
    Except Trouble (List String) :=
  let row := [toString index, toString instruction.signature.opcode.toNat, instruction.category.name,
    instruction.describe]
  if showWords then (wordsCell instruction).map fun cell => row ++ [cell] else .ok row

/-- The instructions of a module. -/
def instructionTable (module : Module) (showWords : Bool) : Except Trouble Table :=
  let columns : List Column :=
    [⟨"#", .right⟩, ⟨"Opcode", .right⟩, ⟨"Category", .left⟩, ⟨"Instruction", .left⟩]
  let rows := module.code.zipIdx.mapM fun (instruction, index) =>
    instructionRow showWords index instruction
  rows.map fun rows => ⟨if showWords then columns ++ [⟨"Words", .left⟩] else columns, rows⟩

/-- What a run leaves behind. -/
structure Outcome where
  exitCode : UInt32
  printed : String
  reported : String
  /-- What is written to which path. -/
  written? : Option (String × List UInt8)
deriving DecidableEq

/-- Loads, verifies and strips as asked. -/
def prepare (options : Options) (opened : Except String Wire.Source) : Except Trouble Module :=
  match opened with
  | .error reason => .error (.cannotOpen options.input reason)
  | .ok source =>
    match load Standard.dialect source with
    | .error trouble => .error trouble
    | .ok module =>
      match if options.verify then module.verify else .ok () with
      | .error failure => .error (.unverified options.input failure)
      | .ok () => .ok (if options.strip then module.strip else module)

/-- The tables of a module, each followed by an empty line. -/
def tables (options : Options) (module : Module) : Except Trouble String :=
  match headerTable module, instructionTable module options.words with
  | .error trouble, _ => .error trouble
  | _, .error trouble => .error trouble
  | .ok header, .ok instructions => .ok (header.render ++ "\n" ++ instructions.render ++ "\n")

/-- Runs the tool on what opening its input brought. -/
def run (options : Options) (opened : Except String Wire.Source) : Outcome :=
  match prepare options opened with
  | .error trouble => ⟨1, "", trouble.report, none⟩
  | .ok module =>
    match tables options module with
    | .error trouble => ⟨1, "", trouble.report, none⟩
    | .ok shown =>
      match options.output? with
      | none => ⟨0, shown, "", none⟩
      | some path =>
        match module.toBytes Standard.dialect with
        | .error failure => ⟨1, shown, (Trouble.cannotWrite path failure).report, none⟩
        | .ok bytes => ⟨0, shown, "", some (path, bytes)⟩

end Dump
end ShaderBinary
