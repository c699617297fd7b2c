import ShaderBinary.Wire.Input
import ShaderBinary.Wire.Output

/-!
# Module headers

A module starts with five words. The first four bytes are a magic number, and the order they stand
in is the byte order of every word after them. The header keeps the magic number with the first byte
as its most significant, so that a header determines its bytes.

Only one version of the format is supported, when reading as well as when writing.
-/

namespace ShaderBinary

/-- The words a module starts with. -/
structure Header where
  /-- The first four bytes, the first one most significant. -/
  magic : Word
  version : Word
  /-- The tool that made the module. -/
  generator : Word
  /-- Every id in the module is below this. -/
  bound : Word
  reserved : Word
deriving DecidableEq

namespace Header

/-- The magic number of a little-endian module, whose bytes are `07 23 02 03`. -/
def magicNumber : Word := 0x07230203

/-- The supported version. -/
def supportedVersion : Word := 0x00010000

/-- The magic number of a module in the given byte order. -/
def magicOf : ByteOrder → Word
  | .little => magicNumber
  | .big => magicNumber.reverseOctets

/-- The byte order a magic number stands for. -/
def orderOf (magic : Word) : Except Failure ByteOrder :=
  if magic = magicOf .little then .ok .little
  else if magic = magicOf .big then .ok .big
  else .error (.badMagic magic)

/-- The header of an empty module in the given byte order. -/
def ofOrder (order : ByteOrder) : Header :=
  ⟨magicOf order, supportedVersion, 0, 0, 0⟩

/-- The byte order of the words after the magic number. -/
def order (header : Header) : Except Failure ByteOrder :=
  orderOf header.magic

/-- Reads a header, and leaves the input in the byte order that the magic number stands for. Nothing
is read after a magic number that stands for none. -/
def read (input : Wire.Input) : Except Failure Header × Wire.Input :=
  match input.bytes? 4 with
  | (.error failure, next) => (.error failure, next)
  | (.ok none, next) => (.error .truncated, next)
  | (.ok (some octets), next) =>
    let magic := ByteOrder.big.toWord octets
    match orderOf magic with
    | .error failure => (.error failure, next)
    | .ok order =>
      match Wire.Input.words 4 { next with order := order } with
      | (.error failure, last) => (.error failure, last)
      | (.ok [version, generator, bound, reserved], last) =>
        if version = supportedVersion then
          (.ok ⟨magic, version, generator, bound, reserved⟩, last)
        else (.error (.unsupportedVersion version), last)
      | (.ok _, last) => (.error .truncated, last)

/-- Writes a header, and leaves the output in the byte order that the magic number stands for. Only a
header that can be read back is written. -/
def write (header : Header) (output : Wire.Output) : Except Failure Unit × Wire.Output :=
  match header.order with
  | .error failure => (.error failure, output)
  | .ok order =>
    if header.version ≠ supportedVersion then
      (.error (.unsupportedVersion header.version), output)
    else
      match output.putBytes (ByteOrder.big.toOctets header.magic) with
      | (.error failure, next) => (.error failure, next)
      | (.ok (), ⟨sink, _, offset⟩) =>
        Wire.Output.putWords [header.version, header.generator, header.bound, header.reserved]
          ⟨sink, order, offset⟩

/-- The two numbers of a version, as they are shown. -/
def versionLabel (version : Word) : String :=
  s!"{((version >>> 16) &&& 0xFF).toNat}.{((version >>> 8) &&& 0xFF).toNat}"

/-- The header in one line. -/
def summary (header : Header) : String :=
  s!"magic {Text.hexPadded 8 header.magic.toNat}, version {versionLabel header.version}, " ++
    s!"generator {Text.hexPadded 8 header.generator.toNat}, bound {header.bound.toNat}"

/-- The header in full. -/
def describe (header : Header) : String :=
  "Header \x7b " ++
    s!"magic: {header.magic.toNat}, version: {header.version.toNat}, " ++
    s!"generator: {header.generator.toNat}, bound: {header.bound.toNat}, " ++
    s!"reserved: {header.reserved.toNat}" ++ " \x7d"

end Header

end ShaderBinary
