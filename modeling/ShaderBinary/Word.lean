/-!
# Words and their octets

A module is a sequence of 32-bit words. On a byte stream each word is four octets, in one of two
orders. `Word.octets` and `Word.ofOctets` fix the order in which the least significant octet comes
first; the other order is its reversal, so that everything about it follows from the first.
-/

namespace ShaderBinary

/-- The unit everything in a module is measured in. -/
abbrev Word := UInt32

/-- The number that tells what kind of instruction a sequence of words is. -/
abbrev Opcode := UInt16

namespace Word

/-- The four octets of a word, least significant first. -/
def octets (w : Word) : List UInt8 :=
  [w.toUInt8, (w >>> 8).toUInt8, (w >>> 16).toUInt8, (w >>> 24).toUInt8]

/-- The word whose octets, least significant first, are those given. Octets that are missing count
as zero, and octets after the fourth are shifted out. -/
def ofOctets (octets : List UInt8) : Word :=
  octets.foldr (fun octet high => (high <<< 8) ||| octet.toUInt32) 0

/-- The word with the octets of `w` in the opposite order. -/
def reverseOctets (w : Word) : Word :=
  ofOctets w.octets.reverse

@[simp] theorem length_octets (w : Word) : w.octets.length = 4 := rfl

end Word

/-- Which octet of a word comes first on a byte stream. -/
inductive ByteOrder
  /-- The least significant octet comes first. -/
  | little
  /-- The most significant octet comes first. -/
  | big
deriving DecidableEq, Inhabited

namespace ByteOrder

/-- The octets of a word as they follow one another on a stream. -/
def toOctets : ByteOrder → Word → List UInt8
  | little, w => w.octets
  | big, w => w.octets.reverse

/-- The word that octets taken from a stream stand for. -/
def toWord : ByteOrder → List UInt8 → Word
  | little, octets => Word.ofOctets octets
  | big, octets => Word.ofOctets octets.reverse

@[simp] theorem length_toOctets (order : ByteOrder) (w : Word) :
    (order.toOctets w).length = 4 := by
  cases order <;> rfl

end ByteOrder

end ShaderBinary
