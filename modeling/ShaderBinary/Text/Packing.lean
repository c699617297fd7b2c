import ShaderBinary.Word

/-!
# Packed text

A text stands in a module as its UTF-8 bytes, four to a word and least significant octet first
whatever the byte order of the module, followed by a zero byte. The rest of the last word is zero.

`packOnto` lays bytes out in words and `unpack` takes a text off the front of a sequence of words;
both run in constant stack space, because one text may fill an instruction of 65535 words.
-/

namespace ShaderBinary
namespace Text

/-- The UTF-8 bytes of a text. -/
def bytes (text : String) : List UInt8 :=
  text.toByteArray.data.toList

/-- How many words a text takes, its terminator included. -/
def packedWords (text : String) : Nat :=
  text.utf8ByteSize / 4 + 1

/-- Adds the words of packed bytes to `laid`, which holds the words before them, the last one
first. Each step takes four bytes; the last word is made of the bytes that remain, fewer than four,
and so always has room for the terminator. -/
def packOnto (laid : List Word) : List UInt8 → List Word
  | b₀ :: b₁ :: b₂ :: b₃ :: rest => packOnto (Word.ofOctets [b₀, b₁, b₂, b₃] :: laid) rest
  | remaining => Word.ofOctets remaining :: laid

/-- The words that hold the given bytes and their terminator. -/
def pack (bytes : List UInt8) : List Word :=
  (packOnto [] bytes).reverse

/-- Takes the bytes of a text off the front of `words`, after the bytes in `taken`, the last one
first. -/
def unpackOnto (taken : List UInt8) : List Word → Option (List UInt8 × List Word)
  | [] => none
  | w :: rest =>
    match w.octets.span (· ≠ 0) with
    | (text, []) => unpackOnto (text.reverse ++ taken) rest
    | (text, _ :: _) => some ((text.reverse ++ taken).reverse, rest)

/-- The bytes of the text at the front of `words`, without terminator and padding, and the words
after it. There is none if no byte of `words` is zero. -/
def unpack (words : List Word) : Option (List UInt8 × List Word) :=
  unpackOnto [] words

/-- The text that bytes encode, if they are UTF-8. -/
def ofBytes? (bytes : List UInt8) : Option String :=
  String.fromUTF8? ⟨bytes.toArray⟩

end Text
end ShaderBinary
