import ShaderBinary.Text.Characters

/-!
# Numbers and texts as they are shown

Numbers that are bit patterns (magic values, masks, byte offsets) are written in lower case
hexadecimal after `0x`, either with as many digits as they need or with a least number of digits.

A text inside the description of an instruction stands between double quotes, so that every character
can be told apart. Quotes and backslashes are escaped, a few control characters have short escapes, and
every other character that could not be seen on its own is written as its code point.
-/

namespace ShaderBinary
namespace Text

/-! ## Hexadecimal numbers -/

/-- The lower case hexadecimal digits of a number; zero has one. -/
def hexDigits (n : Nat) : List Char :=
  Nat.toDigits 16 n

/-- A number in hexadecimal, with no more digits than it needs. -/
def hex (n : Nat) : String :=
  "0x" ++ String.ofList (hexDigits n)

/-- A number in hexadecimal, with zeros in front up to `width` digits. -/
def hexPadded (width n : Nat) : String :=
  let digits := hexDigits n
  "0x" ++ String.ofList (List.replicate (width - digits.length) '0' ++ digits)

/-! ## Quoted text -/

/-- The code point of a character in braces, as in `\u{300}`. -/
def codePointEscape (c : Char) : String :=
  "\\u\x7b" ++ String.ofList (hexDigits c.toNat) ++ "\x7d"

/-- Whether a character cannot be told apart when it stands alone: nothing is seen of it, or it is
seen only as part of the character before it. -/
def isIndistinct (c : Char) : Bool :=
  isUnprintable c || isFiller c || (isCombining c && !isHalfwidthSoundMark c)

/-- A character as it stands between double quotes. -/
def quotedChar (c : Char) : String :=
  match c with
  | '\x00' => "\\0"
  | '\t' => "\\t"
  | '\n' => "\\n"
  | '\r' => "\\r"
  | '"' => "\\\""
  | '\\' => "\\\\"
  | _ => if isIndistinct c then codePointEscape c else c.toString

/-- A text between double quotes. -/
def quoted (text : String) : String :=
  "\"" ++ text.foldl (fun shown c => shown ++ quotedChar c) "" ++ "\""

end Text
end ShaderBinary
