import ShaderBinary.Operand.Shape
import ShaderBinary.Text.Packing

/-!
# Reading and writing operands

`Shape.read` takes an operand off the front of the words that remain of an instruction. It always
says which words remain afterwards, also when it fails, because a failure stops where the words ran
out or made no sense, and what was taken before stays taken.

A list is read element by element until no word remains. Every element that is read from at least
one word takes at least one, so the number of words bounds the number of elements; `readList` is
given that bound and therefore never stops before the words do.

Operands are written into a buffer of fixed size through a cursor. Writing past the end of the
buffer has no result; nothing else can go wrong.

`Shape.wordCount` tells how many words an operand takes, and is computed without writing it, so
that an instruction's first word and its buffer can be made before its operands.
-/

namespace ShaderBinary
namespace Operand

/-! ## Reading -/

/-- Why an operand could not be read. -/
inductive Lack
  /-- No word remains where one is needed. -/
  | words
  /-- The words that remain do not start with a terminated text in UTF-8. -/
  | text
deriving DecidableEq

/-- What reading brings: a value or the reason why there is none, and the words that remain. -/
abbrev Reading (α : Type) := Except Lack α × List Word

/-- Takes one word. -/
def readWord : List Word → Reading Word
  | [] => (.error .words, [])
  | w :: rest => (.ok w, rest)

/-- Takes one packed text; if there is none, all words remain. -/
def readText (words : List Word) : Reading String :=
  match words with
  | [] => (.error .words, [])
  | _ :: _ =>
    match Text.unpack words with
    | none => (.error .text, words)
    | some (bytes, rest) =>
      match Text.ofBytes? bytes with
      | none => (.error .text, words)
      | some text => (.ok text, rest)

/-- Takes elements while words remain, but no more than `bound`, after those in `taken`, the last
one first. -/
def readList {α : Type} (read : List Word → Reading α) :
    (bound : Nat) → (taken : List α) → List Word → Reading (List α)
  | 0, taken, words => (.ok taken.reverse, words)
  | _ + 1, taken, [] => (.ok taken.reverse, [])
  | bound + 1, taken, w :: rest =>
    match read (w :: rest) with
    | (.error lack, remaining) => (.error lack, remaining)
    | (.ok value, remaining) => readList read bound (value :: taken) remaining

/-- Applies a function to the value that was read. -/
def Reading.map {α β : Type} (f : α → β) : Reading α → Reading β
  | (.error lack, remaining) => (.error lack, remaining)
  | (.ok value, remaining) => (.ok (f value), remaining)

/-- Takes an operand of the given shape off the front of `words`. -/
def Shape.read : (shape : Shape) → (words : List Word) → Reading shape.Value
  | .word, words => readWord words
  | .id, words => Reading.map Id.mk (readWord words)
  | .text, words => readText words
  | .selector _, words => Reading.map Selector.mk (readWord words)
  | .mask _, words => Reading.map Mask.mk (readWord words)
  | .optional _, [] => (.ok none, [])
  | .optional inner, w :: rest => Reading.map some (inner.read (w :: rest))
  | .list element, words => readList element.read words.length [] words
  | .pair first second, words =>
    match first.read words with
    | (.error lack, remaining) => (.error lack, remaining)
    | (.ok value, remaining) => Reading.map (Prod.mk value) (second.read remaining)

/-! ## Writing -/

/-- A place in a buffer of `size` words, up to which it has been written. -/
structure Cursor (size : Nat) where
  buffer : Vector Word size
  position : Nat

/-- Writes one word and moves on, if there is room for it. -/
def Cursor.put {size : Nat} (w : Word) : Cursor size → Option (Cursor size)
  | ⟨buffer, position⟩ =>
    if h : position < size then some ⟨buffer.set position w h, position + 1⟩ else none

/-- Writes the values of a list one after another. -/
def writeList {size : Nat} {α : Type} (write : α → Cursor size → Option (Cursor size)) :
    List α → Cursor size → Option (Cursor size)
  | [], cursor => some cursor
  | value :: later, cursor =>
    match write value cursor with
    | none => none
    | some next => writeList write later next

/-- Writes words one after another. -/
def Cursor.putAll {size : Nat} (words : List Word) (cursor : Cursor size) :
    Option (Cursor size) :=
  writeList Cursor.put words cursor

/-- Writes a text with its terminator. -/
def Cursor.putText {size : Nat} (text : String) (cursor : Cursor size) : Option (Cursor size) :=
  cursor.putAll (Text.pack (Text.bytes text))

/-- How many words an operand takes. -/
def Shape.wordCount : (shape : Shape) → shape.Value → Nat
  | .word, _ => 1
  | .id, _ => 1
  | .text, string => Text.packedWords string
  | .selector _, _ => 1
  | .mask _, _ => 1
  | .optional _, none => 0
  | .optional inner, some value => inner.wordCount value
  | .list element, values => values.foldr (fun value words => element.wordCount value + words) 0
  | .pair first second, (a, b) => first.wordCount a + second.wordCount b

/-- Writes an operand at the cursor. -/
def Shape.write {size : Nat} :
    (shape : Shape) → shape.Value → Cursor size → Option (Cursor size)
  | .word, w, cursor => cursor.put w
  | .id, reference, cursor => cursor.put reference.number
  | .text, string, cursor => cursor.putText string
  | .selector _, choice, cursor => cursor.put choice.raw
  | .mask _, flags, cursor => cursor.put flags.bits
  | .optional _, none, cursor => some cursor
  | .optional inner, some value, cursor => inner.write value cursor
  | .list element, values, cursor => writeList element.write values cursor
  | .pair first second, (a, b), cursor =>
    match first.write a cursor with
    | none => none
    | some next => second.write b next

end Operand
end ShaderBinary
