import ShaderBinary.Failure

/-!
# What the dump tool writes

A table has rows of cells under a row of titles, in columns that are as wide as their widest cell.
Columns are separated by a vertical rule, the titles are set off by a horizontal one, and another one
closes the table.

A failure is reported under a context that tells what the tool was doing, followed by the cause and the
causes below it.
-/

namespace ShaderBinary
namespace Dump

/-! ## Tables of text -/

/-- The side of its column that a cell is moved to. -/
inductive Side
  | left
  | right
deriving DecidableEq

/-- A column: its title, and the side its cells are moved to. -/
structure Column where
  title : String
  side : Side

/-- Rows of cells in columns. -/
structure Table where
  columns : List Column
  rows : List (List String)

namespace Table

/-- The widths of columns that have room for one more row of cells. -/
def widened (widths : List Nat) (cells : List String) : List Nat :=
  widths.zipWith (fun width cell => max width cell.length) cells

/-- The widths of all columns. -/
def widths (table : Table) : List Nat :=
  table.rows.foldl widened (table.columns.map fun column => column.title.length)

/-- A cell in a column of the given width, with a blank on both sides. -/
def padded (side : Side) (width : Nat) (cell : String) : String :=
  let blank := "".pushn ' ' (width - cell.length)
  match side with
  | .left => " " ++ cell ++ blank ++ " "
  | .right => " " ++ blank ++ cell ++ " "

/-- A row of cells as one line. -/
def line (table : Table) (widths : List Nat) (cells : List String) : String :=
  let shown := (table.columns.zip (widths.zip cells)).map fun (column, width, cell) =>
    padded column.side width cell
  " " ++ String.intercalate "│" shown ++ " \n"

/-- A horizontal rule that crosses the vertical ones with the given character. -/
def ruler (widths : List Nat) (crossing : String) : String :=
  " " ++ String.intercalate crossing (widths.map fun width => "".pushn '─' (width + 2)) ++ " \n"

/-- The table as lines of text. -/
def render (table : Table) : String :=
  let widths := table.widths
  let head := table.line widths (table.columns.map (·.title)) ++ ruler widths "┼"
  table.rows.foldl (fun shown cells => shown ++ table.line widths cells) head ++ ruler widths "┴"

end Table

/-! ## Failures -/

/-- Why the dump tool stopped. -/
inductive Trouble
  /-- The file cannot be opened. -/
  | cannotOpen (path reason : String)
  /-- The header cannot be read. -/
  | badHeader (failure : Failure)
  /-- The instruction with this index, which starts at this offset in bytes, cannot be read. -/
  | badInstruction (index offset : Nat) (failure : Failure)
  /-- The module in the file is not valid. -/
  | unverified (path : String) (failure : Failure)
  /-- A table cannot be made. -/
  | cannotShow (failure : Failure)
  /-- The module cannot be written back. -/
  | cannotWrite (path : String) (failure : Failure)
deriving DecidableEq

namespace Trouble

/-- What the tool was doing. -/
def context : Trouble → String
  | cannotOpen path _ => s!"cannot open {path}"
  | badHeader _ => "cannot decode the module header"
  | badInstruction index offset _ =>
    s!"cannot decode instruction {index} at byte offset {Text.hex offset}"
  | unverified path _ => s!"{path} failed verification"
  | cannotShow failure => failure.message
  | cannotWrite path _ => s!"cannot write {path}"

/-- The cause, then the causes below it. -/
def causes : Trouble → List String
  | cannotOpen _ reason => [reason]
  | badHeader failure => failure.causes
  | badInstruction _ _ failure => failure.causes
  | unverified _ failure => failure.causes
  | cannotShow failure => failure.causes.tail
  | cannotWrite _ failure => failure.causes

/-- A number that ends in a fixed column. -/
def causeNumber (index : Nat) : String :=
  let shown := toString index
  "".pushn ' ' (5 - shown.length) ++ shown ++ ": "

/-- The causes, one a line. A single cause is indented, several are numbered. -/
def causeLines : List String → List String
  | [cause] => ["    " ++ cause]
  | causes => (causes.zipIdx).map fun (cause, index) => causeNumber index ++ cause

/-- The report in full. -/
def report (trouble : Trouble) : String :=
  let head := s!"Error: {trouble.context}\n"
  match trouble.causes with
  | [] => head
  | causes =>
    head ++ "\nCaused by:\n" ++ (causeLines causes).foldl (fun shown line => shown ++ line ++ "\n") ""

end Trouble

end Dump
end ShaderBinary
