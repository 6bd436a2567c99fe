/-!
# Cells of a text

A YAML text is read as a row of cells: its characters, each with its line and column. Every line
break is one cell, and the breaks that mean no more than the end of a line are all written `'\n'`.
The last cell is `Cell.endMark`, which is no character that a text may hold.
-/

namespace Cutscene.Yaml

/-- The character that stands for the end of a text. -/
def endMark : Char := '\x00'

/-- The character ends a line. -/
def isBreak (c : Char) : Bool :=
  c == '\n' || c == '\r' || c == '\x85' || c == '\u2028' || c == '\u2029'

/-- The character is a space or a tab. -/
def isGap (c : Char) : Bool := c == ' ' || c == '\t'

/-- The character ends a word: it is a space, a tab, a line break or the end of the text. -/
def endsWord (c : Char) : Bool := isGap c || isBreak c || c == endMark

/-- The character ends what there is in a line. -/
def endsLine (c : Char) : Bool := isBreak c || c == endMark

/-- The character may occur in names. -/
def isNameChar (c : Char) : Bool := c.isAlphanum || c == '_' || c == '-'

/-- The character may occur in a text. -/
def isAllowed (c : Char) : Bool :=
  let n := c.toNat
  n == 0x09 || n == 0x0A || n == 0x0D || (0x20 ≤ n && n ≤ 0x7E) || n == 0x85 ||
    (0xA0 ≤ n && n ≤ 0xFFFD) || 0x10000 ≤ n

/-- A character with its place. -/
structure Cell where
  char : Char
  line : Nat
  column : Nat
deriving DecidableEq, Repr

namespace Cell

/-- The cells of a text that starts at a place. -/
def rowFrom (line column : Nat) : List Char → List Cell
  | [] => [⟨endMark, line, column⟩]
  | '\r' :: '\n' :: rest => ⟨'\n', line, column⟩ :: rowFrom (line + 1) 0 rest
  | c :: rest =>
    if c == '\u2028' || c == '\u2029' then ⟨c, line, column⟩ :: rowFrom (line + 1) 0 rest
    else if isBreak c then ⟨'\n', line, column⟩ :: rowFrom (line + 1) 0 rest
    else ⟨c, line, column⟩ :: rowFrom line (column + 1) rest

/-- The cells of a text, if all its characters are allowed. -/
def row? (text : String) : Option (List Cell) :=
  if text.toList.all isAllowed then some (rowFrom 0 0 text.toList) else none

/-- The character of the first cell. -/
def first (cells : List Cell) : Char := ((cells.head?).map (·.char)).getD endMark

/-- The character of a cell further on. -/
def charAt (cells : List Cell) (n : Nat) : Char := first (cells.drop n)

/-- The characters of cells. -/
def chars (cells : List Cell) : List Char := cells.map (·.char)

/-- The cells that satisfy `p` at the front, and the others. -/
def span (p : Char → Bool) (cells : List Cell) : List Cell × List Cell :=
  cells.span fun c => p c.char

/-- A line starts with three times the same character and nothing that goes on the word. -/
def startsWithThree (mark : Char) (cells : List Cell) : Bool :=
  match cells with
  | c :: _ =>
    c.column == 0 && c.char == mark && charAt cells 1 == mark && charAt cells 2 == mark &&
      endsWord (charAt cells 3)
  | [] => false

/-- A line starts with the mark for the start or the end of a document. -/
def startsDocument (cells : List Cell) : Bool :=
  startsWithThree '-' cells || startsWithThree '.' cells

end Cell

end Cutscene.Yaml
