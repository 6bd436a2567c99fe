import Cutscene.Yaml.Cell
import Cutscene.Yaml.Token.Basic

/-!
# Scalars of a text

How plain, quoted and block scalars are read. Between the words of a scalar lie gaps: blanks within
a line count as they are, and a line break is folded into a space, further ones being kept.
-/

namespace Cutscene.Yaml

/-- The line breaks of a gap, folded. -/
def folded : List Char → List Char
  | ['\n'] => [' ']
  | '\n' :: more => more
  | breaks => breaks

/-- What a gap between two words amounts to. -/
def gapText (gap : List Char) : List Char :=
  let breaks := gap.filter isBreak
  if breaks.isEmpty then gap else folded breaks

/-- The character is part of a gap. -/
def isGapOrBreak (c : Char) : Bool := isGap c || isBreak c

/-! ### Plain scalars -/

/-- The characters that end a plain scalar between brackets, and start nothing after a colon. -/
def isBracket (c : Char) : Bool := c == ',' || c == '[' || c == ']' || c == '\x7b' || c == '\x7d'

/-- Reads a word of a plain scalar. -/
def plainWord? (inFlow : Bool) : List Cell → Option (List Char × List Cell)
  | [] => some ([], [])
  | c :: rest =>
    let next := Cell.first rest
    if endsWord c.char then some ([], c :: rest)
    else if inFlow && c.char == ':' && (isBracket next || next == '?') then none
    else if (c.char == ':' && endsWord next) || (inFlow && isBracket c.char) then
      some ([], c :: rest)
    else (plainWord? inFlow rest).map fun (word, tail) => (c.char :: word, tail)

/-- Reads a gap after a word: no tab may indent a line less than `indent`. -/
def gapIsIndented (indent : Nat) (gap : List Cell) : Bool :=
  (gap.dropWhile fun c => !isBreak c.char).all fun c => c.char != '\t' || indent ≤ c.column

/-- Reads a plain scalar: its text, whether it stopped on a later line than its last word, and the
rest. `indent` is the column that its lines must reach outside brackets; `fuel` bounds the words. -/
def plain? (inFlow : Bool) (indent : Nat) : Nat → List Cell → Option (List Char × Bool × List Cell)
  | 0, _ => none
  | fuel + 1, cells =>
    if Cell.startsDocument cells || Cell.first cells == '#' then some ([], false, cells)
    else do
      let (word, rest) ← plainWord? inFlow cells
      let (gap, rest) := Cell.span isGapOrBreak rest
      if gap.isEmpty then return (word, false, rest)
      else if !gapIsIndented indent gap then none
      else
        let broken := gap.any fun c => isBreak c.char
        let outdented := !inFlow && (rest.head?.map (·.column)).getD 0 < indent
        if outdented then return (word, broken, rest)
        else
          let (more, stopped, rest) ← plain? inFlow indent fuel rest
          if more.isEmpty then return (word, broken || stopped, rest)
          else return (word ++ gapText (Cell.chars gap) ++ more, stopped, rest)

/-! ### Quoted scalars -/

/-- Reads a text in single quotes, of which the first has been read. `fuel` bounds its length. -/
def singleQuoted? : Nat → List Cell → Option (List Char × List Cell)
  | 0, _ => none
  | fuel + 1, cells =>
    let c := Cell.first cells
    let rest := cells.drop 1
    if Cell.startsDocument cells || c == endMark then none
    else if c == '\'' then
      if Cell.first rest == '\'' then
        (singleQuoted? fuel (rest.drop 1)).map fun (text, tail) => ('\'' :: text, tail)
      else some ([], rest)
    else if isGapOrBreak c then
      let (gap, rest) := Cell.span isGapOrBreak cells
      (singleQuoted? fuel rest).map fun (text, tail) => (gapText (Cell.chars gap) ++ text, tail)
    else (singleQuoted? fuel rest).map fun (text, tail) => (c :: text, tail)

/-- The value of a hexadecimal digit. -/
def hexDigit? (c : Char) : Option Nat :=
  if '0' ≤ c ∧ c ≤ '9' then some (c.toNat - '0'.toNat)
  else if 'a' ≤ c ∧ c ≤ 'f' then some (c.toNat - 'a'.toNat + 10)
  else if 'A' ≤ c ∧ c ≤ 'F' then some (c.toNat - 'A'.toNat + 10)
  else none

/-- The number in hexadecimal digits. -/
def hexNumber? (cs : List Char) : Option Nat :=
  cs.foldlM (fun n c => (hexDigit? c).map (16 * n + ·)) 0

/-- The character with a code point. -/
def charOf? (n : Nat) : Option Char := if n.isValidChar then some (.ofNat n) else none

/-- The character that a letter after a backslash stands for. -/
def escaped? (c : Char) : Option Char :=
  match c with
  | '0' => some '\x00'
  | 'a' => some '\x07'
  | 'b' => some '\x08'
  | 't' | '\t' => some '\t'
  | 'n' => some '\n'
  | 'v' => some '\x0b'
  | 'f' => some '\x0c'
  | 'r' => some '\r'
  | 'e' => some '\x1b'
  | ' ' => some ' '
  | '"' => some '"'
  | '/' => some '/'
  | '\\' => some '\\'
  | 'N' => some '\x85'
  | '_' => some '\xa0'
  | 'L' => some '\u2028'
  | 'P' => some '\u2029'
  | _ => none

/-- How many digits of a code point follow a letter after a backslash. -/
def codeLength? (c : Char) : Option Nat :=
  match c with
  | 'x' => some 2
  | 'u' => some 4
  | 'U' => some 8
  | _ => none

/-- Reads what follows a backslash: the character it stands for, and the rest. -/
def escape? (cells : List Cell) : Option (Char × List Cell) :=
  let c := Cell.first cells
  let rest := cells.drop 1
  match codeLength? c with
  | some n => do
    let code ← hexNumber? (Cell.chars (rest.take n))
    let char ← charOf? code
    if (rest.take n).length = n then return (char, rest.drop n) else none
  | none => (escaped? c).map (·, rest)

/-- Reads a text in double quotes, of which the first has been read. `fuel` bounds its length. -/
def doubleQuoted? : Nat → List Cell → Option (List Char × List Cell)
  | 0, _ => none
  | fuel + 1, cells =>
    let c := Cell.first cells
    let rest := cells.drop 1
    if Cell.startsDocument cells || c == endMark then none
    else if c == '"' then some ([], rest)
    else if isGapOrBreak c then
      let (gap, rest) := Cell.span isGapOrBreak cells
      (doubleQuoted? fuel rest).map fun (text, tail) => (gapText (Cell.chars gap) ++ text, tail)
    else if c == '\\' then
      if isBreak (Cell.first rest) then
        let (gap, rest) := Cell.span isGapOrBreak (rest.drop 1)
        (doubleQuoted? fuel rest).map fun (text, tail) =>
          ((Cell.chars gap).filter isBreak ++ text, tail)
      else do
        let (char, rest) ← escape? rest
        let (text, tail) ← doubleQuoted? fuel rest
        return (char :: text, tail)
    else (doubleQuoted? fuel rest).map fun (text, tail) => (c :: text, tail)

/-! ### Block scalars -/

/-- What becomes of the line breaks at the end of a block scalar. -/
inductive Chomping where
  /-- None is left. -/
  | strip
  /-- The first one is left. -/
  | clip
  /-- All are left. -/
  | keep
deriving DecidableEq, Repr

/-- The head of a block scalar: its chomping and its relative indentation, if that is given. -/
structure BlockHead where
  chomping : Chomping := .clip
  increment : Option Nat := none

/-- Reads a chomping mark. -/
def chomping? (c : Char) : Option Chomping :=
  match c with
  | '+' => some .keep
  | '-' => some .strip
  | _ => none

/-- Reads the head of a block scalar. -/
def blockHead? (cells : List Cell) : Option (BlockHead × List Cell) :=
  let c := Cell.first cells
  let d := Cell.charAt cells 1
  match chomping? c with
  | some chomping =>
    if d == '0' then none
    else if d.isDigit then
      some ({ chomping, increment := some (d.toNat - '0'.toNat) }, cells.drop 2)
    else some ({ chomping }, cells.drop 1)
  | none =>
    if c == '0' then none
    else if c.isDigit then
      let increment := some (c.toNat - '0'.toNat)
      match chomping? d with
      | some chomping => some ({ chomping, increment }, cells.drop 2)
      | none => some ({ increment }, cells.drop 1)
    else some ({}, cells)

/-- Passes over the blanks, the comment and the break at the end of a line. -/
def lineEnd? (cells : List Cell) : Option (List Cell) :=
  let rest := (Cell.span isGap cells).2
  let rest := if Cell.first rest == '#' then (Cell.span (!endsLine ·) rest).2 else rest
  if isBreak (Cell.first rest) then some (rest.drop 1)
  else if Cell.first rest == endMark then some rest
  else none

/-- Passes over indentation and empty lines: the breaks, the greatest column reached, and the rest.
An indentation of zero is not known yet. -/
def blockGap? (indent deepest : Nat) : List Cell → Option (List Char × Nat × List Cell)
  | [] => some ([], deepest, [])
  | c :: rest =>
    let within := indent == 0 || c.column < indent
    if within && c.char == ' ' then blockGap? indent deepest rest
    else
      let deepest := max deepest c.column
      if within && c.char == '\t' then none
      else if isBreak c.char then
        (blockGap? indent deepest rest).map fun (breaks, deepest, tail) =>
          (c.char :: breaks, deepest, tail)
      else some ([], deepest, c :: rest)

/-- What comes between two lines of a block scalar: the break after the first one, the breaks of
empty lines, and whether the lines start with blanks. -/
def lineJoin (isLiteral blankBefore blankAfter : Bool) (ending empty : List Char) : List Char :=
  if !isLiteral && ending == ['\n'] && !blankBefore && !blankAfter then
    if empty.isEmpty then [' '] else empty
  else ending ++ empty

/-- What is left after the last line of a block scalar. -/
def chomped (chomping : Chomping) (ending empty : List Char) : List Char :=
  match chomping with
  | .strip => []
  | .clip => ending
  | .keep => ending ++ empty

/-- Reads the lines of a block scalar after a line that began with a blank or did not, the break
that ended that line, and the breaks of empty lines. `fuel` bounds the lines. -/
def blockLines? (isLiteral : Bool) (chomping : Chomping) (indent : Nat) (blankBefore : Bool)
    (ending empty : List Char) : Nat → List Cell → Option (List Char × List Cell)
  | 0, _ => none
  | fuel + 1, cells =>
    match cells with
    | [] => some (chomped chomping ending empty, [])
    | c :: _ =>
      if c.column ≠ indent ∨ c.char = endMark then some (chomped chomping ending empty, cells)
      else do
        let blankAfter := isGap c.char
        let (line, rest) := Cell.span (!endsLine ·) cells
        let (after, rest) := match rest with
          | c :: tail => if isBreak c.char then ([c.char], tail) else ([], rest)
          | [] => ([], [])
        let (breaks, _, rest) ← blockGap? indent 0 rest
        let (text, tail) ←
          blockLines? isLiteral chomping indent blankAfter after breaks fuel rest
        return (lineJoin isLiteral blankBefore blankAfter ending empty ++ Cell.chars line ++ text,
          tail)

/-- Reads a block scalar inside a block at `parent`, or outside of all blocks. -/
def block? (isLiteral : Bool) (parent : Option Nat) (cells : List Cell) :
    Option (List Char × List Cell) := do
  let (head, rest) ← blockHead? cells
  let rest ← lineEnd? rest
  let given := match head.increment with
    | some n => parent.getD 0 + n
    | none => 0
  let (breaks, deepest, rest) ← blockGap? given 0 rest
  let least := match parent with
    | some n => n + 1
    | none => 1
  let indent := if given = 0 then max deepest least else given
  blockLines? isLiteral head.chomping indent false [] breaks (rest.length + 1) rest

end Cutscene.Yaml
