import Cutscene.Yaml.Tag

/-!
# From cells to tokens

`Token.ofText?` reads the tokens of a text. Blocks have no closing marks; a line that starts
further to the left closes those it leaves. A key has no mark of its own either: a word that may be
a key is remembered, and a colon on the same line makes it one after the fact.
-/

namespace Cutscene.Yaml

/-- A word that becomes a key if a colon follows. -/
structure Candidate where
  line : Nat
  column : Nat
  /-- The number of tokens before it. -/
  place : Nat
  /-- It stands where only a key can stand. -/
  required : Bool

/-- What has been read, and what it means for what comes next. -/
structure Lexer where
  tokens : Array Token := #[]
  /-- The columns of the open blocks, innermost first. -/
  blocks : List Nat := []
  /-- A key may start here. -/
  keyAllowed : Bool := true
  /-- The candidate between the innermost brackets, or outside of brackets. -/
  candidate : Option Candidate := none
  /-- The candidates around the open brackets, innermost first. -/
  around : List (Option Candidate) := []

namespace Lexer

/-- The text is between brackets, where indentation has no meaning. -/
def inFlow (s : Lexer) : Bool := !s.around.isEmpty

/-- Adds a token. -/
def emit (s : Lexer) (t : Token) : Lexer := { s with tokens := s.tokens.push t }

/-- Allows a key to start next, or not. -/
def allowing (s : Lexer) (keyAllowed : Bool) : Lexer := { s with keyAllowed }

/-- Closes the blocks that do not reach a column; `none` closes all. -/
def close (s : Lexer) (column : Option Nat) : Lexer :=
  if s.inFlow then s
  else
    let leaves (block : Nat) : Bool := match column with
      | some column => column < block
      | none => true
    { s with blocks := s.blocks.dropWhile leaves
             tokens := s.tokens ++ Array.replicate (s.blocks.takeWhile leaves).length .blockEnd }

/-- Opens a block at a column that no block reaches, before the token at a place. -/
def openAt (s : Lexer) (column place : Nat) (t : Token) : Lexer :=
  if s.inFlow || s.blocks.head?.any (column ≤ ·) then s
  else { s with blocks := column :: s.blocks, tokens := s.tokens.insertIdxIfInBounds place t }

/-- Opens a block at a column that no block reaches. -/
def openHere (s : Lexer) (column : Nat) (t : Token) : Lexer :=
  s.openAt column s.tokens.size t

/-- Gives up the candidate; one that has to be a key is a mistake. -/
def dropCandidate? (s : Lexer) : Option Lexer :=
  match s.candidate with
  | some k => if k.required then none else some { s with candidate := none }
  | none => some s

/-- A candidate that is too far back to become a key at a place; one that has to be a key is a
mistake. -/
def ageCandidate? (line column : Nat) : Option Candidate → Option (Option Candidate)
  | none => some none
  | some k =>
    if k.line < line || k.column + 1024 < column then
      if k.required then none else some none
    else some (some k)

/-- Gives up the candidates that are too far back. -/
def age? (s : Lexer) (c : Cell) : Option Lexer := do
  let candidate ← ageCandidate? c.line c.column s.candidate
  let around ← s.around.mapM (ageCandidate? c.line c.column)
  return { s with candidate, around }

/-- Remembers that what comes next may be a key. -/
def remember? (s : Lexer) (c : Cell) : Option Lexer :=
  if s.keyAllowed then do
    let required := !s.inFlow && s.blocks.head? == some c.column
    let s ← s.dropCandidate?
    return { s with candidate := some ⟨c.line, c.column, s.tokens.size, required⟩ }
  else some s

/-- Passes over blanks, comments and line breaks: whether a key may start after them, and the
rest. A tab is no indentation. -/
def toToken (flow : Bool) (inComment keyAllowed : Bool) : List Cell → Bool × List Cell
  | [] => (keyAllowed, [])
  | c :: rest =>
    if isBreak c.char then toToken flow false (keyAllowed || !flow) rest
    else if c.char == endMark then (keyAllowed, c :: rest)
    else if inComment then toToken flow true keyAllowed rest
    else if c.char == ' ' || (c.char == '\t' && (flow || !keyAllowed)) ||
        (c.char == '\ufeff' && c.column == 0) then
      toToken flow false keyAllowed rest
    else if c.char == '#' then toToken flow true keyAllowed rest
    else (keyAllowed, c :: rest)

/-! ### Tokens of each form -/

/-- Reads a scalar or a name with `read?`, which may be a key. -/
def word? (s : Lexer) (c : Cell) (read? : Option (Token × List Cell)) :
    Option (Lexer × List Cell) := do
  let s ← s.remember? c
  let (token, rest) ← read?
  return ((s.allowing false).emit token, rest)

/-- Reads the mark of a document's start or end. -/
def documentMark? (s : Lexer) (t : Token) (cells : List Cell) : Option (Lexer × List Cell) := do
  let s ← (s.close none).dropCandidate?
  return ((s.allowing false).emit t, cells.drop 3)

/-- Reads an opening bracket. -/
def openBracket? (s : Lexer) (c : Cell) (t : Token) : Option Lexer := do
  let s ← s.remember? c
  return { (s.allowing true).emit t with candidate := none, around := s.candidate :: s.around }

/-- Reads a closing bracket. -/
def closeBracket? (s : Lexer) (t : Token) : Option Lexer := do
  let s ← s.dropCandidate?
  let s := (s.allowing false).emit t
  match s.around with
  | [] => return s
  | candidate :: around => return { s with candidate, around }

/-- Reads the dash before an item. -/
def item? (s : Lexer) (c : Cell) : Option Lexer := do
  if !s.inFlow && !s.keyAllowed then none
  else
    let s ← (s.openHere c.column .blockSequence).dropCandidate?
    return (s.allowing true).emit .item

/-- Reads the mark before a key. -/
def key? (s : Lexer) (c : Cell) : Option Lexer := do
  if !s.inFlow && !s.keyAllowed then none
  else
    let s ← (s.openHere c.column .blockMapping).dropCandidate?
    return (s.allowing !s.inFlow).emit .key

/-- Reads the colon before a value; it makes the candidate a key. -/
def value? (s : Lexer) (c : Cell) : Option Lexer :=
  match s.candidate with
  | some k =>
    let s := { s with tokens := s.tokens.insertIdxIfInBounds k.place .key, candidate := none }
    some (((s.openAt k.column k.place .blockMapping).allowing false).emit .value)
  | none =>
    if !s.inFlow && !s.keyAllowed then none
    else some (((s.openHere c.column .blockMapping).allowing !s.inFlow).emit .value)

/-- Reads a plain scalar. -/
def plainScalar? (s : Lexer) (c : Cell) (cells : List Cell) : Option (Lexer × List Cell) := do
  let s ← s.remember? c
  let indent := match s.blocks.head? with
    | some column => column + 1
    | none => 0
  let (text, stopped, rest) ← plain? s.inFlow indent (cells.length + 1) cells
  return ((s.allowing stopped).emit (.scalar .plain (.ofList text)), rest)

/-- Reads a block scalar. -/
def blockScalar? (s : Lexer) (style : Style) (cells : List Cell) :
    Option (Lexer × List Cell) := do
  let s ← s.dropCandidate?
  let (text, rest) ← block? (style = .literal) s.blocks.head? (cells.drop 1)
  return ((s.allowing true).emit (.scalar style (.ofList text)), rest)

/-- The character starts a plain scalar, whatever follows. -/
def startsPlain (c : Char) : Bool :=
  !endsWord c && !"-?:,[]\x7b\x7d#&*!|>'\"%@`".toList.contains c

/-- Reads the token that starts with the first cell. -/
def token? (s : Lexer) (c : Cell) (cells : List Cell) : Option (Lexer × List Cell) :=
  let rest := cells.drop 1
  let next := Cell.first rest
  let one (r : Option Lexer) : Option (Lexer × List Cell) := r.map (·, rest)
  let quoted (r : Option (List Char × List Cell)) : Option (Token × List Cell) :=
    r.map fun (text, rest) => (.scalar .quoted (.ofList text), rest)
  if c.column == 0 && c.char == '%' then do
    let s ← (s.close none).dropCandidate?
    let (token, rest) ← directive? cells
    return ((s.allowing false).emit token, rest)
  else if Cell.startsWithThree '-' cells then s.documentMark? .documentStart cells
  else if Cell.startsWithThree '.' cells then s.documentMark? .documentEnd cells
  else if c.char == '[' then one (s.openBracket? c .flowSequence)
  else if c.char == '\x7b' then one (s.openBracket? c .flowMapping)
  else if c.char == ']' then one (s.closeBracket? .flowSequenceEnd)
  else if c.char == '\x7d' then one (s.closeBracket? .flowMappingEnd)
  else if c.char == ',' then one (s.dropCandidate?.map fun s => (s.allowing true).emit .comma)
  else if c.char == '-' && endsWord next then one (s.item? c)
  else if c.char == '?' && (s.inFlow || endsWord next) then one (s.key? c)
  else if c.char == ':' && (s.inFlow || endsWord next) then one (s.value? c)
  else if c.char == '*' then
    s.word? c ((anchorName? rest).map fun (name, rest) => (.alias name, rest))
  else if c.char == '&' then
    s.word? c ((anchorName? rest).map fun (name, rest) => (.anchor name, rest))
  else if c.char == '!' then s.word? c (tag? s.inFlow cells)
  else if c.char == '|' && !s.inFlow then s.blockScalar? .literal cells
  else if c.char == '>' && !s.inFlow then s.blockScalar? .folded cells
  else if c.char == '\'' then s.word? c (quoted (singleQuoted? cells.length rest))
  else if c.char == '"' then s.word? c (quoted (doubleQuoted? cells.length rest))
  else if startsPlain c.char || (c.char == '-' && !isGap next) ||
      (!s.inFlow && (c.char == '?' || c.char == ':') && !endsWord next) then
    s.plainScalar? c cells
  else none

/-- Reads tokens up to the end of the text. `fuel` bounds their number. -/
def run? : Nat → Lexer → List Cell → Option (List Token)
  | 0, _, _ => none
  | fuel + 1, s, cells =>
    let (keyAllowed, cells) := toToken s.inFlow false s.keyAllowed cells
    match cells with
    | [] => none
    | c :: _ => do
      let s ← (s.allowing keyAllowed).age? c
      let s := s.close (some c.column)
      if c.char == endMark then
        let s ← (s.close none).dropCandidate?
        return s.tokens.toList
      else
        let (s, rest) ← s.token? c cells
        run? fuel s rest

end Lexer

/-- The tokens of a text, if it is one of the language. -/
def Token.ofText? (text : String) : Option (List Token) := do
  let cells ← Cell.row? text
  Lexer.run? (cells.length + 1) {} cells

end Cutscene.Yaml
