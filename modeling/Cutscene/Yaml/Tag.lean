import Cutscene.Number.Decimal
import Cutscene.Yaml.Scalar

/-!
# Names, tags and directives

What is marked by `&`, `*`, `!` and, at the start of a line, `%`.
-/

namespace Cutscene.Yaml

/-! ### Anchors -/

/-- The character may follow the name of an anchor. -/
def endsAnchor (c : Char) : Bool := endsWord c || "?:,]\x7d%@`".toList.contains c

/-- Reads the name of an anchor. -/
def anchorName? (cells : List Cell) : Option (String × List Cell) :=
  let (name, rest) := Cell.span isNameChar cells
  if name.isEmpty || !endsAnchor (Cell.first rest) then none
  else some (.ofList (Cell.chars name), rest)

/-! ### Tags -/

/-- The character may occur in a tag; brackets and commas only if it is written out in full. -/
def isTagChar (inFull : Bool) (c : Char) : Bool :=
  isNameChar c || ";/?:@&=+$.%!~*'()".toList.contains c || (inFull && ",[]".toList.contains c)

/-- Reads one octet, written with a percent sign. -/
def octet? (cells : List Cell) : Option (Nat × List Cell) :=
  match Cell.chars (cells.take 3) with
  | ['%', h, l] => do return (16 * (← hexDigit? h) + (← hexDigit? l), cells.drop 3)
  | _ => none

/-- Reads further octets of a character onto its code point. -/
def octets? (code : Nat) : Nat → List Cell → Option (Nat × List Cell)
  | 0, cells => some (code, cells)
  | n + 1, cells => do
    let (octet, rest) ← octet? cells
    if octet / 64 = 2 then octets? (64 * code + octet % 64) n rest else none

/-- Reads a character whose octets are written with percent signs. -/
def percentChar? (cells : List Cell) : Option (Char × List Cell) := do
  let (lead, rest) ← octet? cells
  let (start, more) ←
    if lead < 0x80 then some (lead, 0)
    else if lead / 32 = 6 then some (lead % 32, 1)
    else if lead / 16 = 14 then some (lead % 16, 2)
    else if lead / 8 = 30 then some (lead % 8, 3)
    else none
  let (code, rest) ← octets? start more rest
  return (← charOf? code, rest)

/-- Reads the characters of a tag. `fuel` bounds their number. -/
def tagChars? (inFull : Bool) : Nat → List Cell → Option (List Char × List Cell)
  | 0, _ => none
  | fuel + 1, cells =>
    let c := Cell.first cells
    if !isTagChar inFull c then some ([], cells)
    else do
      let (char, rest) ← if c = '%' then percentChar? cells else some (c, cells.drop 1)
      let (more, rest) ← tagChars? inFull fuel rest
      return (char :: more, rest)

/-- Reads a tag that must not be empty. -/
def tagText? (inFull : Bool) (cells : List Cell) : Option (String × List Cell) := do
  let (text, rest) ← tagChars? inFull (cells.length + 1) cells
  if text.isEmpty then none else return (.ofList text, rest)

/-- Reads a handle: an exclamation mark, a name, and an exclamation mark if there is one. -/
def handle (cells : List Cell) : List Char × List Cell :=
  let (name, rest) := Cell.span isNameChar (cells.drop 1)
  let word := '!' :: Cell.chars name
  if Cell.first rest = '!' then (word ++ ['!'], rest.drop 1) else (word, rest)

/-- The word is a handle with two exclamation marks. -/
def isHandle (word : List Char) : Bool := 2 ≤ word.length && word.getLast? == some '!'

/-- Reads a tag: written out in full between angle brackets, with a handle, or after a single
exclamation mark. A tag that is only an exclamation mark has no handle. -/
def tag? (inFlow : Bool) (cells : List Cell) : Option (Token × List Cell) := do
  let (token, rest) ←
    if Cell.charAt cells 1 = '<' then do
      let (text, rest) ← tagText? true (cells.drop 2)
      if Cell.first rest = '>' then some (.tag "" text, rest.drop 1) else none
    else
      let (word, rest) := handle cells
      if isHandle word then do
        let (text, rest) ← tagText? false rest
        return (.tag (.ofList word) text, rest)
      else do
        let (more, rest) ← tagChars? false (rest.length + 1) rest
        let text := word.drop 1 ++ more
        return (if text.isEmpty then .tag "" "!" else .tag "!" (.ofList text), rest)
  if endsWord (Cell.first rest) || (inFlow && Cell.first rest == ',') then return (token, rest)
  else none

/-! ### Directives -/

/-- Reads a number of a version. -/
def versionNumber? (cells : List Cell) : Option (Nat × List Cell) :=
  let (digits, rest) := Cell.span Char.isDigit cells
  if digits.isEmpty || 9 < digits.length then none
  else some ((Number.readDigits 0 (Cell.chars digits)).1, rest)

/-- Reads the version of the language that a document is written in. -/
def version? (cells : List Cell) : Option (Token × List Cell) := do
  let (major, rest) ← versionNumber? (Cell.span isGap cells).2
  if Cell.first rest ≠ '.' then none
  else
    let (minor, rest) ← versionNumber? (rest.drop 1)
    return (.version major minor, rest)

/-- Reads what a handle stands for. -/
def abbreviation? (cells : List Cell) : Option (Token × List Cell) := do
  let cells := (Cell.span isGap cells).2
  if Cell.first cells ≠ '!' then none
  else
    let (word, rest) := handle cells
    if (word ≠ ['!'] ∧ !isHandle word) ∨ !isGap (Cell.first rest) then none
    else
      let (stem, rest) ← tagText? true (Cell.span isGap rest).2
      if endsWord (Cell.first rest) then return (.abbreviation (.ofList word) stem, rest) else none

/-- Reads a directive to the end of its line. -/
def directive? (cells : List Cell) : Option (Token × List Cell) := do
  let (name, rest) := Cell.span isNameChar (cells.drop 1)
  if !endsWord (Cell.first rest) then none
  else
    let (token, rest) ← match String.ofList (Cell.chars name) with
      | "YAML" => version? rest
      | "TAG" => abbreviation? rest
      | _ => none
    return (token, ← lineEnd? rest)

end Cutscene.Yaml
