/-!
# Delimiter-free text

A saved record joins its fields with `:`, its parameters with `;`, and records with `|`. Inside a
field these characters are written as tokens between stars, and so is the star itself. Reading is
one pass from the left; a star that starts no token stands for itself.
-/

namespace Cutscene.Text

/-- The written form of a character. -/
def escapeChar (c : Char) : List Char :=
  if c = '*' then "*STAR*".toList
  else if c = ':' then "*COLON*".toList
  else if c = '|' then "*PIPE*".toList
  else if c = ';' then "*SEMICOLON*".toList
  else [c]

/-- A text with every delimiter and every star written as a token. -/
def escapeChars (cs : List Char) : List Char := cs.flatMap escapeChar

/-- Reads the tokens of a text back. -/
def unescapeChars : List Char → List Char
  | '*' :: 'S' :: 'T' :: 'A' :: 'R' :: '*' :: rest => '*' :: unescapeChars rest
  | '*' :: 'C' :: 'O' :: 'L' :: 'O' :: 'N' :: '*' :: rest => ':' :: unescapeChars rest
  | '*' :: 'P' :: 'I' :: 'P' :: 'E' :: '*' :: rest => '|' :: unescapeChars rest
  | '*' :: 'S' :: 'E' :: 'M' :: 'I' :: 'C' :: 'O' :: 'L' :: 'O' :: 'N' :: '*' :: rest =>
    ';' :: unescapeChars rest
  | c :: rest => c :: unescapeChars rest
  | [] => []

/-- A text with every delimiter and every star written as a token. -/
def escape (s : String) : String := .ofList (escapeChars s.toList)

/-- Reads the tokens of a text back. -/
def unescape (s : String) : String := .ofList (unescapeChars s.toList)

end Cutscene.Text
