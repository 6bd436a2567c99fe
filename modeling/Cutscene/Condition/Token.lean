import Cutscene.Condition.Value
import Cutscene.Text.Blank

/-!
# Tokens of conditions

`Token.ofChars?` cuts the text of an expression into tokens in two steps: first into *glyphs*, which
are words, blanks and single signs, and then into tokens, which may take up several glyphs: `>=`,
`&&`, or a number such as `1e-3`, whose sign is a glyph of its own.
-/

namespace Cutscene.Condition

/-- A token of an expression. -/
inductive Token where
  | plus | minus | star | slash | percent | hat
  | eq | ne | gt | lt | ge | le | and | or | not
  | leftParen | rightParen
  /-- `=`, or an operator followed by it. -/
  | assign
  | comma | semicolon
  | word (name : String)
  | const (value : Value)
deriving Inhabited

namespace Token

/-- A value can begin with this token. -/
def beginsValue : Token → Bool
  | .leftParen | .word _ | .const _ => true
  | _ => false

/-- A value can end with this token. -/
def endsValue : Token → Bool
  | .rightParen | .word _ | .const _ => true
  | _ => false

end Token

/-! ### Glyphs -/

/-- The smallest parts of an expression's text. -/
inductive Glyph where
  | blank
  | plus | minus | star | slash | percent | hat
  | equals | bang | greater | less | ampersand | bar
  /-- A run of other characters. -/
  | word (cs : List Char)
  /-- Something that is a token already. -/
  | token (token : Token)

namespace Glyph

/-- The glyph of a single character. -/
def ofChar (c : Char) : Glyph :=
  match c with
  | '+' => .plus
  | '-' => .minus
  | '*' => .star
  | '/' => .slash
  | '%' => .percent
  | '^' => .hat
  | '=' => .equals
  | '!' => .bang
  | '>' => .greater
  | '<' => .less
  | '&' => .ampersand
  | '|' => .bar
  | '(' => .token .leftParen
  | ')' => .token .rightParen
  | ',' => .token .comma
  | ';' => .token .semicolon
  | c => if Text.isBlank c then .blank else .word [c]

/-- Puts a glyph in front of others; adjoining words become one. -/
def cons : Glyph → List Glyph → List Glyph
  | .word a, .word b :: rest => .word (a ++ b) :: rest
  | g, rest => g :: rest

/-- Where a reader of glyphs stands. -/
inductive Mode where
  | plain
  /-- Inside a string, with the characters so far, the latest first. -/
  | string (seen : List Char)
  /-- Inside a string, after a backslash. -/
  | escape (seen : List Char)
  /-- Inside a comment up to the end of the line. -/
  | line
  /-- Inside a comment up to its end mark. -/
  | block

/-- Cuts text into glyphs. A string ends with its quote and a comment with its end mark; in a string
only a quote and a backslash can be escaped. -/
def ofChars? : Mode → List Char → Option (List Glyph)
  | .plain, [] | .line, [] => some []
  | .string _, [] | .escape _, [] | .block, [] => none
  | .plain, '"' :: rest => ofChars? (.string []) rest
  | .plain, '/' :: '/' :: rest => ofChars? .line rest
  | .plain, '/' :: '*' :: rest => ofChars? .block rest
  | .plain, c :: rest => (ofChars? .plain rest).map (cons (ofChar c))
  | .string seen, '"' :: rest =>
    (ofChars? .plain rest).map (.token (.const (.string (.ofList seen.reverse))) :: ·)
  | .string seen, '\\' :: rest => ofChars? (.escape seen) rest
  | .string seen, c :: rest => ofChars? (.string (c :: seen)) rest
  | .escape seen, c :: rest =>
    if c = '"' ∨ c = '\\' then ofChars? (.string (c :: seen)) rest else none
  | .line, c :: rest => if c = '\n' then ofChars? .plain rest else ofChars? .line rest
  | .block, '*' :: '/' :: rest => ofChars? .plain rest
  | .block, _ :: rest => ofChars? .block rest

end Glyph

/-! ### Tokens -/

namespace Token

/-- The value of a digit in a base up to sixteen. -/
def digitIn? (base : Nat) (c : Char) : Option Nat :=
  let value :=
    if '0' ≤ c ∧ c ≤ '9' then c.toNat - '0'.toNat
    else if 'a' ≤ c ∧ c ≤ 'f' then c.toNat - 'a'.toNat + 10
    else if 'A' ≤ c ∧ c ≤ 'F' then c.toNat - 'A'.toNat + 10
    else base
  if value < base then some value else none

/-- A whole number in a base, if it has digits and fits 63 bits. -/
def natIn? (base : Nat) (cs : List Char) : Option Nat :=
  if cs.isEmpty then none
  else
    match cs.foldlM (fun n c => (digitIn? base c).map (base * n + ·)) 0 with
    | some n => if Number.FitsInt64 n then some n else none
    | none => none

/-- A whole number: decimal, or marked as hexadecimal, binary or octal. -/
def nat? : List Char → Option Nat
  | '0' :: 'x' :: rest => natIn? 16 rest
  | '0' :: 'b' :: rest => natIn? 2 rest
  | '0' :: 'o' :: rest => natIn? 8 rest
  | cs => natIn? 10 cs

/-- The constant that a word stands for by itself. -/
def constant? (cs : List Char) : Option Value :=
  match nat? cs with
  | some n => some (.int n)
  | none =>
    match Number.readDouble? (.ofList cs) with
    | some x => some (.float x)
    | none =>
      if cs = "true".toList then some (.boolean true)
      else if cs = "false".toList then some (.boolean false)
      else none

/-- Turns glyphs into tokens. A single `&` or `|` is no token. -/
def ofGlyphs? : List Glyph → Option (List Token)
  | [] => some []
  | .token t :: rest => (ofGlyphs? rest).map (t :: ·)
  | .blank :: rest => ofGlyphs? rest
  | .plus :: .equals :: rest | .minus :: .equals :: rest | .star :: .equals :: rest
  | .slash :: .equals :: rest | .percent :: .equals :: rest | .hat :: .equals :: rest =>
    (ofGlyphs? rest).map (.assign :: ·)
  | .plus :: rest => (ofGlyphs? rest).map (.plus :: ·)
  | .minus :: rest => (ofGlyphs? rest).map (.minus :: ·)
  | .star :: rest => (ofGlyphs? rest).map (.star :: ·)
  | .slash :: rest => (ofGlyphs? rest).map (.slash :: ·)
  | .percent :: rest => (ofGlyphs? rest).map (.percent :: ·)
  | .hat :: rest => (ofGlyphs? rest).map (.hat :: ·)
  | .equals :: .equals :: rest => (ofGlyphs? rest).map (.eq :: ·)
  | .equals :: rest => (ofGlyphs? rest).map (.assign :: ·)
  | .bang :: .equals :: rest => (ofGlyphs? rest).map (.ne :: ·)
  | .bang :: rest => (ofGlyphs? rest).map (.not :: ·)
  | .greater :: .equals :: rest => (ofGlyphs? rest).map (.ge :: ·)
  | .greater :: rest => (ofGlyphs? rest).map (.gt :: ·)
  | .less :: .equals :: rest => (ofGlyphs? rest).map (.le :: ·)
  | .less :: rest => (ofGlyphs? rest).map (.lt :: ·)
  | .ampersand :: .ampersand :: .equals :: rest => (ofGlyphs? rest).map (.assign :: ·)
  | .ampersand :: .ampersand :: rest => (ofGlyphs? rest).map (.and :: ·)
  | .ampersand :: _ => none
  | .bar :: .bar :: .equals :: rest => (ofGlyphs? rest).map (.assign :: ·)
  | .bar :: .bar :: rest => (ofGlyphs? rest).map (.or :: ·)
  | .bar :: _ => none
  | .word cs :: rest =>
    match constant? cs with
    | some v => (ofGlyphs? rest).map (.const v :: ·)
    | none =>
      -- A number may go on with the sign and the digits of its exponent.
      let whole? : Option Value :=
        match rest with
        | .plus :: .word digits :: _ =>
          (Number.readDouble? (.ofList (cs ++ '+' :: digits))).map .float
        | .minus :: .word digits :: _ =>
          (Number.readDouble? (.ofList (cs ++ '-' :: digits))).map .float
        | _ => none
      match whole?, rest with
      | some v, _ :: _ :: rest => (ofGlyphs? rest).map (.const v :: ·)
      | _, rest => (ofGlyphs? rest).map (.word (.ofList cs) :: ·)

/-- Cuts the text of an expression into tokens. -/
def ofChars? (cs : List Char) : Option (List Token) :=
  (Glyph.ofChars? .plain cs).bind ofGlyphs?

end Token

end Cutscene.Condition
