import Cutscene.Text.Unprintable

/-!
# Quoted names

A name in double quotes for a reader: quotes, backslashes and some controls are escaped with a
letter, everything else that cannot be shown with its code point.
-/

namespace Cutscene.Text

/-- A code point in lower-case hexadecimal digits. -/
def hexText (n : Nat) : String := .ofList (Nat.toDigits 16 n)

/-- The form of a character inside quotes. -/
def quotedChar (c : Char) : String :=
  if c = '"' then "\\\""
  else if c = '\\' then "\\\\"
  else if c = '\n' then "\\n"
  else if c = '\r' then "\\r"
  else if c = '\t' then "\\t"
  else if c = '\x00' then "\\0"
  else if isUnprintable c then "\\u\x7b" ++ hexText c.toNat ++ "\x7d"
  else c.toString

/-- A name in quotes. -/
def quoted (s : String) : String :=
  s.toList.foldl (fun out c => out ++ quotedChar c) "\"" ++ "\""

end Cutscene.Text
