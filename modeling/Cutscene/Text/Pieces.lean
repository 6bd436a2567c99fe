/-!
# Pieces of a text

Cutting a text at separators, and replacing a word throughout a text.
-/

namespace Cutscene.Text

/-- Cuts a text at every separator; there is one piece more than there are separators. -/
def cut (separator : Char) : List Char → List (List Char)
  | [] => [[]]
  | c :: rest =>
    if c = separator then [] :: cut separator rest
    else match cut separator rest with
      | [] => [[c]]
      | piece :: pieces => (c :: piece) :: pieces

/-- Cuts a text at its first separator, if it has one. -/
def cutOnce (separator : Char) : List Char → Option (List Char × List Char)
  | [] => none
  | c :: rest =>
    if c = separator then some ([], rest)
    else (cutOnce separator rest).map fun (before, after) => (c :: before, after)

/-- `replaceChars` while `skip` characters of a word already replaced are still to be passed. -/
def replaceFrom (word sub : List Char) : Nat → List Char → List Char
  | _, [] => []
  | skip + 1, _ :: rest => replaceFrom word sub skip rest
  | 0, c :: rest =>
    if word.isPrefixOf (c :: rest) then sub ++ replaceFrom word sub (word.length - 1) rest
    else c :: replaceFrom word sub 0 rest

/-- Every occurrence of a word that is not empty, from the left and without overlaps, gives way to
`sub`. -/
def replaceChars (word sub cs : List Char) : List Char := replaceFrom word sub 0 cs

/-- Every occurrence of a word that is not empty, from the left and without overlaps, gives way to
`sub`. -/
def replace (word sub s : String) : String :=
  .ofList (replaceChars word.toList sub.toList s.toList)

end Cutscene.Text
