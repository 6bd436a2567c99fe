import Cutscene.Number.Decimal
import Cutscene.Text.Pieces
import Cutscene.Text.Blank

/-!
# Vectors in space

Three single-precision coordinates, written and read as `x,y,z`.
-/

namespace Cutscene

/-- A vector in space. -/
structure Vector3 where
  x : Float32
  y : Float32
  z : Float32
deriving DecidableEq, Inhabited

namespace Vector3

/-- The zero vector. -/
def zero : Vector3 := ⟨0, 0, 0⟩

/-- The coordinates, separated by commas. -/
def text (v : Vector3) : String :=
  Number.singleText v.x ++ "," ++ Number.singleText v.y ++ "," ++ Number.singleText v.z

/-- Reads a coordinate, blanks around it aside; what is no number counts as zero. -/
def readCoordinate (cs : List Char) : Float32 :=
  (Number.readSingle? (.ofList (Text.trimChars cs))).getD 0

/-- Reads the first three of the coordinates between commas; those that are missing are zero. -/
def read (s : String) : Vector3 :=
  let parts := (Text.cut ',' s.toList).map readCoordinate
  ⟨parts.getD 0 0, parts.getD 1 0, parts.getD 2 0⟩

end Vector3

end Cutscene
