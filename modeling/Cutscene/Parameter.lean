import Cutscene.Vector3
import Cutscene.Text.Escape
import Cutscene.Notice

/-!
# Parameters

A graph has parameters of twelve kinds. A value is written as a literal that its kind can read
back; `Value.literal` writes, `Value.read` reads.
-/

namespace Cutscene

namespace Parameter

/-- What a parameter holds. Scene objects, items, documents and variables are held by their id. -/
inductive Kind where
  | integer
  | float
  | string
  | vector
  | boolean
  | popUp
  | gameObject
  | asset
  | globalVariable
  | localVariable
  | inventoryItem
  | document
deriving DecidableEq, Repr

/-- A value with its kind. -/
inductive Value where
  | integer (value : Int32)
  | float (value : Float32)
  | string (value : String)
  | vector (value : Vector3)
  | boolean (value : Bool)
  | popUp (choice : Int32)
  | gameObject (id : Int32)
  | asset (name : String)
  | globalVariable (id : Int32)
  | localVariable (id : Int32)
  | inventoryItem (id : Int32)
  | document (id : Int32)
deriving DecidableEq

/-- The name of a kind. -/
def Kind.name : Kind → String
  | .integer => "Integer"
  | .float => "Float"
  | .string => "String"
  | .vector => "Vector3"
  | .boolean => "Boolean"
  | .popUp => "PopUp"
  | .gameObject => "GameObject"
  | .asset => "Asset"
  | .globalVariable => "GlobalVariable"
  | .localVariable => "LocalVariable"
  | .inventoryItem => "InventoryItem"
  | .document => "Document"

namespace Value

/-- The kind of a value. -/
def kind : Value → Kind
  | .integer _ => .integer
  | .float _ => .float
  | .string _ => .string
  | .vector _ => .vector
  | .boolean _ => .boolean
  | .popUp _ => .popUp
  | .gameObject _ => .gameObject
  | .asset _ => .asset
  | .globalVariable _ => .globalVariable
  | .localVariable _ => .localVariable
  | .inventoryItem _ => .inventoryItem
  | .document _ => .document

/-- The value a parameter of this kind starts with. -/
def default : Kind → Value
  | .integer => .integer 0
  | .float => .float 0
  | .string => .string ""
  | .vector => .vector .zero
  | .boolean => .boolean false
  | .popUp => .popUp 0
  | .gameObject => .gameObject 0
  | .asset => .asset ""
  | .globalVariable => .globalVariable 0
  | .localVariable => .localVariable 0
  | .inventoryItem => .inventoryItem 0
  | .document => .document 0

/-- The number of an integer or of the choice in a menu. -/
def integer? : Value → Option Int32
  | .integer v | .popUp v => some v
  | _ => none

/-- The number of a float. -/
def float? : Value → Option Float32
  | .float v => some v
  | _ => none

/-- The text of a string or the name of an asset. -/
def string? : Value → Option String
  | .string s | .asset s => some s
  | _ => none

/-- The truth value of a boolean. -/
def boolean? : Value → Option Bool
  | .boolean b => some b
  | _ => none

/-- The coordinates of a vector. -/
def vector? : Value → Option Vector3
  | .vector v => some v
  | _ => none

/-- The id of an object, item, document or variable. -/
def reference? : Value → Option Int32
  | .gameObject id | .globalVariable id | .localVariable id | .inventoryItem id
  | .document id => some id
  | _ => none

/-- The literal of a value, before any escaping. -/
def literal : Value → String
  | .integer v | .popUp v | .gameObject v | .globalVariable v | .localVariable v
  | .inventoryItem v | .document v => toString v.toInt
  | .float v => Number.singleText v
  | .string s | .asset s => s
  | .vector v => v.text
  | .boolean b => if b then "1" else "0"

/-- Reads an integer, blanks around it aside; what is no number counts as zero. -/
def readInteger (s : String) : Int32 :=
  (Number.readInt32? (Text.trimChars s.toList)).getD 0

/-- The texts that mean yes. -/
def readBoolean (s : String) : Bool :=
  let word := Text.trim s
  word == "1" || word == "true" || word == "True"

/-- Reads a literal as a value of the given kind. Every text is a literal of every kind: what
cannot be read is zero, or no. -/
def read (kind : Kind) (s : String) : Value :=
  match kind with
  | .integer => .integer (readInteger s)
  | .float => .float (Vector3.readCoordinate s.toList)
  | .string => .string s
  | .vector => .vector (.read s)
  | .boolean => .boolean (readBoolean s)
  | .popUp => .popUp (readInteger s)
  | .gameObject => .gameObject (readInteger s)
  | .asset => .asset s
  | .globalVariable => .globalVariable (readInteger s)
  | .localVariable => .localVariable (readInteger s)
  | .inventoryItem => .inventoryItem (readInteger s)
  | .document => .document (readInteger s)

@[simp] theorem kind_read (k : Kind) (s : String) : (read k s).kind = k := by
  cases k <;> rfl

@[simp] theorem kind_default (k : Kind) : (default k).kind = k := by
  cases k <;> rfl

end Value

end Parameter

/-- A named place for a value, addressed by its id. -/
structure Parameter where
  id : Int32
  label : String := ""
  value : Parameter.Value
deriving DecidableEq

namespace Parameter

/-- The kind of the value it holds, which never changes. -/
def kind (p : Parameter) : Kind := p.value.kind

/-- Replaces the value by one of the same kind; there is no other replacement. -/
def set? (p : Parameter) (value : Value) : Option Parameter :=
  if value.kind = p.kind then some { p with value } else none

/-- Replaces the number of an integer or of the choice in a menu. -/
def setInteger? (p : Parameter) (value : Int32) : Option Parameter :=
  match p.kind with
  | .popUp => p.set? (.popUp value)
  | _ => p.set? (.integer value)

end Parameter

end Cutscene
