import Cutscene.Condition.Expr
import Cutscene.Text.LetterCase
import Cutscene.Variables

/-!
# Evaluating conditions

`Expr.eval?` evaluates an expression over bindings of names to values; every operand is evaluated
before its operator. There is no result where an operand has the wrong type, a name is not bound, an
operator lacks an operand, or a whole number leaves 64 bits.
-/

namespace Cutscene.Condition

/-- Names bound to values, the latest binding first. -/
abbrev Bindings := List (String × Value)

namespace Bindings

/-- Binds a name. A name keeps the type it was bound to first; a value of another type is not
taken. -/
def bind (b : Bindings) (name : String) (value : Value) : Bindings :=
  match b.lookup name with
  | some old => if old.sameType value then (name, value) :: b else b
  | none => (name, value) :: b

/-- The value that a variable has in a condition. A vector has none. -/
def valueOf? : Variable.Value → Option Value
  | .integer n => some (.int n.toInt)
  | .float x => some (.float (Number.widen x))
  | .boolean b => some (.boolean b)
  | .string s => some (.string s)
  | .vector _ => none

/-- Binds the label of a variable. -/
def bindVariable (b : Bindings) (v : Variable) : Bindings :=
  match valueOf? v.value with
  | some value => b.bind v.label value
  | none => b

/-- The bindings that conditions see: global variables, and over them those of the scene. -/
def ofVariables (vs : Variables) : Bindings :=
  vs.scene.foldl bindVariable (vs.global.foldl bindVariable [])

end Bindings

/-! ### Operators -/

namespace Operator

/-- Arithmetic on two numbers: whole if both are, floating-point otherwise. -/
def arithmetic? (onInts : Int → Int → Option Int) (onFloats : Float → Float → Float) :
    Value → Value → Option Value
  | .int a, .int b => (onInts a b).bind Value.int64?
  | a, b =>
    match a.number?, b.number? with
    | some a, some b => some (.float (onFloats a b))
    | _, _ => none

/-- The order of two texts or two numbers. -/
def compare? (onStrings : String → String → Bool) (onInts : Int → Int → Bool)
    (onFloats : Float → Float → Bool) : Value → Value → Option Value
  | .string a, .string b => some (.boolean (onStrings a b))
  | .int a, .int b => some (.boolean (onInts a b))
  | a, b =>
    match a.number?, b.number? with
    | some a, some b => some (.boolean (onFloats a b))
    | _, _ => none

/-- The remainder of a division toward zero, with the sign of the dividend. -/
def remainder (a b : Float) : Float :=
  let bitsA := a.toBits.toNat
  let bitsB := b.toBits.toNat
  let l := Number.double
  let magA := bitsA % l.signBit
  let magB := bitsB % l.signBit
  if l.infinity ≤ magA ∨ l.infinity < magB ∨ magB = 0 then 0 / 0
  else if magB = l.infinity then a
  else
    let r := l.units magA % l.units magB
    .ofBits (.ofNat (bitsA / l.signBit * l.signBit + l.round r (Number.twoTo l.scale)))

/-- What an operator makes of two operands. -/
def binary? (o : Operator) (a b : Value) : Option Value :=
  match o with
  | .add =>
    match a, b with
    | .string a, .string b => some (.string (a ++ b))
    | a, b => arithmetic? (fun a b => some (a + b)) (· + ·) a b
  | .sub => arithmetic? (fun a b => some (a - b)) (· - ·) a b
  | .mul => arithmetic? (fun a b => some (a * b)) (· * ·) a b
  | .div => arithmetic? (fun a b => if b = 0 then none else some (a.tdiv b)) (· / ·) a b
  | .mod =>
    let onInts (a b : Int) :=
      if b = 0 ∨ (a = -9223372036854775808 ∧ b = -1) then none else some (a.tmod b)
    arithmetic? onInts remainder a b
  | .pow =>
    match a.number?, b.number? with
    | some a, some b => some (.float (a.pow b))
    | _, _ => none
  | .eq => some (.boolean (a.equal b))
  | .ne => some (.boolean (!a.equal b))
  | .gt => compare? (fun a b => b < a) (fun a b => b < a) (fun a b => b < a) a b
  | .lt => compare? (fun a b => a < b) (fun a b => a < b) (fun a b => a < b) a b
  | .ge => compare? (fun a b => b ≤ a) (fun a b => b ≤ a) (fun a b => b ≤ a) a b
  | .le => compare? (fun a b => a ≤ b) (fun a b => a ≤ b) (fun a b => a ≤ b) a b
  | .and =>
    match a, b with
    | .boolean a, .boolean b => some (.boolean (a && b))
    | _, _ => none
  | .or =>
    match a, b with
    | .boolean a, .boolean b => some (.boolean (a || b))
    | _, _ => none
  | _ => none

/-- What an operator makes of one operand. -/
def unary? : Operator → Value → Option Value
  | .neg, .int n => Value.int64? (-n)
  | .neg, .float x => some (.float (-x))
  | .not, .boolean b => some (.boolean !b)
  | _, _ => none

end Operator

/-! ### Functions -/

/-- Functions of one number, as far as they are computed. -/
def mathFunction? : String → Option (Float → Float)
  | "math::ln" => some Float.log
  | "math::log2" => some Float.log2
  | "math::log10" => some Float.log10
  | "math::exp" => some Float.exp
  | "math::exp2" => some Float.exp2
  | "math::cos" => some Float.cos
  | "math::acos" => some Float.acos
  | "math::cosh" => some Float.cosh
  | "math::acosh" => some Float.acosh
  | "math::sin" => some Float.sin
  | "math::asin" => some Float.asin
  | "math::sinh" => some Float.sinh
  | "math::asinh" => some Float.asinh
  | "math::tan" => some Float.tan
  | "math::atan" => some Float.atan
  | "math::tanh" => some Float.tanh
  | "math::atanh" => some Float.atanh
  | "math::sqrt" => some Float.sqrt
  | "math::cbrt" => some Float.cbrt
  | "floor" => some Float.floor
  | "round" => some Float.round
  | "ceil" => some Float.ceil
  | _ => none

/-- The length of the hypotenuse over two sides. -/
def hypotenuse (a b : Float) : Float :=
  let a := a.abs
  let b := b.abs
  if a.isInf || b.isInf then 1 / 0
  else
    let long := if a < b then b else a
    let short := if a < b then a else b
    if long == 0 then long else long * (1 + (short / long) * (short / long)).sqrt

/-- Functions of two numbers. -/
def mathFunction2? : String → Option (Float → Float → Float)
  | "math::log" => some fun a base => a.log / base.log
  | "math::pow" => some Float.pow
  | "math::atan2" => some Float.atan2
  | "math::hypot" => some hypotenuse
  | _ => none

/-- A normal number has a leading bit of its own. -/
def isNormal (x : Float) : Bool :=
  let e :=
    x.toBits.toNat / Number.twoTo Number.double.fraction % Number.twoTo Number.double.exponent
  0 < e && e < Number.twoTo Number.double.exponent - 1

/-- Questions about a number. -/
def mathTest? : String → Option (Float → Bool)
  | "math::is_nan" => some Float.isNaN
  | "math::is_finite" => some Float.isFinite
  | "math::is_infinite" => some Float.isInf
  | "math::is_normal" => some isNormal
  | _ => none

/-- A whole number of 64 bits as a word. -/
def word (n : Int) : BitVec 64 := .ofInt 64 n

/-- Operations on the bits of two whole numbers. A shift takes its distance modulo 64. -/
def bitFunction? : String → Option (Int → Int → Int)
  | "bitand" => some fun a b => (word a &&& word b).toInt
  | "bitor" => some fun a b => (word a ||| word b).toInt
  | "bitxor" => some fun a b => (word a ^^^ word b).toInt
  | "shl" => some fun a b => (word a <<< (b % 64).toNat).toInt
  | "shr" => some fun a b => ((word a).sshiftRight (b % 64).toNat).toInt
  | _ => none

/-- The least or greatest of numbers so far, whole and floating-point ones apart. -/
def extremes? (pickInt : Int → Int → Int) (pickFloat : Float → Float → Float) :
    Int → Float → List Value → Option (Int × Float)
  | n, x, [] => some (n, x)
  | n, x, .int m :: rest => extremes? pickInt pickFloat (pickInt n m) x rest
  | n, x, .float y :: rest => extremes? pickInt pickFloat n (pickFloat x y) rest
  | _, _, _ => none

/-- The greatest finite floating-point number. -/
def greatest : Float := .ofBits (.ofNat (Number.double.infinity - 1))

/-- The least of numbers. A whole number wins only if it is smaller than every floating-point
number. -/
def least? (items : List Value) : Option Value :=
  let pick (x y : Float) : Float := if y < x || x.isNaN then y else x
  (extremes? min pick 9223372036854775807 greatest items).map fun (n, x) =>
    if Number.doubleOfInt n < x then .int n else .float x

/-- The greatest of numbers. A whole number wins only if it is greater than every floating-point
number. -/
def most? (items : List Value) : Option Value :=
  let pick (x y : Float) : Float := if x < y || x.isNaN then y else x
  (extremes? max pick (-9223372036854775808) (-greatest) items).map fun (n, x) =>
    if x < Number.doubleOfInt n then .int n else .float x

/-- Whether a tuple holds any of some values, all of which have to be atoms. -/
def holdsAny? (items wanted : List Value) : Option Value :=
  if wanted.all (·.isAtom) then
    some (.boolean (wanted.any fun v => items.any (·.equal v)))
  else none

/-- The bytes of a text from one place up to another, if these lie at characters' ends. -/
def substring? (s : String) (start stop : Nat) : Option String :=
  let bytes := s.toUTF8
  if start ≤ stop ∧ stop ≤ bytes.size then String.fromUTF8? (bytes.extract start stop) else none

/-- A place in a text. -/
def place? : Value → Option Nat
  | .int (.ofNat n) => some n
  | _ => none

/-- Functions of texts and of values of any type. -/
def generalFunction? (name : String) (argument : Value) : Option Value :=
  match name, argument with
  | "typeof", v => some (.string v.typeName)
  | "len", .string s => some (.int s.utf8ByteSize)
  | "len", .tuple items => some (.int items.length)
  | "math::abs", .int n => Value.int64? n.natAbs
  | "math::abs", .float x => some (.float x.abs)
  | "bitnot", .int n => some (.int (~~~ word n).toInt)
  | "min", .tuple items => least? items
  | "max", .tuple items => most? items
  | "if", .tuple [.boolean b, a, c] => some (if b then a else c)
  | "contains", .tuple [.tuple items, v] => holdsAny? items [v]
  | "contains_any", .tuple [.tuple items, .tuple wanted] => holdsAny? items wanted
  | "str::to_lowercase", .string s => some (.string (Text.toSmall s))
  | "str::to_uppercase", .string s => some (.string (Text.toCapitals s))
  | "str::trim", .string s => some (.string (Text.trim s))
  | "str::from", .string s => some (.string s)
  | "str::from", v => some (.string v.text)
  | "str::substring", .tuple [.string s, start] =>
    (place? start).bind fun start => (substring? s start s.utf8ByteSize).map .string
  | "str::substring", .tuple [.string s, start, stop] =>
    (place? start).bind fun start =>
      (place? stop).bind fun stop => (substring? s start stop).map .string
  | _, _ => none

/-- Calls a function. -/
def call? (name : String) (argument : Value) : Option Value :=
  match mathFunction? name, mathFunction2? name, mathTest? name, bitFunction? name with
  | some f, _, _, _ => argument.number?.map fun x => .float (f x)
  | _, some f, _, _ =>
    match argument with
    | .tuple [a, b] =>
      match a.number?, b.number? with
      | some a, some b => some (.float (f a b))
      | _, _ => none
    | _ => none
  | _, _, some f, _ => argument.number?.map fun x => .boolean (f x)
  | _, _, _, some f =>
    match argument with
    | .tuple [.int a, .int b] => some (.int (f a b))
    | _ => none
  | _, _, _, _ => generalFunction? name argument

/-! ### Expressions -/

/-- What an operator makes of its operands. A condition cannot assign. -/
def Operator.perform? (b : Bindings) (o : Operator) (operands : List Value) : Option Value :=
  match o with
  | .group => some (operands.headD .empty)
  | .tuple => some (.tuple operands)
  | .chain => operands.getLast?
  | .const v => some v
  | .target name => some (.string name)
  | .lookup name => b.lookup name
  | .assign => none
  | .call name =>
    match operands with
    | [v] => call? name v
    | _ => none
  | .neg | .not =>
    match operands with
    | [v] => o.unary? v
    | _ => none
  | _ =>
    match operands with
    | [v, w] => o.binary? v w
    | _ => none

mutual

/-- The value of an expression. -/
def Expr.eval? (b : Bindings) : Expr → Option Value
  | .node o operands => (Expr.evalAll? b [] operands).bind (o.perform? b)

/-- The values of operands, of which the last one comes first, put in front of others. -/
def Expr.evalAll? (b : Bindings) (values : List Value) : List Expr → Option (List Value)
  | [] => some values
  | e :: rest =>
    match Expr.eval? b e with
    | some v => Expr.evalAll? b (v :: values) rest
    | none => none

end

/-- The text of a condition with the marks around variables taken away. -/
def strip (s : String) : List Char :=
  (Text.replaceChars ['$', '\x7b'] [] s.toList).filter (· ≠ '\x7d')

end Condition

/-- A condition on variables. -/
structure Condition where
  expr : Condition.Expr

namespace Condition

/-- Reads the text of a condition. -/
def read? (s : String) : Option Condition := (Expr.ofChars? (strip s)).map (⟨·⟩)

/-- Whether the condition holds; it may fail to say. -/
def holds? (c : Condition) (vs : Variables) : Option Bool :=
  (c.expr.eval? (Bindings.ofVariables vs)).bind (·.boolean?)

end Condition

end Cutscene
