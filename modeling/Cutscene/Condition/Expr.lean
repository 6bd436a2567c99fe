import Cutscene.Condition.Token

/-!
# Expression trees

`Expr.ofTokens?` builds the tree of an expression by putting one operator after the other where its
precedence lets it go (`Expr.insert?`). Brackets and sequences are kept on a stack until they close.
The builder does not count operands: an operator without its operands is found out only when the
expression is evaluated.
-/

namespace Cutscene.Condition

/-- What a node of a tree does with its children. -/
inductive Operator where
  /-- A pair of brackets, or the whole expression. -/
  | group
  | add | sub | neg | mul | div | mod | pow
  | eq | ne | gt | lt | ge | le | and | or | not
  | assign
  /-- Items between commas. -/
  | tuple
  /-- Expressions between semicolons. -/
  | chain
  | const (value : Value)
  /-- A variable that would be assigned. -/
  | target (name : String)
  | lookup (name : String)
  | call (name : String)

namespace Operator

/-- Operators of higher precedence bind their operands first. -/
def precedence : Operator → Nat
  | .group | .const _ | .target _ | .lookup _ => 200
  | .call _ => 190
  | .pow => 120
  | .neg | .not => 110
  | .mul | .div | .mod => 100
  | .add | .sub => 95
  | .eq | .ne | .gt | .lt | .ge | .le => 80
  | .and => 75
  | .or => 70
  | .assign => 50
  | .tuple => 40
  | .chain => 0

/-- The number of operands, if it is limited. -/
def arity? : Operator → Option Nat
  | .const _ | .target _ | .lookup _ => some 0
  | .group | .neg | .not | .call _ => some 1
  | .tuple | .chain => none
  | _ => some 2

/-- It has no operands. -/
def isLeaf (o : Operator) : Bool := o.arity? == some 0

/-- It stands in front of its operand. -/
def isUnary : Operator → Bool
  | .neg | .not | .call _ => true
  | _ => false

/-- It collects expressions. -/
def isSequence : Operator → Bool
  | .tuple | .chain => true
  | _ => false

/-- Of two such operators in a row, the second is done first. -/
def groupsRight : Operator → Bool
  | .assign | .call _ => true
  | _ => false

/-- It is a pair of brackets. -/
def isGroup : Operator → Bool
  | .group => true
  | _ => false

/-- A new operator goes below this one. -/
def admits (o new : Operator) : Bool :=
  o.precedence < new.precedence || new.isUnary ||
    (o.precedence == new.precedence && o.groupsRight && new.groupsRight)

end Operator

/-- An expression: an operator and its operands, the last one first. -/
inductive Expr where
  | node (operator : Operator) (operands : List Expr)

namespace Expr

/-- The operator at the top. -/
def operator : Expr → Operator
  | .node o _ => o

/-- An operator without operands so far. -/
def leaf (o : Operator) : Expr := .node o []

/-- Brackets without content so far. -/
def empty : Expr := leaf .group

/-- Adds an operand at the end. -/
def append (e : Expr) (operand : Expr) : Expr :=
  match e with
  | .node o operands => .node o (operand :: operands)

/-- Puts `new` at the end of an expression, where its precedence lets it go: below operators that
admit it, and above the first operand that does not. Two values in a row have no place. -/
def insert? (new : Expr) : Expr → Option Expr
  | .node o [] => if o.isLeaf then none else some (.node o [new])
  | .node o (last :: rest) =>
    if o.isLeaf then none
    else if o.arity? ≠ some (rest.length + 1) then some (.node o (new :: last :: rest))
    else if last.operator.admits new.operator then
      (insert? new last).map fun last => .node o (last :: rest)
    else if new.operator.isLeaf then none
    else if o.isGroup && (!rest.isEmpty || new.operator.isGroup) then none
    else some (.node o (new.append last :: rest))

/-! ### The stack of open brackets and sequences -/

/-- Closes the sequences on top of a stack, down to the brackets around them. -/
def closeSequences : List Expr → Option (List Expr)
  | [] => none
  | e :: below =>
    if e.operator.isGroup then some (e :: below)
    else
      match below with
      | [] => none
      | outer :: below => closeSequences (outer.append e :: below)
termination_by stack => stack.length

/-- Closes the expressions on a stack that bind more than a sequence does, and gives what they have
become together. -/
def closeDownTo (goal : Operator) (e : Expr) : List Expr → Option (Expr × List Expr)
  | [] => none
  | outer :: below =>
    if goal.precedence < outer.operator.precedence then closeDownTo goal (outer.append e) below
    else some (e, outer :: below)

/-- The two operators are sequences of one kind. -/
def sameSequence : Operator → Operator → Bool
  | .tuple, .tuple | .chain, .chain => true
  | _, _ => false

/-- Puts the operator of a token onto a stack. -/
def place? (new : Expr) : List Expr → Option (List Expr)
  | [] => none
  | top :: below =>
    if new.operator.isSequence then
      if sameSequence top.operator new.operator then some (top.append empty :: below)
      else if top.operator.isGroup then some ((new.append top).append empty :: empty :: below)
      else if top.operator.precedence < new.operator.precedence then
        match top with
        | .node _ [] => none
        | .node o (last :: rest) => some ((new.append last).append empty :: .node o rest :: below)
      else
        (closeDownTo new.operator top below).map fun (e, below) => new.append e :: below
    else if top.operator.isSequence then
      match top with
      | .node _ [] => none
      | .node o (last :: rest) => (insert? new last).map fun last => .node o (last :: rest) :: below
    else (insert? new top).map (· :: below)

/-- The operator of a token other than a bracket. A minus is a sign where no value has ended, and a
word is called if a value follows. -/
def ofToken? (afterValue : Bool) (token : Token) (next : Option Token) : Option Operator :=
  match token with
  | .plus => some .add
  | .minus => some (if afterValue then .sub else .neg)
  | .star => some .mul
  | .slash => some .div
  | .percent => some .mod
  | .hat => some .pow
  | .eq => some .eq
  | .ne => some .ne
  | .gt => some .gt
  | .lt => some .lt
  | .ge => some .ge
  | .le => some .le
  | .and => some .and
  | .or => some .or
  | .not => some .not
  | .assign => some .assign
  | .comma => some .tuple
  | .semicolon => some .chain
  | .const v => some (.const v)
  | .word name =>
    match next with
    | some .assign => some (.target name)
    | some t => some (if t.beginsValue then .call name else .lookup name)
    | none => some (.lookup name)
  | .leftParen | .rightParen => none

/-- Takes up tokens, on a stack with the innermost brackets or sequence on top. -/
def build? (afterValue : Bool) (stack : List Expr) : List Token → Option (List Expr)
  | [] => some stack
  | token :: rest =>
    let stack? :=
      match token with
      | .leftParen => some (empty :: stack)
      | .rightParen =>
        match stack with
        | [] | [_] => none
        | stack =>
          match closeSequences stack with
          | some (group :: below) => place? group below
          | _ => none
      | token =>
        match ofToken? afterValue token rest.head? with
        | some o => place? (leaf o) stack
        | none => none
    match stack? with
    | some stack => build? token.endsValue stack rest
    | none => none

/-- The tree of an expression, if its tokens have one. -/
def ofTokens? (tokens : List Token) : Option Expr :=
  match (build? false [empty] tokens).bind closeSequences with
  | some [e] => some e
  | _ => none

/-- Reads the text of an expression. -/
def ofChars? (cs : List Char) : Option Expr := (Token.ofChars? cs).bind ofTokens?

end Expr

end Cutscene.Condition
