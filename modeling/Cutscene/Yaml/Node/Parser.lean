import Cutscene.Yaml.Node.Basic
import Cutscene.Yaml.Token.Lexer

/-!
# From tokens to nodes

`Node.ofText?` reads a text that holds at most one document. An anchor is numbered by how many
names of anchors are in use when its node begins; a name that is used again stands for the later
node from then on.
-/

namespace Cutscene.Yaml

/-- What is still to be read, and what the names in it mean. -/
structure Parser where
  tokens : List Token
  /-- The numbers of the anchors by name. -/
  anchors : List (String × Nat) := []
  /-- What handles of tags stand for. -/
  handles : List (String × String) := []

namespace Parser

/-- Reads a part of a document. -/
abbrev Read (α : Type) := StateT Parser Option α

/-- The next token. -/
def peek : Read (Option Token) := do return (← get).tokens.head?

/-- Passes over the next token. -/
def skip : Read Unit := modify fun r => { r with tokens := r.tokens.drop 1 }

/-- The text is not one of the language. -/
def mistake {α : Type} : Read α := fun _ => none

/-- Passes over a token that has to come next. -/
def expect (t : Token) : Read Unit := do if (← peek) = some t then skip else mistake

/-- Numbers an anchor. -/
def number (name : String) : Read Nat := do
  let r ← get
  let number := r.anchors.length
  set { r with anchors := (name, number) :: r.anchors.filter (·.1 ≠ name) }
  return number

/-- The tag that a handle and what follows it stand for. -/
def tagged (handle rest : String) : Read String := do
  if handle.isEmpty then return rest
  else match (← get).handles.lookup handle with
    | some stem => return stem ++ rest
    | none => mistake

/-- Reads the anchor and the tag before a node, in either order. -/
def properties : Read Properties := do
  match ← peek with
  | some (.anchor name) => do
    skip
    let tag ← match ← peek with
      | some (.tag handle rest) => do
        skip
        some <$> tagged handle rest
      | _ => pure none
    return { tag, anchor := some (← number name) }
  | some (.tag handle rest) => do
    skip
    let name ← match ← peek with
      | some (.anchor name) => do
        skip
        pure (some name)
      | _ => pure none
    let tag ← tagged handle rest
    let anchor ← match name with
      | some name => some <$> number name
      | none => pure none
    return { tag, anchor }
  | _ => return {}

/-- The properties of a scalar; a tag that is only an exclamation mark says nothing. -/
def ofScalar (p : Properties) : Properties := if p.tag = some "!" then { p with tag := none } else p

/-- What cannot begin a node inside a block mapping. -/
def endsEntry : Option Token → Bool
  | some .key | some .value | some .blockEnd => true
  | _ => false

/-- A node that only has properties, of which there must be some. -/
def bare (p : Properties) : Read Node := if p = {} then mistake else return .scalar p .plain ""

mutual

/-- Reads a node. Indentation counts in a block; items of a sequence that is the value of a key
need none. -/
def node (inBlock unindented : Bool) : Nat → Read Node
  | 0 => mistake
  | fuel + 1 => do
    match ← peek with
    | some (.alias name) => do
      skip
      match (← get).anchors.lookup name with
      | some anchor => return .alias anchor
      | none => mistake
    | _ => do
      let p ← properties
      match ← peek with
      | some (.scalar style text) => do
        skip
        return .scalar (ofScalar p) style text
      | some .flowSequence => do
        skip
        return .sequence p (← flowItems true fuel)
      | some .flowMapping => do
        skip
        return .mapping p (← flowEntries true fuel)
      | some .item =>
        if unindented then return .sequence p (← looseItems fuel) else bare p
      | some .blockSequence =>
        if inBlock then do
          skip
          return .sequence p (← blockItems fuel)
        else bare p
      | some .blockMapping =>
        if inBlock then do
          skip
          return .mapping p (← blockEntries fuel)
        else bare p
      | _ => bare p

/-- Reads the items of an indented sequence. -/
def blockItems : Nat → Read (List Node)
  | 0 => mistake
  | fuel + 1 => do
    match ← peek with
    | some .item => do
      skip
      let next ← peek
      let first ←
        if next = some .item ∨ next = some .blockEnd then pure Node.empty
        else node true false fuel
      return first :: (← blockItems fuel)
    | some .blockEnd => do
      skip
      return []
    | _ => mistake

/-- Reads the items of a sequence that is not indented. -/
def looseItems : Nat → Read (List Node)
  | 0 => mistake
  | fuel + 1 => do
    match ← peek with
    | some .item => do
      skip
      let next ← peek
      let first ←
        if next = some .item ∨ endsEntry next then pure Node.empty
        else node true false fuel
      return first :: (← looseItems fuel)
    | _ => return []

/-- Reads the entries of an indented mapping. -/
def blockEntries : Nat → Read (List (Node × Node))
  | 0 => mistake
  | fuel + 1 => do
    match ← peek with
    | some .key => do
      skip
      let key ← if endsEntry (← peek) then pure Node.empty else node true true fuel
      let value ← match ← peek with
        | some .value => do
          skip
          if endsEntry (← peek) then pure Node.empty else node true true fuel
        | _ => pure Node.empty
      return (key, value) :: (← blockEntries fuel)
    | some .blockEnd => do
      skip
      return []
    | _ => mistake

/-- Reads the items of a sequence in brackets. An item may be a single entry of a mapping. -/
def flowItems (atStart : Bool) : Nat → Read (List Node)
  | 0 => mistake
  | fuel + 1 => do
    if (← peek) = some .flowSequenceEnd then do
      skip
      return []
    else do
      if !atStart then expect .comma
      match ← peek with
      | some .flowSequenceEnd => do
        skip
        return []
      | some .key => do
        skip
        let next ← peek
        let key ←
          if next = some .value ∨ next = some .comma ∨ next = some .flowSequenceEnd then do
            skip
            pure Node.empty
          else node false false fuel
        let value ← match ← peek with
          | some .value => do
            skip
            let next ← peek
            if next = some .comma ∨ next = some .flowSequenceEnd then pure Node.empty
            else node false false fuel
          | _ => pure Node.empty
        return .mapping {} [(key, value)] :: (← flowItems false fuel)
      | _ => do
        let first ← node false false fuel
        return first :: (← flowItems false fuel)

/-- Reads the entries of a mapping in brackets. An entry may be a key alone. -/
def flowEntries (atStart : Bool) : Nat → Read (List (Node × Node))
  | 0 => mistake
  | fuel + 1 => do
    if (← peek) = some .flowMappingEnd then do
      skip
      return []
    else do
      if !atStart then expect .comma
      match ← peek with
      | some .flowMappingEnd => do
        skip
        return []
      | some .key => do
        skip
        let next ← peek
        let key ←
          if next = some .value ∨ next = some .comma ∨ next = some .flowMappingEnd then
            pure Node.empty
          else node false false fuel
        let value ← match ← peek with
          | some .value => do
            skip
            let next ← peek
            if next = some .comma ∨ next = some .flowMappingEnd then pure Node.empty
            else node false false fuel
          | _ => pure Node.empty
        return (key, value) :: (← flowEntries false fuel)
      | _ => do
        let key ← node false false fuel
        return (key, Node.empty) :: (← flowEntries false fuel)

end

/-- Reads the directives before a document: none may occur twice. -/
def directives (versionSeen : Bool) : Nat → Read Unit
  | 0 => mistake
  | fuel + 1 => do
    match ← peek with
    | some (.version major minor) =>
      if versionSeen ∨ major ≠ 1 ∨ (minor ≠ 1 ∧ minor ≠ 2) then mistake
      else do
        skip
        directives true fuel
    | some (.abbreviation handle stem) => do
      if ((← get).handles.lookup handle).isSome then mistake
      else do
        modify fun r => { r with handles := (handle, stem) :: r.handles }
        skip
        directives versionSeen fuel
    | _ => modify fun r =>
      { r with handles := r.handles ++ [("!", "!"), ("!!", "tag:yaml.org,2002:")] }

/-- Reads the only document. A text without one stands for an empty node. -/
def document (fuel : Nat) : Read Node := do
  match ← peek with
  | none => return .empty
  | some (.version ..) | some (.abbreviation ..) | some .documentStart => do
    directives false fuel
    expect .documentStart
    match ← peek with
    | none | some (.version ..) | some (.abbreviation ..) | some .documentStart
    | some .documentEnd => return .empty
    | _ => node true false fuel
  | _ => do
    directives false fuel
    node true false fuel

end Parser

/-- Reads a text that holds at most one document, which may be closed by marks for its end. -/
def Node.ofText? (text : String) : Option Node := do
  let tokens ← Token.ofText? text
  let (root, r) ← (Parser.document (3 * tokens.length + 3)).run { tokens }
  if r.tokens.all (· = .documentEnd) then return root else none

end Cutscene.Yaml
