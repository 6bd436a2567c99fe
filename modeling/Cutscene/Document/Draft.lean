import Cutscene.Document.Basic

/-!
# Drafting documents

Documents written by a program rather than by an author: a blank one, and what can be added to it.
-/

namespace Cutscene.Document

/-- A document without nodes, named by its id. -/
def blank (id : String) : Document := { id, name := id, nodes := [] }

/-- Names it. -/
def named (d : Document) (name : String) : Document := { d with name }

/-- Starts it at a node. -/
def startingAt (d : Document) (node : String) : Document := { d with start := some node }

/-- Lets it run in the background. -/
def inBackground (d : Document) : Document :=
  { d with settings := { d.settings with mode := .background } }

/-- Forbids skipping it. -/
def unskippable (d : Document) : Document :=
  { d with settings := { d.settings with skippable := false } }

/-- Lets every trigger make an instance of its own. -/
def withManyInstances (d : Document) : Document :=
  { d with settings := { d.settings with multiInstance := true } }

/-- Lets it survive scene changes. -/
def surviving (d : Document) : Document :=
  { d with settings := { d.settings with survivesSceneChange := true } }

/-- Has it wait before its first node. -/
def delayed (d : Document) (seconds : Float32) : Document :=
  { d with settings := { d.settings with startDelay := seconds } }

/-- Adds a parameter. -/
def withParameter (d : Document) (p : Parameter) : Document :=
  { d with parameters := d.parameters ++ [p] }

/-- Adds a node. -/
def withNode (d : Document) (node : Node) : Document := { d with nodes := d.nodes ++ [node] }

namespace Node

/-- A node without params that goes on to the next one. -/
def blank (id kind : String) : Node := { id, kind }

/-- Gives it a title. -/
def titled (n : Node) (title : String) : Node := { n with title }

/-- Gives it a param. -/
def withParam (n : Node) (key : String) (value : Json) : Node :=
  { n with params := Json.insertMember key value n.params }

/-- Binds a field to a parameter. -/
def bound (n : Node) (field : String) (parameter : Int32) : Node :=
  n.withParam (field ++ "_parameter") (.int parameter.toInt)

/-- Gives it other outputs. -/
def withOutputs (n : Node) (outputs : List String) : Node := { n with outputs }

/-- Has it passed over. -/
def disabled (n : Node) : Node := { n with enabled := false }

end Node

end Cutscene.Document
