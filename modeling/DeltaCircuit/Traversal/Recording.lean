import DeltaCircuit.Expr.Text
import DeltaCircuit.Traversal.Walk

/-!
# Recorded traversals

A recorder is a visitor that writes down every call of its hooks and does not enter the nodes that
it is told to skip.

* `Recorder` — which hooks are heard, whether the others pass calls on, and what is skipped.
* `Recorder.visitor` — the visitor of a recorder; its state is the list of events, the last first.
* `SyntaxNode.record` — the events of a whole visit.
* `Expr.nodes` — the expressions that a visit of everything meets.
-/

namespace DeltaCircuit

/-- An event of a traversal. -/
inductive Event where
  | start
  | finish
  | before (hook text : String)
  | after (hook text : String)
deriving DecidableEq

def Event.text : Event → String
  | start => "start"
  | finish => "end"
  | before hook text => "pre " ++ hook ++ " " ++ text
  | after hook text => "post " ++ hook ++ " " ++ text

/-- The hooks that a recorder hears. -/
inductive Level where
  /-- The hook of all nodes. -/
  | nodes
  /-- The hooks of the sorts of nodes and of the families in them. -/
  | families
  /-- The hooks of the single forms. -/
  | leaves
deriving DecidableEq

/-- A hook and, after it, the text of a node. -/
def labelled (hook text : String) : String := hook ++ " " ++ text

/-- A visitor that records. -/
structure Recorder where
  level : Level
  /-- Whether a hook that is not heard passes its calls on, and with it the hooks of families. -/
  delegates : Bool
  /-- Hooks, and nodes at hooks, that are not entered. -/
  skipped : List String

/-- The text of a node. An arm shows its pattern. -/
def SyntaxNode.text : SyntaxNode → String
  | .type t => t.text
  | .expr e => e.text
  | .pattern p => p.text
  | .statement s => s.text
  | .arm a => a.pattern.text

namespace Recorder

/-- Whether a recorder hears a hook. -/
def hears (r : Recorder) (h : Hook) : Bool :=
  match r.level with
  | .nodes => h.breadth = .all
  | .families => h.breadth = .sort || h.breadth = .family
  | .leaves => h.breadth = .form

/-- The name of a hook in an event. The hook of all nodes goes by the sort of the node. -/
def hookName (h : Hook) (n : SyntaxNode) : String :=
  if h = .node then n.sort.name else h.name

def skips (r : Recorder) (hook text : String) : Bool :=
  r.skipped.contains hook || r.skipped.contains (labelled hook text)

/-- Whether a hook that is heard passes its calls on: those of families do. -/
def passesOn (r : Recorder) (h : Hook) : Bool := r.delegates && h.breadth = .family

/-- What is written down about a node before it, and whether to enter. -/
def heardBefore (r : Recorder) (h : Hook) (n : SyntaxNode) (events : List Event) :
    Entry × List Event :=
  let hook := hookName h n
  let entry :=
    if r.skips hook n.text then .settled false
    else if r.passesOn h then .passedOn
    else .settled true
  (entry, .before hook n.text :: events)

/-- The visitor of a recorder. -/
def visitor (r : Recorder) : Visitor (List Event) where
  start events := .start :: events
  finish events := .finish :: events
  before h n events :=
    if r.hears h then r.heardBefore h n events else (Visitor.silent r.delegates).before h n events
  after h n events :=
    if r.hears h then (r.passesOn h, .after (hookName h n) n.text :: events)
    else (Visitor.silent r.delegates).after h n events

end Recorder

/-- The events of a whole visit of a node. -/
def SyntaxNode.record (r : Recorder) (n : SyntaxNode) : List Event :=
  (n.traverse r.visitor []).reverse

/-- The expressions that a visit of everything meets, in its order. -/
def Expr.nodes (e : Expr) : List Expr :=
  let collector : Visitor (List Expr) :=
    { Visitor.silent true with
      before := fun h n met =>
        match h, n with
        | .expr, .expr e => (.settled true, e :: met)
        | _, _ => (.passedOn, met) }
  (e.walk collector []).reverse

end DeltaCircuit
