/-!
# Diagnostics

Observations that the compiler makes about a program without refusing it.

* `Diagnostic.text` — a diagnostic on one line.
* `Severity.worst?` — the greatest severity of a list.
-/

namespace DeltaCircuit

/-- How serious a diagnostic is. -/
inductive Severity where
  | info
  /-- Something that is worth a look. -/
  | warning
  /-- Something that was not compiled as written. -/
  | error
deriving DecidableEq

namespace Severity

def text : Severity → String
  | info => "info"
  | warning => "warning"
  | error => "error"

/-- The severity of a name. -/
def ofText? (s : String) : Option Severity := [info, warning, error].find? fun v => v.text == s

def rank : Severity → Nat
  | info => 0
  | warning => 1
  | error => 2

/-- The more serious of two severities. -/
def max (a b : Severity) : Severity := if a.rank < b.rank then b else a

/-- The greatest severity. -/
def worst? : List Severity → Option Severity
  | [] => none
  | v :: vs => some (vs.foldl max v)

end Severity

/-- An observation. -/
structure Diagnostic where
  code : String
  severity : Severity
  message : String
  /-- The part of a plan that it is about. -/
  node : Option String
deriving DecidableEq

/-- A diagnostic on one line. -/
def Diagnostic.text (d : Diagnostic) : String :=
  d.severity.text ++ " [" ++ d.code ++ "] " ++ d.message ++
    match d.node with
    | some node => " (" ++ node ++ ")"
    | none => ""

end DeltaCircuit
