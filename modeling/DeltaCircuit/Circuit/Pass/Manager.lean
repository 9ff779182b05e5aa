import DeltaCircuit.Circuit.Pass.Incrementalize
import DeltaCircuit.Circuit.Pass.RemoveOperators
import DeltaCircuit.Circuit.Pass.SimplifyFunctions

/-!
# Passes

A pass makes a circuit of another. `Pass.runAll` runs passes one after another, all of them or those
that a filter names; the first error ends the run.
-/

namespace DeltaCircuit

/-- The passes over circuits. -/
inductive Pass where
  | simplifyFunctions | deadCode | incrementalize
deriving DecidableEq

namespace Pass

/-- The name of a pass, for filters. -/
def name : Pass → String
  | simplifyFunctions => "simplify_functions"
  | deadCode => "dead_code"
  | incrementalize => "incrementalize"

def description : Pass → String
  | simplifyFunctions => "Folds constant sub-expressions in operator functions"
  | deadCode => "Removes operators that no sink depends on and splices out no-ops"
  | incrementalize => "Integrates every source and differentiates every sink"

/-- All passes. -/
def all : List Pass := [simplifyFunctions, deadCode, incrementalize]

/-- The pass of a name. -/
def ofName? (name : String) : Option Pass := all.find? fun pass => pass.name == name

/-- The passes that are run on every compiled circuit. -/
def defaults : List Pass := [simplifyFunctions, deadCode]

def run : Pass → Circuit → Except CircuitError Circuit
  | simplifyFunctions => Circuit.simplifyFunctions
  | deadCode => Circuit.removeDeadCode
  | incrementalize => Circuit.incrementalize

/-- Whether a filter admits a pass. -/
def admitted (filter : Option (List String)) (pass : Pass) : Bool :=
  match filter with
  | none => true
  | some names => names.contains pass.name

/-- Runs passes in order. -/
def runAll (passes : List Pass) (filter : Option (List String)) (c : Circuit) :
    Except CircuitError Circuit :=
  (passes.filter (admitted filter)).foldlM (fun c pass => pass.run c) c

end Pass
end DeltaCircuit
