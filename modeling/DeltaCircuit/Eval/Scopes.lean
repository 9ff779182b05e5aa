import DeltaCircuit.Assoc
import DeltaCircuit.Eval.Error

/-!
# Scopes

Variables live in a stack of scopes, the innermost first. A name is looked up from the inside out.

* `Scopes.find?` — the value of a name.
* `Scopes.bind` — binds a name in the innermost scope.
* `Scopes.assign` — changes a variable, or a component of its value, where it is bound.
* `Expr.place?` — the variable that an assignment goes to, and the path to the component.
-/

namespace DeltaCircuit

/-- Variables, innermost scope first. -/
abbrev Scopes := List (List (String × Value))

namespace Scopes

/-- The value of the innermost variable of a name. -/
def find? : Scopes → String → Option Value
  | [], _ => none
  | scope :: outer, name => (Assoc.get? scope name).or (find? outer name)

/-- Binds a name in the innermost scope; without a scope nothing is bound. -/
def bind (scopes : Scopes) (name : String) (value : Value) : Scopes :=
  match scopes with
  | [] => []
  | scope :: outer => Assoc.set scope name value :: outer

/-- Changes the innermost variable of a name. -/
def update : Scopes → String → Value → Scopes
  | [], _, _ => []
  | scope :: outer, name, value =>
    if (Assoc.get? scope name).isSome then Assoc.set scope name value :: outer
    else scope :: update outer name value

end Scopes

/-- The variable that an expression denotes a component of, and the fields from the variable to
the component. -/
def Expr.place? : Expr → Except EvalError (String × List Nat)
  | ⟨_, _, .var name⟩ => .ok (name, [])
  | ⟨_, _, .field base index⟩ => do
    let (name, path) ← base.place?
    return (name, path ++ [index])
  | ⟨_, _, .deref operand⟩ => operand.place?
  | e => .error (.notAssignable e)
termination_by structural e => e

/-- Replaces the component of a value at the end of a path. -/
def Value.replaceAt : (path : List Nat) → (value : Value) → (component : Value) →
    Except EvalError Value
  | [], _, component => .ok component
  | index :: path, .row fields, component =>
    match fields[index]? with
    | none => .error (.noFieldToAssign index)
    | some field => do
      let field ← replaceAt path field component
      return .row (fields.set index field)
  | _ :: _, value, _ => .error (.notRowToAssign value)

/-- Assigns to the component that an expression denotes. -/
def Scopes.assign (scopes : Scopes) (target : Expr) (value : Value) : Except EvalError Scopes := do
  let (name, path) ← target.place?
  match scopes.find? name with
  | none => throw (.unbound name)
  | some old => return scopes.update name (← old.replaceAt path value)

end DeltaCircuit
