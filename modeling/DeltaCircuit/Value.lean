import DeltaCircuit.Literal

/-!
# Runtime values

What an expression evaluates to: NULL, a literal value, or a row or vector of values. Tuples of
both kinds and structs are all rows.

* `Value.same` — equality of values, which differs from equality of the data only where floating
  point numbers do.
* `Value.order` — the total order: first by the sort of value, then by content; rows and vectors
  are ordered like words.
* `Value.text` — a value as messages show it.
-/

namespace DeltaCircuit

/-- A runtime value. -/
inductive Value where
  | null
  | scalar (literal : Literal)
  | row (fields : List Value)
  | vec (items : List Value)

namespace Value

def bool (b : Bool) : Value := scalar (.bool b)

def int (i : Int) : Value := scalar (.int i)

def float (d : Double) : Value := scalar (.float d)

def string (s : String) : Value := scalar (.string s)

/-- The value of an expression that is evaluated for its effect. -/
def unit : Value := row []

/-! ### Equality -/

mutual

def beq : Value → Value → Bool
  | .null, .null => true
  | .scalar l, .scalar l' => l == l'
  | .row vs, .row vs' => beqAll vs vs'
  | .vec vs, .vec vs' => beqAll vs vs'
  | _, _ => false
termination_by structural x => x

def beqAll : List Value → List Value → Bool
  | [], [] => true
  | a :: as, b :: bs => a.beq b && beqAll as bs
  | _, _ => false
termination_by structural x => x

end

mutual

theorem beq_iff_eq : ∀ a b : Value, a.beq b = true ↔ a = b
  | .null, b => by cases b <;> simp [beq]
  | .scalar _, b => by cases b <;> simp [beq]
  | .row vs, b => by cases b <;> simp [beq, beqAll_iff_eq vs]
  | .vec vs, b => by cases b <;> simp [beq, beqAll_iff_eq vs]

theorem beqAll_iff_eq : ∀ as bs : List Value, beqAll as bs = true ↔ as = bs
  | [], bs => by cases bs <;> simp [beqAll]
  | a :: as, bs => by cases bs <;> simp [beqAll, beq_iff_eq a, beqAll_iff_eq as]

end

instance : DecidableEq Value := fun a b => decidable_of_iff (a.beq b = true) (beq_iff_eq a b)

mutual

/-- The representative of all values that are the same as a given one. -/
def canonical : Value → Value
  | .null => .null
  | .scalar l => .scalar l.canonical
  | .row vs => .row (canonicalAll vs)
  | .vec vs => .vec (canonicalAll vs)
termination_by structural x => x

def canonicalAll : List Value → List Value
  | [] => []
  | v :: vs => v.canonical :: canonicalAll vs
termination_by structural x => x

end

/-- Equality of values. -/
def same (a b : Value) : Bool := a.canonical = b.canonical

def isNull (v : Value) : Bool :=
  match v with
  | .null => true
  | _ => false

/-- Whether a value is the boolean `b`; NULL is neither. -/
def isBool (b : Bool) (v : Value) : Bool :=
  match v with
  | .scalar (.bool b') => b = b'
  | _ => false

/-! ### Order -/

/-- The place of a sort of value in the order. -/
def sortIndex : Value → Nat
  | .null => 0
  | .scalar (.bool _) => 1
  | .scalar (.int _) => 2
  | .scalar (.float _) => 3
  | .scalar (.decimal _) => 4
  | .scalar (.string _) => 5
  | .scalar (.date _) => 6
  | .scalar (.timestamp _) => 7
  | .scalar (.interval _) => 8
  | .scalar (.geoPoint _ _) => 9
  | .row _ => 10
  | .vec _ => 11

/-- The order of literals of one sort. -/
def literalOrder : Literal → Literal → Ordering
  | .bool a, .bool b => compare a b
  | .int a, .int b => compare a b
  | .float a, .float b => a.order b
  | .decimal a, .decimal b => compare a b
  | .string a, .string b => compare a b
  | .date a, .date b => a.order b
  | .timestamp a, .timestamp b => a.order b
  | .interval a, .interval b => compare a b
  | .geoPoint x y, .geoPoint x' y' => (x.order x').then (y.order y')
  | _, _ => .eq

mutual

/-- The total order of values. -/
def order : Value → Value → Ordering
  | .scalar l, .scalar l' =>
    (compare (sortIndex (.scalar l)) (sortIndex (.scalar l'))).then (literalOrder l l')
  | .row as, .row bs => orderAll as bs
  | .vec as, .vec bs => orderAll as bs
  | a, b => compare a.sortIndex b.sortIndex
termination_by structural x => x

/-- The order of words of values. -/
def orderAll : List Value → List Value → Ordering
  | [], [] => .eq
  | [], _ :: _ => .lt
  | _ :: _, [] => .gt
  | a :: as, b :: bs => (a.order b).then (orderAll as bs)
termination_by structural x => x

end

/-! ### Texts -/

/-- The text of a literal value: its sort and its content. -/
def literalText : Literal → String
  | .bool b => "Bool(" ++ toString b ++ ")"
  | .int i => "Int(" ++ toString i ++ ")"
  | .float d => "Float(" ++ d.text .program ++ ")"
  | .decimal s => "Decimal(" ++ Text.quote s ++ ")"
  | .string s => "String(" ++ Text.quote s ++ ")"
  | .date d => "Date(" ++ d.text ++ ")"
  | .timestamp t => "Timestamp(" ++ t.text "T" ++ ")"
  | .interval i => "Interval(" ++ toString i ++ ")"
  | .geoPoint x y => "GeoPoint(" ++ x.text .program ++ ", " ++ y.text .program ++ ")"

mutual

/-- The text of a value in messages. -/
def text : Value → String
  | .null => "Null"
  | .scalar l => literalText l
  | .row vs => "Tuple([" ++ ", ".intercalate (texts vs) ++ "])"
  | .vec vs => "Vec([" ++ ", ".intercalate (texts vs) ++ "])"
termination_by structural x => x

def texts : List Value → List String
  | [] => []
  | v :: vs => v.text :: texts vs
termination_by structural x => x

end

end Value
end DeltaCircuit
