import DeltaCircuit.Proofs.Expr.FreeUses
import DeltaCircuit.Proofs.Expr.Parts

/-!
# Places in an expression

What a name means depends on where it stands: a `let`, a pattern or a parameter may have bound it on
the way down. A place is a part of a node together with the names that are bound there, and the free
names of the node are those of its places.

* `Form.places` — the parts of a node, each with the names that are bound at it.
* `Form.mem_parts_of_mem_places`, `Form.freeUses_subset_of_mem_places` — what a place has to do with
  the node.
* `Expr.StandsIn` — a node that stands somewhere in an expression, and the names bound there.
-/

namespace DeltaCircuit

/-- An expression, and the names that are bound where it stands. -/
abbrev Place := List String × Expr

/-- The names that are used at a place and not bound there. -/
def Place.freeUses (place : Place) : List String := place.2.freeUses place.1

/-! ### Places below a node -/

mutual

/-- The constants of a pattern. A name bound further left in it counts as bound. -/
def Pattern.places : Pattern → (bound : List String) → List Place
  | .identifier _ _, _ => []
  | .wildcard, _ => []
  | .tuple fields, bound => Pattern.placesAll fields bound
  | .literal value, bound => [(bound, value)]
termination_by structural x => x

def Pattern.placesAll : List Pattern → (bound : List String) → List Place
  | [], _ => []
  | pattern :: patterns, bound =>
    pattern.places bound ++ Pattern.placesAll patterns (pattern.names ++ bound)
termination_by structural x => x

end

def Statement.placesAll : List Statement → (bound : List String) → List Place
  | [], _ => []
  | .letBind name _ _ init :: statements, bound =>
    init.toList.map (bound, ·) ++ Statement.placesAll statements (name :: bound)
  | .eval e :: statements, bound => (bound, e) :: Statement.placesAll statements bound

def Arm.places (arm : Arm) (bound : List String) : List Place :=
  arm.pattern.places bound ++ [(arm.pattern.names ++ bound, arm.result)]

def Parameter.placesAll : List Parameter → (bound : List String) → List Place
  | [], _ => []
  | param :: params, bound =>
    param.pattern.places bound ++ Parameter.placesAll params (param.pattern.names ++ bound)

/-- The expressions right below a node of a form that stands where the names in `bound` are bound,
each with the names that are bound there. -/
def Form.places (bound : List String) : Form → List Place
  | .literal _ | .var _ | .path _ => []
  | .field operand _ | .unary _ operand | .cast operand | .qualify operand _ | .borrow operand _
  | .deref operand => [(bound, operand)]
  | .binary _ left right => [(bound, left), (bound, right)]
  | .apply function args => (bound, function) :: args.map (bound, ·)
  | .closure params body =>
    Parameter.placesAll params bound ++ [(Parameter.namesAll params ++ bound, body)]
  | .block statements last =>
    Statement.placesAll statements bound ++
      last.toList.map (Statement.namesAll statements ++ bound, ·)
  | .ifElse condition positive negative =>
    (bound, condition) :: (bound, positive) :: negative.toList.map (bound, ·)
  | .matchOn subject arms => (bound, subject) :: arms.flatMap (Arm.places · bound)
  | .forLoop pattern iterated body =>
    (bound, iterated) :: (pattern.places bound ++ [(pattern.names ++ bound, body)])
  | .assign target value => [(bound, target), (bound, value)]
  | .tuple fields | .rawTuple fields | .struct fields => fields.map (bound, ·)
  | .zset z => z.entries.map fun entry => (bound, entry.1)

/-! ### Places are parts -/

mutual

theorem Pattern.map_places : ∀ (pattern : Pattern) (bound : List String),
    (pattern.places bound).map Prod.snd = pattern.constants
  | .identifier _ _, _ => rfl
  | .wildcard, _ => rfl
  | .tuple fields, bound => Pattern.map_placesAll fields bound
  | .literal _, _ => rfl

theorem Pattern.map_placesAll : ∀ (patterns : List Pattern) (bound : List String),
    (Pattern.placesAll patterns bound).map Prod.snd = Pattern.constantsAll patterns
  | [], _ => rfl
  | pattern :: patterns, bound => by
    rw [Pattern.placesAll, List.map_append, Pattern.map_places pattern,
      Pattern.map_placesAll patterns, Pattern.constantsAll]

end

theorem Statement.map_placesAll (statements : List Statement) (bound : List String) :
    (placesAll statements bound).map Prod.snd = statements.flatMap Statement.parts := by
  induction statements generalizing bound with
  | nil => rfl
  | cons statement statements ih =>
    cases statement <;> simp [placesAll, parts, ih, Function.comp_def]

theorem Arm.map_places (arm : Arm) (bound : List String) :
    (arm.places bound).map Prod.snd = arm.parts := by
  rw [places, List.map_append, arm.pattern.map_places, parts, List.map_singleton]

theorem Parameter.map_placesAll (params : List Parameter) (bound : List String) :
    (placesAll params bound).map Prod.snd = params.flatMap fun param => param.pattern.constants := by
  induction params generalizing bound with
  | nil => rfl
  | cons param params ih =>
    rw [placesAll, List.map_append, param.pattern.map_places, ih, List.flatMap_cons]

/-- A place is a part. -/
theorem Form.mem_parts_of_mem_places {form : Form} {bound : List String} {place : Place}
    (h : place ∈ form.places bound) : place.2 ∈ form.parts := by
  -- without their names, the places are the parts, apart from the order in a loop
  have hmem := List.mem_map_of_mem (f := Prod.snd) h
  cases form with
  | literal _ | var _ | path _ => exact absurd h List.not_mem_nil
  | forLoop pattern iterated body =>
    simp only [places, List.map_cons, List.map_append, pattern.map_places] at hmem
    simp only [parts, List.mem_append, List.mem_cons, List.map_nil] at hmem ⊢
    tauto
  | _ =>
    simpa [places, parts, Function.comp_def, Parameter.map_placesAll, Statement.map_placesAll,
      List.map_flatMap, Arm.map_places] using hmem

/-! ### The free names of a node are those of its places -/

mutual

theorem Pattern.freeUses_eq : ∀ (pattern : Pattern) (bound : List String),
    pattern.freeUses bound = (pattern.places bound).flatMap Place.freeUses
  | .identifier _ _, _ => rfl
  | .wildcard, _ => rfl
  | .tuple fields, bound => Pattern.freeUsesAll_eq fields bound
  | .literal value, bound => by simp [Pattern.freeUses, Pattern.places, Place.freeUses]

theorem Pattern.freeUsesAll_eq : ∀ (patterns : List Pattern) (bound : List String),
    Pattern.freeUsesAll patterns bound = (Pattern.placesAll patterns bound).flatMap Place.freeUses
  | [], _ => rfl
  | pattern :: patterns, bound => by
    rw [Pattern.freeUsesAll, Pattern.placesAll, List.flatMap_append, Pattern.freeUses_eq pattern,
      Pattern.freeUsesAll_eq patterns]

end

theorem Expr.freeUsesAll_eq (es : List Expr) (bound : List String) :
    freeUsesAll es bound = (es.map (bound, ·)).flatMap Place.freeUses := by
  induction es with
  | nil => rfl
  | cons e es ih => simp [freeUsesAll, ih, Place.freeUses]

theorem Statement.freeUsesAll_eq (statements : List Statement) (bound : List String) :
    freeUsesAll statements bound = (placesAll statements bound).flatMap Place.freeUses := by
  induction statements generalizing bound with
  | nil => rfl
  | cons statement statements ih =>
    -- a declaration without a value has no place
    cases statement with
    | letBind name mutable type init =>
      cases init <;> simp [freeUsesAll, placesAll, ih, Place.freeUses]
    | eval e => simp [freeUsesAll, placesAll, ih, Place.freeUses]

theorem Arm.freeUsesAll_eq (arms : List Arm) (bound : List String) :
    freeUsesAll arms bound = (arms.flatMap (Arm.places · bound)).flatMap Place.freeUses := by
  induction arms with
  | nil => rfl
  | cons arm arms ih =>
    obtain ⟨pattern, result⟩ := arm
    simp [freeUsesAll, ih, places, Place.freeUses, Pattern.freeUses_eq pattern]

theorem Parameter.freeUsesAll_eq (params : List Parameter) (bound : List String) :
    freeUsesAll params bound = (placesAll params bound).flatMap Place.freeUses := by
  induction params generalizing bound with
  | nil => rfl
  | cons param params ih =>
    obtain ⟨pattern, type⟩ := param
    rw [freeUsesAll, placesAll, List.flatMap_append, Pattern.freeUses_eq pattern, ih]

theorem ZSetLiteral.freeUsesAll_eq (entries : List (Expr × Int)) (bound : List String) :
    freeUsesAll entries bound =
      (entries.map fun entry => (bound, entry.1)).flatMap Place.freeUses := by
  induction entries with
  | nil => rfl
  | cons entry entries ih => simp [freeUsesAll, ih, Place.freeUses]

/-- Apart from the name of a variable itself, the free names of a node are those of its places. -/
theorem Form.freeUses_eq {form : Form} (h : ∀ name, form ≠ .var name) (bound : List String) :
    form.freeUses bound = (form.places bound).flatMap Place.freeUses := by
  cases form with
  | var name => exact absurd rfl (h name)
  | literal _ | path _ => rfl
  | block statements last =>
    cases last <;> simp [freeUses, places, Statement.freeUsesAll_eq, Place.freeUses]
  | ifElse condition positive negative =>
    cases negative <;> simp [freeUses, places, Place.freeUses]
  | zset z =>
    obtain ⟨type, entries⟩ := z
    exact ZSetLiteral.freeUsesAll_eq entries bound
  | _ =>
    simp [freeUses, places, Place.freeUses, Expr.freeUsesAll_eq, Arm.freeUsesAll_eq,
      Parameter.freeUsesAll_eq, Pattern.freeUses_eq]

/-- What is used freely at a place below a node is used freely by the node. -/
theorem Form.freeUses_subset_of_mem_places {form : Form} {bound : List String} {place : Place}
    (h : place ∈ form.places bound) : place.freeUses ⊆ form.freeUses bound := by
  -- a variable has no places
  have hvar : ∀ name, form ≠ .var name := by
    rintro name rfl
    exact absurd h List.not_mem_nil
  rw [Form.freeUses_eq hvar]
  exact fun name hname => List.mem_flatMap.mpr ⟨place, h, hname⟩

/-! ### Nodes of an expression -/

/-- **Nodes.** A node stands somewhere in an expression: where the names in `bound` are bound at the
expression, those in `inner` are at the node. -/
inductive Expr.StandsIn (node : Expr) (inner : List String) : Expr → List String → Prop where
  | here : StandsIn node inner node inner
  | deeper {e : Expr} {bound : List String} {place : Place} : place ∈ e.form.places bound →
    StandsIn node inner place.2 place.1 → StandsIn node inner e bound

namespace Expr.StandsIn

variable {node e : Expr} {inner bound : List String}

/-- What is used at a node and not bound on the way to it is used freely by the expression. -/
theorem freeUses_subset (h : node.StandsIn inner e bound) :
    node.freeUses inner ⊆ e.freeUses bound := by
  -- along the way down from the expression to the node
  induction h with
  | here => exact List.Subset.refl _
  | @deeper e bound place hplace _ ih =>
    rw [e.freeUses_eq]
    exact List.Subset.trans ih (Form.freeUses_subset_of_mem_places hplace)

theorem of_everywhere {P : Expr → Prop} (h : node.StandsIn inner e bound)
    (he : e.Everywhere P) : P node := by
  induction h with
  | here => exact he.here
  | deeper hplace _ ih => exact ih (he.part _ (Form.mem_parts_of_mem_places hplace))

end Expr.StandsIn

end DeltaCircuit
