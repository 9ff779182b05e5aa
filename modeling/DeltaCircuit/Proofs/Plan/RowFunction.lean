import DeltaCircuit.Plan.RowFunction
import DeltaCircuit.Proofs.Plan.Denotation

/-!
# What row functions give

A row function is a closure over a row, and a call of it is an evaluation with the row in scope. On
rows of the schema, the functions around a join do what their names say, and they do not fail unless
a conversion does.

* `Schema.convert`, `Value.key`, `Value.hasColumns` — what is computed of a row.
* `rowFunction_eq_ok` — a call of a row function.
* `conformFunction_applyTo`, `presenceFunction_applyTo`, `keyFunction_applyTo`,
  `joinFunction_applyTo` — the functions around a join.
* `wholeRowFunction_applyTo`, `keyOnlyFunction_applyTo` — the functions around an intersection.
* `groupFunction_applyTo`, `flattenFunction_applyTo`, `constantFunction_applyTo` — the functions
  around an aggregate, which take any rows that have the columns.
-/

namespace DeltaCircuit

open ExceptT (gives_bind gives_pure)

/-! ### Computations on rows -/

/-- Converts the columns of a row to the types of a schema. -/
def Schema.convert (s : Schema) (row : Value) : Except EvalError Value :=
  match row with
  | .row fields =>
    .row <$> (fields.zip s.types).mapM fun (field, type) => field.convert type
  | row => .ok row

/-- The given columns of a row, converted to the types of a key. -/
def Value.key (row : Value) (columns : List Nat) (types : List Ty) :
    Except EvalError (List Value) :=
  (columns.zip types).mapM fun (column, type) => do (← row.field column).convert type

/-- Whether none of the given columns is NULL. -/
def Value.hasColumns (row : Value) (columns : List Nat) : Bool :=
  columns.all fun column =>
    match row.field column with
    | .ok v => !v.isNull
    | .error _ => false

/-- A row followed by another one. -/
def Value.append (left right : Value) : Value :=
  match left, right with
  | .row ls, .row rs => .row (ls ++ rs)
  | left, _ => left

variable {s source target left right : Schema} {row l r v : Value}

theorem Schema.Conforms.append (hl : left.Conforms l) (hr : right.Conforms r) :
    (left.append right).Conforms (l.append r) := by
  obtain ⟨ls, rfl, hls⟩ := hl
  obtain ⟨rs, rfl, hrs⟩ := hr
  refine ⟨ls ++ rs, rfl, ?_⟩
  have htypes : (left.append right).types = left.types ++ right.types := by
    simp [Schema.types, Schema.append]
  rw [htypes]
  exact List.rel_append hls hrs

/-- A row is not changed by a conversion to a schema of which it is one. -/
theorem Schema.Conforms.convert (h : s.Conforms row) : s.convert row = .ok row := by
  obtain ⟨fields, rfl, hfields⟩ := h
  have hkeep : (fields.zip s.types).mapM (fun (field, type) => field.convert type) =
      .ok (ε := EvalError) fields := by
    rw [List.mapM_eq_ok]
    -- value by value, the conversion is to a type of which the value is one already
    generalize s.types = types at hfields
    induction hfields with
    | nil => exact .nil
    | cons hfield _ ih => exact .cons (Value.convert_of_conforms hfield rfl) ih
  unfold Schema.convert
  dsimp only
  rw [hkeep]
  rfl

/-- Schemas of one row type convert rows alike. -/
theorem Schema.types_of_rowType (h : source.rowType = target.rowType) :
    source.types = target.types := by
  exact Kind.tuple.inj (congrArg Ty.kind h)

/-! ### Calls -/

/-- A call of a closure whose parameters take the arguments is an evaluation of its body in the
scope of the parameters. -/
theorem applyTo_closure_iff {type : Option Ty} {params : List Parameter} {body : Expr}
    {args : List Value} {scope : List (String × Value)} (hlength : params.length = args.length)
    (hbind : (Parameter.bindAll params args).Gives [[]] () [scope]) :
    (Expr.ofForm type (.closure params body)).applyTo args = .ok v ↔
      ∃ s, body.eval.Gives [scope] v s := by
  have hcall : (Expr.ofForm type (.closure params body)).call args = Eval.inScope (do
      Parameter.bindAll params args
      body.eval) := if_pos hlength
  have hresult : (Expr.ofForm type (.closure params body)).applyTo args = .ok v ↔
      ∃ t, ((Expr.ofForm type (.closure params body)).call args).Gives [] v t := by
    constructor
    · intro h
      exact ⟨_, Prod.ext h rfl⟩
    · rintro ⟨t, h⟩
      exact congrArg Prod.fst h
  rw [hresult, hcall]
  constructor
  · rintro ⟨t, h⟩
    obtain ⟨t', h, -⟩ := Eval.gives_inScope.mp h
    obtain ⟨⟨⟩, s, hparams, hbody⟩ := gives_bind.mp h
    obtain ⟨-, rfl⟩ := hbind.unique hparams
    exact ⟨t', hbody⟩
  · rintro ⟨s, h⟩
    exact ⟨_, Eval.gives_inScope.mpr ⟨s, gives_bind.mpr ⟨(), _, hbind, h⟩, rfl⟩⟩

/-- A call of a closure whose body changes no variable. -/
theorem applyTo_closure {type : Option Ty} {params : List Parameter} {body : Expr}
    {args : List Value} {scope : List (String × Value)} (hlength : params.length = args.length)
    (hbind : (Parameter.bindAll params args).Gives [[]] () [scope]) (hkeeps : body.eval.Keeps) :
    (Expr.ofForm type (.closure params body)).applyTo args = .ok v ↔
      body.eval.Gives [scope] v [scope] := by
  rw [applyTo_closure_iff hlength hbind]
  constructor
  · rintro ⟨s, h⟩
    obtain rfl := hkeeps.eq_of_gives h
    exact h
  · exact fun h => ⟨_, h⟩

/-- The variables of a row function. -/
def rowScopes (row : Value) : Scopes := [[("t", row)]]

/-- The row that a row function of a schema works on. -/
def Schema.rowVar (s : Schema) : Expr := Expr.var "t" (.byRef s.rowType)

/-- **Row functions.** A row function gives what its body computes with the row in scope. -/
theorem rowFunction_eq_ok {rowType : Ty} {build : Expr → Except CompileError Expr} {f : Expr}
    (h : rowFunction rowType build = .ok f) :
    ∃ body, build (Expr.var "t" (.byRef rowType)) = .ok body ∧
      ∀ row result, body.Computes (rowScopes row) result →
        ∀ v, f.applyTo [row] = .ok v ↔ result = .ok v := by
  unfold rowFunction at h
  dsimp only at h
  obtain ⟨body, hbody, hf⟩ := Except.bind_eq_ok.mp h
  rw [ofTerm_eq_ok] at hf
  obtain rfl := Expr.closure_eq_ok hf
  refine ⟨body, hbody, fun row result hcomputes v => ?_⟩
  rw [← hcomputes.gives_iff]
  exact applyTo_closure rfl rfl hcomputes.keeps

/-! ### Columns of a schema -/

section

variable {scopes : Scopes} {fields : List Value} {name : String} {es : List Expr} {e f : Expr}

/-- The first columns of a row are its fields, one after another. -/
theorem field_of_rowColumns {base : Expr} {count : Nat} (h : rowColumns base count = .ok es) :
    es.length = count ∧
      ∀ (i : Nat) (hi : i < es.length), Expr.field base i = .ok (es.get ⟨i, hi⟩) := by
  unfold rowColumns at h
  rw [ofTerm_eq_ok, List.mapM_eq_ok, List.forall₂_iff_get] at h
  obtain ⟨hlength, hget⟩ := h
  rw [List.length_range] at hlength
  refine ⟨hlength.symm, fun i hi => ?_⟩
  have hfield := hget i (by rw [List.length_range]; omega) hi
  rwa [List.get_eq_getElem, List.getElem_range] at hfield

theorem denotes_rowColumns (hfind : scopes.find? name = some (.row fields))
    (hrow : List.Forall₂ (fun v type => v.conforms type = true) fields s.types)
    (h : rowColumns (Expr.var name (.byRef s.rowType)) s.width = .ok es) :
    List.Forall₂ (fun u e => e.Denotes scopes u) fields es := by
  obtain ⟨hlength, hfield⟩ := field_of_rowColumns h
  have hwidth : fields.length = s.width := by
    rw [hrow.length_eq, Schema.types, List.length_map, Schema.width]
  refine List.forall₂_iff_get.mpr ⟨hwidth.trans hlength.symm, fun i hi hi' => ?_⟩
  obtain ⟨u, hu, hdenotes⟩ := Expr.denotes_column hfind hrow (hfield i hi')
  rw [Value.field_row, List.getElem?_eq_getElem hi] at hu
  obtain rfl := Option.some.inj hu
  exact hdenotes

theorem computes_castAll {types : List Ty} {converted : List Expr}
    (hes : List.Forall₂ (fun u e => e.Denotes scopes u) fields es)
    (h : (es.zip types).mapM (fun (e, type) => Expr.castIfNeeded e type) = .ok converted) :
    List.Forall₂ (fun (pair : Value × Ty) e => e.Computes scopes (pair.1.convert pair.2))
      (fields.zip types) converted := by
  rw [List.mapM_eq_ok] at h
  induction hes generalizing types converted with
  | nil =>
    cases h
    exact .nil
  | cons hu _ ih =>
    cases types with
    | nil =>
      cases h
      exact .nil
    | cons type types =>
      cases h with
      | cons hcast hrest => exact .cons (hu.castIfNeeded hcast) (ih hrest)

/-- A row of a schema holds the converted values. -/
theorem computes_schemaTuple (hes : List.Forall₂ (fun u e => e.Denotes scopes u) fields es)
    (h : schemaTuple es s = .ok e) : e.Computes scopes (s.convert (.row fields)) := by
  unfold schemaTuple at h
  split at h
  · cases h
  · dsimp only at h
    rw [ofTerm_eq_ok, Except.bind_eq_ok] at h
    obtain ⟨converted, hconverted, h⟩ := h
    obtain ⟨types, -, rfl⟩ := Expr.tuple_eq_ok h
    exact Expr.computes_row (.inl rfl) (computes_castAll hes hconverted)

/-- The expressions of a key compute the converted columns. -/
theorem computes_keyColumns {columns : List Nat} {types : List Ty}
    (hfind : scopes.find? name = some (.row fields))
    (hrow : List.Forall₂ (fun v type => v.conforms type = true) fields s.types)
    (h : (columns.zip types).mapM (fun (column, type) => do
      Expr.castIfNeeded (← Expr.field (Expr.var name (.byRef s.rowType)) column) type) = .ok es) :
    List.Forall₂ (fun (pair : Nat × Ty) e => e.Computes scopes do
      (← (Value.row fields).field pair.1).convert pair.2) (columns.zip types) es := by
  refine (List.mapM_eq_ok.mp h).imp fun pair e he => ?_
  obtain ⟨column, hcolumn, hcast⟩ := Except.bind_eq_ok.mp he
  obtain ⟨u, hu, hdenotes⟩ := Expr.denotes_column hfind hrow hcolumn
  rw [hu, Except.ok_bind]
  exact hdenotes.castIfNeeded hcast

/-! ### The functions around a join -/

/-- The function that converts rows to another schema does so. -/
theorem conformFunction_applyTo (h : conformFunction source target = .ok f)
    (hrow : source.Conforms row) : f.applyTo [row] = .ok v ↔ target.convert row = .ok v := by
  obtain ⟨body, hbody, hcall⟩ := rowFunction_eq_ok h
  obtain ⟨columns, hcolumns, hbody⟩ := Except.bind_eq_ok.mp hbody
  obtain ⟨fields, rfl, hfields⟩ := hrow
  exact hcall _ _ (computes_schemaTuple (denotes_rowColumns rfl hfields hcolumns) hbody) v

/-- The function of a join puts the right row behind the left one. -/
theorem joinFunction_applyTo {keyType : Ty} {k : Value}
    (h : joinFunction keyType left right (left.append right) = .ok f) (hl : left.Conforms l)
    (hr : right.Conforms r) : f.applyTo [k, l, r] = .ok (l.append r) := by
  unfold joinFunction at h
  dsimp only at h
  obtain ⟨lefts, hlefts, h⟩ := Except.bind_eq_ok.mp h
  obtain ⟨rights, hrights, h⟩ := Except.bind_eq_ok.mp h
  obtain ⟨body, hbody, hf⟩ := Except.bind_eq_ok.mp h
  rw [ofTerm_eq_ok] at hf
  obtain rfl := Expr.closure_eq_ok hf
  have hjoined := (hl.append hr).convert
  obtain ⟨ls, rfl, hls⟩ := hl
  obtain ⟨rs, rfl, hrs⟩ := hr
  -- the parameters are bound to the key and to the two rows
  let scope := [("k", k), ("l", .row ls), ("r", .row rs)]
  have hfindl : Scopes.find? [scope] "l" = some (.row ls) := rfl
  have hfindr : Scopes.find? [scope] "r" = some (.row rs) := rfl
  have hdenotes := List.rel_append (denotes_rowColumns hfindl hls hlefts)
    (denotes_rowColumns hfindr hrs hrights)
  have hcomputes := computes_schemaTuple hdenotes hbody
  have hbind : (Parameter.bindAll [.named "k" (.byRef keyType), .named "l" (.byRef left.rowType),
      .named "r" (.byRef right.rowType)] [k, .row ls, .row rs]).Gives [[]] () [scope] := rfl
  exact (applyTo_closure rfl hbind hcomputes.keeps).mpr ((hcomputes.gives_iff _).mpr hjoined)

/-- A pair of a tuple and the whole row computes the tuple next to the row. -/
theorem computes_keyAndRow {α : Type} {g : α → Except EvalError Value} {as : List α}
    {body : Expr} (hes : List.Forall₂ (fun a e => e.Computes (rowScopes row) (g a)) as es)
    (h : (do Expr.rawTuple [← Expr.tuple es, ← Expr.deref s.rowVar]) = .ok body) :
    ∃ result, body.Computes (rowScopes row) result ∧
      ∀ v, result = .ok v ↔ ∃ key, as.mapM g = .ok key ∧ v = .row [.row key, row] := by
  obtain ⟨tuple, htuple, h⟩ := Except.bind_eq_ok.mp h
  obtain ⟨whole, hwhole, hpair⟩ := Except.bind_eq_ok.mp h
  obtain ⟨_, -, rfl⟩ := Expr.tuple_eq_ok htuple
  obtain ⟨_, _, _, -, -, rfl⟩ := Expr.deref_eq_ok hwhole
  obtain ⟨_, -, rfl⟩ := Expr.rawTuple_eq_ok hpair
  have hrow : s.rowVar.Computes (rowScopes row) (.ok row) := Expr.computes_var rfl
  refine ⟨_, Expr.Computes.pair (Expr.computes_row (.inl rfl) hes) hrow.deref, fun v => ?_⟩
  rw [Except.bind_eq_ok]
  constructor
  · rintro ⟨_, hmap, hv⟩
    obtain ⟨key, hvalues, rfl⟩ := Except.functor_map_eq_ok.mp hmap
    exact ⟨key, hvalues, (Except.ok.inj hv).symm⟩
  · rintro ⟨key, hkey, rfl⟩
    exact ⟨.row key, Except.functor_map_eq_ok.mpr ⟨key, hkey, rfl⟩, rfl⟩

/-- The function that makes a key of a row gives the key next to the row. -/
theorem keyFunction_applyTo {columns : List Nat} {types : List Ty}
    (h : keyFunction s columns types = .ok f) (hrow : s.Conforms row) :
    f.applyTo [row] = .ok v ↔
      ∃ key, row.key columns types = .ok key ∧ v = .row [.row key, row] := by
  -- the body is a pair of the tuple of converted columns and the row itself
  obtain ⟨body, hbody, hcall⟩ := rowFunction_eq_ok h
  rw [ofTerm_eq_ok, Except.bind_eq_ok] at hbody
  obtain ⟨converted, hconverted, hpair⟩ := hbody
  obtain ⟨fields, rfl, hfields⟩ := hrow
  obtain ⟨result, hcomputes, hresult⟩ :=
    computes_keyAndRow (computes_keyColumns rfl hfields hconverted) hpair
  rw [hcall _ _ hcomputes v, hresult v]
  rfl

/-- A test of a column for NULL. -/
theorem computes_check {column : Nat} (hfind : scopes.find? name = some (.row fields))
    (hrow : List.Forall₂ (fun v type => v.conforms type = true) fields s.types)
    (h : (do Expr.unary .isNotNull (← Expr.field (Expr.var name (.byRef s.rowType)) column) .bool)
      = .ok e) : e.Computes scopes (.ok (.bool ((Value.row fields).hasColumns [column]))) := by
  obtain ⟨operand, hoperand, he⟩ := Except.bind_eq_ok.mp h
  obtain ⟨u, hu, hdenotes⟩ := Expr.denotes_column hfind hrow hoperand
  obtain rfl := Expr.unary_eq_ok he
  have htest : (Value.row fields).hasColumns [column] = !u.isNull := by
    unfold Value.hasColumns
    rw [List.all_cons, List.all_nil, Bool.and_true, hu]
  rw [htest]
  exact hdenotes.computes.unary

/-- A conjunction of tests of columns. -/
theorem computes_checks {check : Nat → Except TermError Expr}
    (hcheck : ∀ column c, check column = .ok c →
      c.Computes scopes (.ok (.bool (row.hasColumns [column]))))
    {columns : List Nat} {all : Expr} {present : Bool}
    (hall : all.Computes scopes (.ok (.bool present)))
    (h : columns.foldlM (fun all column => do Expr.and all (← check column)) all = .ok e) :
    e.Computes scopes (.ok (.bool (present && row.hasColumns columns))) := by
  induction columns generalizing all present with
  | nil =>
    obtain rfl := Except.ok.inj h
    rw [Value.hasColumns, List.all_nil, Bool.and_true]
    exact hall
  | cons column columns ih =>
    rw [List.foldlM_cons, Except.bind_eq_ok] at h
    obtain ⟨both, hboth, h⟩ := h
    obtain ⟨c, hc, hand⟩ := Except.bind_eq_ok.mp hboth
    have hpresent : row.hasColumns (column :: columns) =
        (row.hasColumns [column] && row.hasColumns columns) := by
      simp [Value.hasColumns]
    rw [hpresent, ← Bool.and_assoc]
    -- the first check joins the conjunction so far
    refine ih ?_ h
    obtain ⟨type, rfl⟩ := Expr.and_eq_ok hand
    rw [← Value.and_bool]
    exact hall.binary (hcheck column c hc)

/-- The function that looks for NULL in columns always answers. -/
theorem presenceFunction_applyTo {columns : List Nat} (h : presenceFunction s columns = .ok f)
    (hrow : s.Conforms row) : f.applyTo [row] = .ok (.bool (row.hasColumns columns)) := by
  unfold presenceFunction at h
  dsimp only at h
  obtain ⟨body, hbody, hcall⟩ := rowFunction_eq_ok h
  rw [ofTerm_eq_ok] at hbody
  obtain ⟨fields, rfl, hfields⟩ := hrow
  have hfind : (rowScopes (.row fields)).find? "t" = some (.row fields) := rfl
  refine (hcall _ _ ?_ _).mpr rfl
  cases columns with
  | nil =>
    obtain rfl := Except.ok.inj hbody
    exact Expr.computes_boolLiteral
  | cons first rest =>
    obtain ⟨check, hcheck, hrest⟩ := Except.bind_eq_ok.mp hbody
    have hall := computes_checks (fun column c hc => computes_check hfind hfields hc)
      (computes_check hfind hfields hcheck) hrest
    simpa [Value.hasColumns] using hall

/-! ### The functions around an intersection -/

theorem Expr.computes_unit : Expr.unit.Computes scopes (.ok .unit) :=
  Expr.computes_rowOf (.inr rfl) .nil

/-- The function that makes a key of a whole row gives the row next to nothing. -/
theorem wholeRowFunction_applyTo (h : wholeRowFunction s = .ok f) :
    f.applyTo [row] = .ok (.row [row, .unit]) := by
  obtain ⟨body, hbody, hcall⟩ := rowFunction_eq_ok h
  rw [ofTerm_eq_ok, Except.bind_eq_ok] at hbody
  obtain ⟨whole, hwhole, hpair⟩ := hbody
  obtain ⟨_, _, _, -, -, rfl⟩ := Expr.deref_eq_ok hwhole
  obtain ⟨_, -, rfl⟩ := Expr.rawTuple_eq_ok hpair
  have hrow : s.rowVar.Computes (rowScopes row) (.ok row) := Expr.computes_var rfl
  exact (hcall row _ (hrow.deref.pair Expr.computes_unit) _).mpr rfl

/-- The function of an intersection gives the key of a pair, whatever the values are. -/
theorem keyOnlyFunction_applyTo {k : Value} (h : keyOnlyFunction s = .ok f) :
    f.applyTo [k, l, r] = .ok k := by
  unfold keyOnlyFunction at h
  dsimp only at h
  rw [ofTerm_eq_ok, Except.bind_eq_ok] at h
  obtain ⟨body, hbody, hf⟩ := h
  obtain ⟨_, _, _, -, -, rfl⟩ := Expr.deref_eq_ok hbody
  obtain rfl := Expr.closure_eq_ok hf
  let scope := [("k", k), ("l", l), ("r", r)]
  have hkey : (Expr.var "k" (.byRef s.rowType)).Computes [scope] (.ok k) := Expr.computes_var rfl
  have hbind : (Parameter.bindAll [.named "k" (.byRef s.rowType), .named "l" (.byRef .unit),
      .named "r" (.byRef .unit)] [k, l, r]).Gives [[]] () [scope] := rfl
  exact (applyTo_closure rfl hbind hkey.deref.keeps).mpr ((hkey.deref.gives_iff k).mpr rfl)

/-! ### The functions around an aggregate -/

/-- The function that makes a group key of a row gives the values of the columns next to the
row. -/
theorem groupFunction_applyTo {columns : List Nat} (h : groupFunction s columns = .ok f) :
    f.applyTo [row] = .ok v ↔
      ∃ key, columns.mapM (fun column => row.field column) = .ok key ∧
        v = .row [.row key, row] := by
  obtain ⟨body, hbody, hcall⟩ := rowFunction_eq_ok h
  rw [ofTerm_eq_ok, Except.bind_eq_ok] at hbody
  obtain ⟨parts, hparts, hpair⟩ := hbody
  -- the columns are taken as they are, so any row that has them will do
  have hrow : s.rowVar.Computes (rowScopes row) (.ok row) := Expr.computes_var rfl
  have hfields : List.Forall₂ (fun column e => e.Computes (rowScopes row) (row.field column))
      columns parts := (List.mapM_eq_ok.mp hparts).imp fun column e he => hrow.field he
  obtain ⟨result, hcomputes, hresult⟩ := computes_keyAndRow hfields hpair
  rw [hcall _ _ hcomputes v, hresult v]

/-- The first columns of a tuple have its types and compute its components. -/
theorem rowColumns_eq_ok {base : Expr} {type : Ty} {types : List Ty}
    (hbase : base.Computes scopes (.ok (.row fields))) (htype : base.type = some type)
    (htypes : type.deref.tupleFields? = some types) (hnullable : type.deref.nullable = false)
    (hlength : fields.length = types.length) (h : rowColumns base types.length = .ok es) :
    List.Forall₂ (fun u e => e.Computes scopes (.ok u)) fields es ∧
      List.Forall₂ (fun e own => e.type = some own) es types := by
  obtain ⟨hcount, hfield⟩ := field_of_rowColumns h
  constructor
  · refine List.forall₂_iff_get.mpr ⟨hlength.trans hcount.symm, fun i hi hi' => ?_⟩
    have hcomputes := hbase.field (hfield i hi')
    have hvalue : (Value.row fields).field i = .ok (fields.get ⟨i, hi⟩) :=
      Value.field_row.mpr (List.getElem?_eq_getElem hi)
    rwa [Except.ok_bind, hvalue] at hcomputes
  · refine List.forall₂_iff_get.mpr ⟨hcount, fun i hi hi' => ?_⟩
    obtain ⟨own, hown, he⟩ := Expr.field_tuple_eq_ok htype htypes hnullable (hfield i hi)
    rw [he, ← hown]
    exact List.getElem?_eq_getElem hi'

/-- Fields that have the types of the columns already are put into a row as they are. -/
theorem schemaTuple_of_types (h : schemaTuple es s = .ok e)
    (htypes : List.Forall₂ (fun e own => e.type = some own) es s.types) :
    ∃ type, e = Expr.ofForm (some type) (.tuple es) := by
  have hcast {e : Expr} {own : Ty} (htype : e.type = some own) :
      Expr.castIfNeeded e own = .ok e := by
    unfold Expr.castIfNeeded
    rw [Expr.requireType_eq_ok.mpr htype, Except.ok_bind, if_pos rfl]
    rfl
  have hkeep : (es.zip s.types).mapM (fun (e, type) => Expr.castIfNeeded e type) = .ok es := by
    rw [List.mapM_eq_ok]
    generalize s.types = types at htypes
    clear h
    induction htypes with
    | nil => exact .nil
    | cons htype _ ih => exact .cons (hcast htype) ih
  unfold schemaTuple at h
  split at h
  · cases h
  · dsimp only at h
    rw [ofTerm_eq_ok, Except.bind_eq_ok] at h
    obtain ⟨converted, hconverted, htuple⟩ := h
    obtain rfl := Except.ok.inj (hkeep.symm.trans hconverted)
    obtain ⟨types, -, rfl⟩ := Expr.tuple_eq_ok htuple
    exact ⟨_, rfl⟩

/-- The function that flattens a pair of a group key and aggregates puts the aggregates behind the
key, if the schema repeats the types of both. -/
theorem flattenFunction_applyTo {keyTypes valueTypes : List Ty} {key values : List Value}
    (h : flattenFunction (.tuple keyTypes) (.tuple valueTypes) keyTypes.length valueTypes.length s =
      .ok f) (htypes : s.types = keyTypes ++ valueTypes) (hkey : key.length = keyTypes.length)
    (hvalues : values.length = valueTypes.length) :
    f.applyTo [.row [.row key, .row values]] = .ok (.row (key ++ values)) := by
  obtain ⟨body, hbody, hcall⟩ := rowFunction_eq_ok h
  obtain ⟨keyField, hkeyField, hbody⟩ := Except.bind_eq_ok.mp hbody
  obtain ⟨valueField, hvalueField, hbody⟩ := Except.bind_eq_ok.mp hbody
  obtain ⟨keyColumns, hkeyColumns, hbody⟩ := Except.bind_eq_ok.mp hbody
  obtain ⟨valueColumns, hvalueColumns, htuple⟩ := Except.bind_eq_ok.mp hbody
  rw [ofTerm_eq_ok] at hkeyField hvalueField
  -- both components of the pair are tuples, of the types of the key and of the aggregates
  let pair := Expr.var "t" (.byRef (.rawTuple [.tuple keyTypes, .tuple valueTypes]))
  let pairValue := Value.row [.row key, .row values]
  have hpair : pair.Computes (rowScopes pairValue) (.ok pairValue) := Expr.computes_var rfl
  have hkeyRow : keyField.Computes (rowScopes pairValue) (.ok (.row key)) := hpair.field hkeyField
  have hvalueRow : valueField.Computes (rowScopes pairValue) (.ok (.row values)) :=
    hpair.field hvalueField
  have hkeyType : keyField.type = some (.tuple keyTypes) := by
    obtain ⟨own, hown, rfl⟩ := Expr.field_tuple_eq_ok rfl rfl rfl hkeyField
    exact hown.symm
  have hvalueType : valueField.type = some (.tuple valueTypes) := by
    obtain ⟨own, hown, rfl⟩ := Expr.field_tuple_eq_ok rfl rfl rfl hvalueField
    exact hown.symm
  obtain ⟨hkeys, hkeyTypes⟩ := rowColumns_eq_ok hkeyRow hkeyType rfl rfl hkey hkeyColumns
  obtain ⟨hvals, hvalueTypes⟩ :=
    rowColumns_eq_ok hvalueRow hvalueType rfl rfl hvalues hvalueColumns
  have hcolumns : List.Forall₂ (fun e own => e.type = some own) (keyColumns ++ valueColumns)
      s.types := htypes ▸ List.rel_append hkeyTypes hvalueTypes
  obtain ⟨type, rfl⟩ := schemaTuple_of_types htuple hcolumns
  exact (hcall _ _ (Expr.computes_rowOf (.inl rfl) (List.rel_append hkeys hvals)) _).mpr rfl

/-- A function that ignores its row gives what its body computes. -/
theorem constantFunction_applyTo {body : Expr} {d : Value} (h : constantFunction s body = .ok f)
    (hbody : body.Computes (rowScopes row) (.ok d)) : f.applyTo [row] = .ok d := by
  obtain ⟨_, hsame, hcall⟩ := rowFunction_eq_ok h
  obtain rfl := Except.ok.inj hsame
  exact (hcall row _ hbody d).mpr rfl

end

end DeltaCircuit
