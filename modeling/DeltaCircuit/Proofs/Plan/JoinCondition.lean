import DeltaCircuit.Plan.JoinKeys
import DeltaCircuit.Proofs.Plan.Predicate

/-!
# Join conditions as keys and a rest

A join condition is a three-valued expression over the columns of both inputs. It is split into
equalities of columns and a rest, and a pair of rows satisfies the condition iff the columns of
every key are there and the same, in the common type, and the rest is true.

* `ScalarExpr.givesOn_and` — a conjunction is true iff both operands are.
* `ScalarExpr.givesOn_equals` — an equality of columns is true iff both are there and the same.
* `JoinKey.Holds`, `JoinCondition.Holds` — what a split condition asks of a pair of rows.
* `ScalarExpr.decompose_holds` — the splitting neither loses nor adds a pair.
-/

namespace DeltaCircuit

open ExceptT (gives_bind gives_pure)

variable {s left right : Schema} {row l r u v : Value}

/-! ### Rows side by side -/

theorem Schema.Conforms.length_eq {fields : List Value} (h : s.Conforms (.row fields)) :
    fields.length = s.width := by
  obtain ⟨_, hrow, hfields⟩ := h
  obtain rfl := Value.row.inj hrow
  rw [hfields.length_eq, Schema.types, List.length_map, Schema.width]

theorem Value.field_append_left {index : Nat} (hl : left.Conforms l) (hr : right.Conforms r)
    (hindex : index < left.width) :
    (l.append r).field index = .ok u ↔ l.field index = .ok u := by
  obtain ⟨ls, rfl, -⟩ := id hl
  obtain ⟨rs, rfl, -⟩ := hr
  unfold Value.append
  rw [Value.field_row, Value.field_row,
    List.getElem?_append_left (by rw [hl.length_eq]; exact hindex)]

theorem Value.field_append_right {index : Nat} (hl : left.Conforms l) (hr : right.Conforms r) :
    (l.append r).field (left.width + index) = .ok u ↔ r.field index = .ok u := by
  obtain ⟨ls, rfl, -⟩ := id hl
  obtain ⟨rs, rfl, -⟩ := hr
  unfold Value.append
  rw [Value.field_row, Value.field_row, ← hl.length_eq,
    List.getElem?_append_right (Nat.le_add_right _ _), Nat.add_sub_cancel_left]

/-- Rows side by side are the same only if the rows of each side are. -/
theorem Value.same_append {l' r' : Value} (hl : left.Conforms l) (hl' : left.Conforms l')
    (hr : right.Conforms r) (hr' : right.Conforms r')
    (h : (l.append r).same (l'.append r') = true) : l.same l' = true ∧ r.same r' = true := by
  obtain ⟨ls, rfl, -⟩ := id hl
  obtain ⟨ls', rfl, -⟩ := id hl'
  obtain ⟨rs, rfl, -⟩ := hr
  obtain ⟨rs', rfl, -⟩ := hr'
  exact Value.row_same_of_append (hl.length_eq.trans hl'.length_eq.symm) h

namespace ScalarExpr

variable {e x y : ScalarExpr} {w : JoinWidths}

/-! ### Conjunctions -/

/-- **Conjunctions.** A conjunction that is compiled has two operands, and it is true iff both
are. -/
theorem givesOn_and {operands : List ScalarExpr} {type : Ty}
    (h : (ScalarExpr.call .and operands type).GivesOn s row v) :
    ∃ x y a b, operands = [x, y] ∧ x.GivesOn s row a ∧ y.GivesOn s row b ∧
      (v.isBool true = true ↔ a.isBool true = true ∧ b.isBool true = true) := by
  obtain ⟨compiled, hcompiled, hv⟩ := h
  -- a conjunction is compiled as a binary operator, so it has two operands
  cases compile_eq_ok.mp hcompiled with
  | @binary _ _ x y _ x' y' _ hbinary hx hy hand =>
    obtain rfl := Option.some.inj hbinary
    obtain rfl := Expr.binary_eq_ok hand
    obtain ⟨a, t, b, ha, hb, hv⟩ := Expr.gives_binary.mp hv
    obtain rfl := (hx.keeps Expr.keeps_var).eq_of_gives ha
    exact ⟨x, y, a, b, rfl, ⟨x', hx.compile_eq, ha⟩, ⟨y', hy.compile_eq, hb⟩,
      Value.logical_and_isBool hv⟩
  | unary hunary => cases hunary

/-! ### Equalities of columns -/

/-- What is no NULL does not stand in a column of references. -/
theorem deref_of_hasKind {type : Ty} (h : u.hasKind type.kind = true) : type.deref = type := by
  unfold Ty.deref
  split
  · rename_i inner mutable hkind
    rw [hkind] at h
    unfold Value.hasKind at h
    cases u with
    | scalar literal => cases literal <;> cases h
    | _ => cases h
  · rfl

/-- A comparison takes both operands to their common type. -/
theorem compare_eq_ok {op : ComparisonOp} {x' y' compiled : Expr} {tx ty type : Ty}
    {scopes : Scopes} {a b : Value} (hx : x'.type = some tx) (hy : y'.type = some ty)
    (ha : x'.Denotes scopes a) (hb : y'.Denotes scopes b)
    (h : Expr.compileBinary (.comparison op) x' y' type = .ok compiled)
    (hv : compiled.eval.Gives scopes v scopes) :
    ∃ common a' b', tx.deref.unify ty.deref = .ok common ∧ a.convert common = .ok a' ∧
      b.convert common = .ok b' ∧ Value.binary (.comparison op) a' b' = .ok v := by
  obtain ⟨_, _, common, x'', y'', hleft, hright, hcommon, hx'', hy'', hform⟩ :=
    (Expr.compileBinary_eq_ok h).resolve_left fun ⟨_, hop, _⟩ => nomatch hop
  obtain ⟨_, -, hbinary⟩ := hform.resolve_right fun ⟨_, hop, _⟩ => hop op rfl
  obtain rfl := Option.some.inj (hx.symm.trans hleft)
  obtain rfl := Option.some.inj (hy.symm.trans hright)
  obtain rfl := Expr.binary_eq_ok hbinary
  -- the operands are promoted to the common type and compared
  rw [((ha.promote hx'').binary (hb.promote hy'')).gives_iff, Except.bind_eq_ok] at hv
  obtain ⟨a', ha', hright⟩ := hv
  obtain ⟨b', hb', hcompared⟩ := Except.bind_eq_ok.mp hright
  exact ⟨common, a', b', hcommon, ha', hb', hcompared⟩

/-- **Equalities of columns.** An equality of columns is true iff both are there and they are the
same after a conversion to a type of the common kind. -/
theorem givesOn_equals {i j : Nat} {ti tj type target : Ty}
    (h : (ScalarExpr.call .equals [.column i ti, .column j tj] type).GivesOn s row v)
    (hrow : s.Conforms row) (hkind : ti.kind.unify? tj.kind = some target.kind) :
    v.isBool true = true ↔ ∃ a b a' b', row.field i = .ok a ∧ row.field j = .ok b ∧ a ≠ .null ∧
      b ≠ .null ∧ a.convert target = .ok a' ∧ b.convert target = .ok b' ∧ a'.same b' = true := by
  obtain ⟨compiled, hcompiled, hv⟩ := h
  cases compile_eq_ok.mp hcompiled with
  | binary hbinary hx hy hcompare =>
    obtain rfl := Option.some.inj hbinary
    obtain ⟨hvar, hx, hxtype⟩ := hx
    obtain ⟨hvar', hy, hytype⟩ := hy
    obtain rfl := Option.some.inj hvar
    obtain rfl := Option.some.inj hvar'
    obtain ⟨fields, rfl, hfields⟩ := hrow
    have hfind : (rowScopes (.row fields)).find? "t" = some (.row fields) := rfl
    -- both operands are columns of the row, of their declared types
    obtain ⟨a, ha, hadenotes⟩ := Expr.denotes_column hfind hfields hx
    obtain ⟨b, hb, hbdenotes⟩ := Expr.denotes_column hfind hfields hy
    obtain ⟨_, hatype, haconforms⟩ := hadenotes.conforms
    obtain ⟨_, hbtype, hbconforms⟩ := hbdenotes.conforms
    obtain rfl := Option.some.inj (hxtype.symm.trans hatype)
    obtain rfl := Option.some.inj (hytype.symm.trans hbtype)
    obtain ⟨common, a', b', hcommon, ha', hb', hcompared⟩ :=
      compare_eq_ok hxtype hytype hadenotes hbdenotes hcompare hv
    have hcommonKind (hna : a ≠ .null) (hnb : b ≠ .null) :
        ti.kind.unify? tj.kind = some common.kind := by
      have hunify := Ty.unify_eq_ok hcommon
      rwa [deref_of_hasKind (Value.hasKind_of_conforms haconforms hna),
        deref_of_hasKind (Value.hasKind_of_conforms hbconforms hnb)] at hunify
    rw [Value.equals_isBool_iff haconforms hbconforms hcommonKind ha' hb' hcompared]
    -- the common type of the operands and the given one are of one kind
    have hsame (hna : a ≠ .null) (hnb : b ≠ .null) : target.kind = common.kind :=
      Option.some.inj (hkind.symm.trans (hcommonKind hna hnb))
    constructor
    · rintro ⟨hna, hnb, hequal⟩
      exact ⟨a, b, a', b', ha, hb, hna, hnb, Value.convert_congr (hsame hna hnb) ha',
        Value.convert_congr (hsame hna hnb) hb', hequal⟩
    · rintro ⟨c, d, c', d', hc, hd, hna, hnb, hc', hd', hequal⟩
      obtain rfl := Except.ok.inj (ha.symm.trans hc)
      obtain rfl := Except.ok.inj (hb.symm.trans hd)
      rw [Value.convert_congr (hsame hna hnb) ha'] at hc'
      rw [Value.convert_congr (hsame hna hnb) hb'] at hd'
      obtain rfl := Except.ok.inj hc'
      obtain rfl := Except.ok.inj hd'
      exact ⟨hna, hnb, hequal⟩

end ScalarExpr

/-! ### Split conditions -/

/-- Both columns of a key are there and, in the type of the key, the same. -/
def JoinKey.Holds (key : JoinKey) (l r : Value) : Prop :=
  ∃ a b a' b', l.field key.leftColumn = .ok a ∧ r.field key.rightColumn = .ok b ∧ a ≠ .null ∧
    b ≠ .null ∧ a.convert key.type = .ok a' ∧ b.convert key.type = .ok b' ∧ a'.same b' = true

/-- All keys of a split condition hold of two rows, and the rest is true on the joined row. -/
def JoinCondition.Holds (c : JoinCondition) (joined : Schema) (l r : Value) : Prop :=
  (∀ key ∈ c.keys, key.Holds l r) ∧ ∀ residual, c.residual = some residual →
    ∃ u, residual.GivesOn joined (l.append r) u ∧ u.isBool true = true

namespace ScalarExpr

variable {w : JoinWidths} {a b e : ScalarExpr} {key : JoinKey} {c : JoinCondition}

theorem side_eq_left {i : Nat} {type : Ty} (h : e.side w = .ok (some (.left i, type))) :
    e = .column i type ∧ i < w.left := by
  unfold side at h
  split at h
  · split at h
    · cases h
    · split at h
      · rename_i hlt
        cases h
        exact ⟨rfl, hlt⟩
      · cases h
  · cases h

theorem side_eq_right {i : Nat} {type : Ty} (h : e.side w = .ok (some (.right i, type))) :
    e = .column (w.left + i) type := by
  unfold side at h
  split at h
  · split at h
    · cases h
    · split at h
      · cases h
      · rename_i index _ _ hge
        cases h
        rw [Nat.add_sub_cancel' (Nat.le_of_not_lt hge)]
  · cases h

/-- The type of a key is of the common kind of the two columns. -/
theorem joinKey_eq_ok {i j : Nat} {ti tj : Ty} (h : joinKey i j ti tj = .ok key) :
    key.leftColumn = i ∧ key.rightColumn = j ∧ ti.kind.unify? tj.kind = some key.type.kind := by
  unfold joinKey at h
  obtain ⟨common, hcommon, h⟩ := Except.bind_eq_ok.mp h
  obtain ⟨type, htype, h⟩ := Except.bind_eq_ok.mp h
  rw [ofTerm_eq_ok] at hcommon htype
  obtain rfl := Except.ok.inj h
  refine ⟨rfl, rfl, ?_⟩
  rw [Ty.kind_of_withNullable htype]
  exact Ty.unify_eq_ok hcommon

/-- An equality that is a key is one of a left and a right column, in either order. -/
theorem equalityKey_eq_some (h : equalityKey w a b = .ok (some key)) :
    key.leftColumn < w.left ∧ ∃ ti tj, ti.kind.unify? tj.kind = some key.type.kind ∧
      ((a = .column key.leftColumn ti ∧ b = .column (w.left + key.rightColumn) tj) ∨
        (a = .column (w.left + key.rightColumn) tj ∧ b = .column key.leftColumn ti)) := by
  unfold equalityKey at h
  obtain ⟨sa, hsa, h⟩ := Except.bind_eq_ok.mp h
  obtain ⟨sb, hsb, h⟩ := Except.bind_eq_ok.mp h
  -- a key needs one column of either side, in either order
  split at h
  case h_1 =>
    obtain ⟨found, hkey, hsome⟩ := Except.functor_map_eq_ok.mp h
    obtain rfl := Option.some.inj hsome
    obtain ⟨rfl, rfl, hkind⟩ := joinKey_eq_ok hkey
    obtain ⟨ha, hlt⟩ := side_eq_left hsa
    exact ⟨hlt, _, _, hkind, .inl ⟨ha, side_eq_right hsb⟩⟩
  case h_2 =>
    obtain ⟨found, hkey, hsome⟩ := Except.functor_map_eq_ok.mp h
    obtain rfl := Option.some.inj hsome
    obtain ⟨rfl, rfl, hkind⟩ := joinKey_eq_ok hkey
    obtain ⟨hb, hlt⟩ := side_eq_left hsb
    exact ⟨hlt, _, _, hkind, .inr ⟨side_eq_right hsa, hb⟩⟩
  case h_3 => cases h

/-- **Keys.** An equality that is a key is true on the joined row iff the key holds. -/
theorem equals_isBool_iff_holds {type : Ty} (hkey : equalityKey ⟨left.width, right.width⟩ a b
    = .ok (some key)) (hl : left.Conforms l) (hr : right.Conforms r)
    (h : (ScalarExpr.call .equals [a, b] type).GivesOn (left.append right) (l.append r) v) :
    v.isBool true = true ↔ key.Holds l r := by
  obtain ⟨hlt, ti, tj, hkind, ⟨rfl, rfl⟩ | ⟨rfl, rfl⟩⟩ := equalityKey_eq_some hkey
  · rw [givesOn_equals h (hl.append hr) hkind]
    simp only [Value.field_append_left hl hr hlt, Value.field_append_right hl hr]
    exact Iff.rfl
  · -- the sides are exchanged, and neither the common kind nor equality depends on the order
    rw [givesOn_equals h (hl.append hr) (Kind.unify?_comm _ _ ▸ hkind)]
    simp only [Value.field_append_left hl hr hlt, Value.field_append_right hl hr]
    constructor
    · rintro ⟨x, y, x', y', hx, hy, hnx, hny, hx', hy', hsame⟩
      exact ⟨y, x, y', x', hy, hx, hny, hnx, hy', hx', Value.same_equivalence.symm hsame⟩
    · rintro ⟨x, y, x', y', hx, hy, hnx, hny, hx', hy', hsame⟩
      exact ⟨y, x, y', x', hy, hx, hny, hnx, hy', hx', Value.same_equivalence.symm hsame⟩

/-- What is not split is the rest as a whole, next to keys that it implies. -/
theorem holds_rest {joined : Schema} {keys : List JoinKey} (h : e.GivesOn joined (l.append r) v)
    (hkeys : v.isBool true = true → ∀ key ∈ keys, key.Holds l r) :
    v.isBool true = true ↔ JoinCondition.Holds ⟨keys, some e⟩ joined l r := by
  constructor
  · intro hv
    refine ⟨hkeys hv, fun residual hresidual => ⟨v, ?_, hv⟩⟩
    obtain rfl := Option.some.inj hresidual
    exact h
  · rintro ⟨-, hrest⟩
    obtain ⟨u, hu, htrue⟩ := hrest e rfl
    rwa [h.unique hu]

/-- A last conjunct is split on its own. -/
theorem decomposeAll_singleton {whole : ScalarExpr} :
    decomposeAll w whole [e] = e.decompose w := by
  rw [decomposeAll]
  cases e.decompose w with
  | error cause => rfl
  | ok c =>
    obtain ⟨keys, residual⟩ := c
    cases residual with
    | some residual => rfl
    | none =>
      rw [Except.ok_bind, decomposeAll, pure_bind, List.append_nil]
      rfl

/-- Whether the splitting of a condition is right on two rows. -/
def SplitsOn (e : ScalarExpr) (left right : Schema) (l r : Value) : Prop :=
  ∀ c v, e.decompose ⟨left.width, right.width⟩ = .ok c →
    e.GivesOn (left.append right) (l.append r) v →
      (v.isBool true = true ↔ c.Holds (left.append right) l r)

/-- A conjunction is split as its operands are. -/
theorem splitsOn_and {x y : ScalarExpr} {type : Ty} (hx : x.SplitsOn left right l r)
    (hy : y.SplitsOn left right l r) :
    (ScalarExpr.call .and [x, y] type).SplitsOn left right l r := by
  intro c v h hv
  obtain ⟨_, _, a, b, hoperands, ha, hb, htrue⟩ := givesOn_and hv
  cases hoperands
  rw [decompose, decomposeAll, Except.bind_eq_ok] at h
  obtain ⟨first, hfirst, h⟩ := h
  have hleft := hx first a hfirst ha
  cases hresidual : first.residual with
  | some residual =>
    -- the whole conjunction is checked again, next to the keys of its first operand
    rw [hresidual] at h
    obtain rfl := Except.ok.inj h
    exact holds_rest hv fun htrue' => (hleft.mp (htrue.mp htrue').1).1
  | none =>
    rw [hresidual] at h
    dsimp only at h
    rw [decomposeAll_singleton, Except.bind_eq_ok] at h
    obtain ⟨second, hsecond, hc⟩ := h
    obtain rfl := Except.ok.inj hc
    rw [htrue, hleft, hy second b hsecond hb]
    constructor
    · rintro ⟨⟨hkeys, -⟩, hkeys', hrest⟩
      refine ⟨fun key hkey => ?_, hrest⟩
      exact (List.mem_append.mp hkey).elim (hkeys key) (hkeys' key)
    · rintro ⟨hkeys, hrest⟩
      refine ⟨⟨fun key hkey => hkeys key (List.mem_append_left _ hkey), ?_⟩,
        fun key hkey => hkeys key (List.mem_append_right _ hkey), hrest⟩
      intro residual hsome
      cases hresidual.symm.trans hsome

/-- An induction over the conjuncts of a condition. -/
theorem conjunction_induction {motive : ScalarExpr → Prop}
    (conjunction : ∀ operands type, (∀ x ∈ operands, motive x) →
      motive (.call .and operands type))
    (other : ∀ e, (∀ operands type, e ≠ .call .and operands type) → motive e) (e : ScalarExpr) :
    motive e := by
  by_cases h : ∃ operands type, e = .call .and operands type
  · obtain ⟨operands, type, he⟩ := h
    rw [he]
    exact conjunction operands type fun x hx => conjunction_induction conjunction other x
  · exact other e fun operands type he => h ⟨operands, type, he⟩
termination_by sizeOf e
decreasing_by
  have hlt := List.sizeOf_lt_of_mem hx
  rw [he, ScalarExpr.call.sizeOf_spec]
  omega

/-- **Splitting.** A condition is true on two rows side by side iff its keys hold of the rows and
its rest is true. -/
theorem decompose_holds (hl : left.Conforms l) (hr : right.Conforms r) (e : ScalarExpr) :
    e.SplitsOn left right l r := by
  induction e using conjunction_induction with
  | conjunction operands type ih =>
    intro c v h hv
    obtain ⟨x, y, _, _, rfl, -, -, -⟩ := givesOn_and hv
    exact splitsOn_and (ih x (by simp)) (ih y (by simp)) c v h hv
  | other e hother =>
    intro c v h hv
    unfold decompose at h
    -- other than conjunctions, only an equality of columns gives a key
    split at h
    · exact absurd rfl (hother _ _)
    · obtain ⟨key, hkey, hc⟩ := Except.bind_eq_ok.mp h
      cases key with
      | none =>
        obtain rfl := Except.ok.inj hc
        exact holds_rest hv (by simp)
      | some key =>
        obtain rfl := Except.ok.inj hc
        rw [equals_isBool_iff_holds hkey hl hr hv]
        simp [JoinCondition.Holds]
    · obtain rfl := Except.ok.inj h
      exact holds_rest hv (by simp)

end ScalarExpr

/-! ### Keys of rows -/

theorem Value.hasColumns_iff {columns : List Nat} :
    row.hasColumns columns = true ↔ ∀ column ∈ columns, ∃ u, row.field column = .ok u ∧
      u ≠ .null := by
  unfold hasColumns
  rw [List.all_eq_true]
  refine forall₂_congr fun column _ => ?_
  cases row.field column with
  | error e => simp
  | ok u => simp [← Bool.not_eq_true, isNull_iff]

/-- Only nullable columns need a check. -/
theorem Schema.Conforms.field_ne_null {columns : List Nat} {column : Nat} (h : s.Conforms row)
    (hpresent : row.hasColumns (columns.filter s.isNullable) = true) (hmem : column ∈ columns) :
    row.field column ≠ .ok .null := by
  intro hnull
  -- a column that holds NULL is nullable, and the nullable ones have been checked
  have hnullable : s.isNullable column = true := by
    obtain ⟨fields, rfl, hfields⟩ := h
    rcases hfields.getElem? column with ⟨hnone, -⟩ | ⟨u, type, hu, htype, hconforms⟩
    · cases hnone.symm.trans (Value.field_row.mp hnull)
    · obtain rfl := Option.some.inj (hu.symm.trans (Value.field_row.mp hnull))
      unfold isNullable
      rw [htype]
      exact Value.nullable_of_conforms hconforms
  obtain ⟨u, hu, hne⟩ := Value.hasColumns_iff.mp hpresent column
    (List.mem_filter.mpr ⟨hmem, hnullable⟩)
  exact hne (Except.ok.inj (hu.symm.trans hnull))

variable {keys : List JoinKey} {kl kr : List Value}

/-- Rows of which a key holds pass the check of their columns. -/
theorem hasColumns_of_holds (h : ∀ key ∈ keys, key.Holds l r) :
    l.hasColumns ((keys.map JoinKey.leftColumn).filter left.isNullable) = true ∧
      r.hasColumns ((keys.map JoinKey.rightColumn).filter right.isNullable) = true := by
  simp only [Value.hasColumns_iff, List.mem_filter, List.mem_map]
  constructor
  · rintro _ ⟨⟨key, hkey, rfl⟩, -⟩
    obtain ⟨a, _, _, _, ha, -, hna, -⟩ := h key hkey
    exact ⟨a, ha, hna⟩
  · rintro _ ⟨⟨key, hkey, rfl⟩, -⟩
    obtain ⟨_, b, _, _, -, hb, -, hnb, -⟩ := h key hkey
    exact ⟨b, hb, hnb⟩

theorem key_eq_ok {column : JoinKey → Nat} :
    row.key (keys.map column) (keys.map JoinKey.type) = .ok kl ↔
      List.Forall₂ (fun key v => ∃ u, row.field (column key) = .ok u ∧ u.convert key.type = .ok v)
        keys kl := by
  unfold Value.key
  rw [List.zip_map', List.mapM_eq_ok, List.forall₂_map_left_iff]
  simp only [Except.bind_eq_ok]

/-- Two rows without NULL in their key columns have the same key iff all keys hold of them. -/
theorem key_same_iff (hl : l.key (keys.map JoinKey.leftColumn) (keys.map JoinKey.type) = .ok kl)
    (hr : r.key (keys.map JoinKey.rightColumn) (keys.map JoinKey.type) = .ok kr)
    (hnl : ∀ key ∈ keys, l.field key.leftColumn ≠ .ok .null)
    (hnr : ∀ key ∈ keys, r.field key.rightColumn ≠ .ok .null) :
    (Value.row kl).same (.row kr) = true ↔ ∀ key ∈ keys, key.Holds l r := by
  rw [key_eq_ok] at hl hr
  rw [Value.row_same_iff]
  induction hl generalizing kr with
  | nil =>
    cases hr
    simp
  | @cons key a' keys kl ha _ ih =>
    cases hr with
    | @cons _ b' _ kr hb hrest =>
      rw [List.forall_mem_cons] at hnl hnr
      rw [List.forall₂_cons, List.forall_mem_cons, ih hrest hnl.2 hnr.2]
      -- the first components are the columns of the first key, converted
      refine and_congr_left fun _ => ?_
      obtain ⟨a, ha, ha'⟩ := ha
      obtain ⟨b, hb, hb'⟩ := hb
      constructor
      · intro hsame
        refine ⟨a, b, a', b', ha, hb, ?_, ?_, ha', hb', hsame⟩
        · rintro rfl
          exact hnl.1 ha
        · rintro rfl
          exact hnr.1 hb
      · rintro ⟨c, d, c', d', hc, hd, -, -, hc', hd', hsame⟩
        obtain rfl := Except.ok.inj (ha.symm.trans hc)
        obtain rfl := Except.ok.inj (hb.symm.trans hd)
        obtain rfl := Except.ok.inj (ha'.symm.trans hc')
        obtain rfl := Except.ok.inj (hb'.symm.trans hd')
        exact hsame

end DeltaCircuit
