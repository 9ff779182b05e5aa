import DeltaCircuit.Proofs.Plan.JoinCondition
import DeltaCircuit.Proofs.Plan.Streams
import DeltaCircuit.Proofs.ZSetOperation

/-!
# What a lowered join gives

A join is lowered to indices of both inputs by the key columns, a join of the indices, a filter with
the rest of the condition and a conversion to the columns of the node. Together they give every pair
of rows on which the condition is true, with the product of the weights of the two rows.

* `ZSet.RowsOf` — Z-sets of rows of a schema.
* `Lower.stream_indexByKey`, `Lower.stream_matching`, `Lower.stream_restrict`,
  `Lower.stream_conform` — the stages of a join, one by one.
* `JoinCondition.meets_iff` — rows have the same present key iff the keys of the condition hold.
* `Plan.lower_join` — the whole node.
-/

namespace DeltaCircuit

open ExceptT (gives_bind gives_pure)

/-- A Z-set of rows of a schema. -/
structure ZSet.RowsOf (z : ZSet) (s : Schema) : Prop where
  distinct : z.Distinct
  conforms : ∀ entry ∈ z, s.Conforms entry.1

variable {s source target left right : Schema} {z L R : ZSet} {tables : Tables} {row : Row}
  {t t' : Lowering} {i j id : OperatorId} {columns : List Nat} {types : List Ty}

theorem ZSet.RowsOf.sublist {kept : ZSet} (h : z.RowsOf s) (hsublist : kept.Sublist z) :
    kept.RowsOf s :=
  ⟨h.distinct.sublist hsublist, fun entry hentry => h.conforms entry (hsublist.subset hentry)⟩

/-- The entries that a filter keeps are rows of the same schema. -/
theorem ZSet.RowsOf.support_filter (h : z.RowsOf s) (keep : Value × Int → Bool) :
    ZSet.RowsOf (ZSet.support (z.filter keep)) s :=
  h.sublist (List.filter_sublist.trans List.filter_sublist)

/-! ### Keys -/

/-- The key of a row, as a row of its own. -/
def Value.keyRow (columns : List Nat) (types : List Ty) (row : Value) : Value :=
  match row.key columns types with
  | .ok key => .row key
  | .error _ => .row []

theorem Value.keyRow_of_key {row : Value} {key : List Value}
    (h : row.key columns types = .ok key) : row.keyRow columns types = .row key := by
  rw [Value.keyRow, h]

/-- The entries with a value in all of the given columns that could be NULL. -/
def ZSet.present (z : ZSet) (s : Schema) (columns : List Nat) : List (Value × Int) :=
  ZSet.support (z.filter fun entry => entry.1.hasColumns (columns.filter s.isNullable))

namespace Lower

/-- The stream of an index by a key, which can be formed for all rows. -/
theorem stream_keys (hrow : t'.circuit.Fills t.circuit.size tables row)
    (h : (do append (·.addIndex i (← ofExcept (keyFunction s columns types)) (.tuple types)
      s.rowType) : Lower OperatorId).Gives t id t') (hz : z.RowsOf s) (hi : row[i]? = some z) :
    (∀ entry ∈ z, ∃ key, entry.1.key columns types = .ok key) ∧
      row[id]? = some (ZSet.support (ZSet.keyed (Value.keyRow columns types) z)) := by
  obtain ⟨f, hf, happend⟩ := gives_ofExcept_bind.mp h
  obtain ⟨out, hout, hindex⟩ := stream_transform rfl hrow happend hi
  have hcall (entry : Value × Int) (hentry : entry ∈ z) (v : Value) :
      f.applyTo [entry.1] = .ok v ↔
        ∃ key, entry.1.key columns types = .ok key ∧ v = .row [.row key, entry.1] :=
    keyFunction_applyTo hf (hz.conforms entry hentry)
  -- the operator has got through, so the function gives a pair for every row
  constructor
  · intro entry hentry
    obtain ⟨v, hv⟩ := ZSet.applyTo_of_index hindex hentry
    obtain ⟨key, hkey, -⟩ := (hcall entry hentry v).mp hv
    exact ⟨key, hkey⟩
  · rw [hout, ZSet.index_eq_ok (ZSet.distinct_keyed hz.distinct) (fun entry hentry v hv => ?_)
      hindex]
    obtain ⟨key, hkey, rfl⟩ := (hcall entry hentry v).mp hv
    rw [Value.keyRow_of_key hkey]

/-- **Indices of a join.** The index of an input holds the rows whose key columns are present, each
next to its key. -/
theorem stream_indexByKey (hrow : t'.circuit.Fills t.circuit.size tables row)
    (h : (indexByKey i s columns types).Gives t id t') (hz : z.RowsOf s) (hi : row[i]? = some z) :
    (∀ entry ∈ z.present s columns, ∃ key, entry.1.key columns types = .ok key) ∧
      row[id]? = some (ZSet.keyed (Value.keyRow columns types) (z.present s columns)) := by
  unfold indexByKey at h
  dsimp only at h
  split at h
  · next hnone =>
    -- no key column could be NULL, and all rows are there
    have hall : z.present s columns = ZSet.support z := by
      rw [ZSet.present, List.isEmpty_iff.mp hnone]
      simp [Value.hasColumns]
    rw [pure_bind] at h
    obtain ⟨hkeys, hout⟩ := stream_keys hrow h hz hi
    rw [hall, ← ZSet.support_keyed]
    exact ⟨fun entry hentry => hkeys entry (ZSet.mem_support.mp hentry).1, hout⟩
  · obtain ⟨present, hpresent, h⟩ := gives_ofExcept_bind.mp h
    obtain ⟨k, middle, hfilter, hindex⟩ := gives_bind.mp h
    have hextends : t'.circuit.Extends middle.circuit := extending_withFunction middle id t' hindex
    have hmiddle : middle.circuit.Extends t.circuit := extending_append t k middle hfilter
    obtain ⟨kept, hkept, hfilterBy⟩ := stream_transform rfl
      (hrow.mono (Nat.le_refl _) hextends) hfilter hi
    have haccepts : ∀ entry ∈ z, present.accepts entry.1 =
        entry.1.hasColumns (columns.filter s.isNullable) := by
      intro entry hentry
      rw [Expr.accepts, presenceFunction_applyTo hpresent (hz.conforms entry hentry)]
      cases entry.1.hasColumns (columns.filter s.isNullable) <;> rfl
    obtain rfl : kept = z.present s columns := by
      rw [ZSet.filterBy_eq_ok hz.distinct hfilterBy, ZSet.present, List.filter_congr haccepts]
    obtain ⟨hkeys, hout⟩ := stream_keys (hrow.mono hmiddle.size_le (.refl _)) hindex
      (hz.support_filter _) hkept
    rw [ZSet.support_keyed, ZSet.support_support] at hout
    exact ⟨hkeys, hout⟩

end Lower

/-! ### Pairs of rows -/

/-- Pairs of rows are rows of the joined schema, and different pairs are different rows. -/
theorem ZSet.RowsOf.pairs {p : Value → Value → Bool} (hL : L.RowsOf left) (hR : R.RowsOf right) :
    ZSet.RowsOf (ZSet.pairs p Value.append L R) (left.append right) := by
  constructor
  · refine ZSet.distinct_pairs hL.distinct hR.distinct fun l hl r hr l' hl' r' hr' hsame => ?_
    exact Value.same_append (hL.conforms l hl) (hL.conforms l' hl') (hR.conforms r hr)
      (hR.conforms r' hr') hsame
  · intro entry hentry
    obtain ⟨l, hl, r, hr, -, rfl⟩ := ZSet.mem_pairs.mp hentry
    exact (hL.conforms l hl).append (hR.conforms r hr)

/-- Whether two rows have the same key. -/
def JoinCondition.sameKey (c : JoinCondition) (l r : Value) : Bool :=
  (r.keyRow (c.keys.map JoinKey.rightColumn) (c.keys.map JoinKey.type)).same
    (l.keyRow (c.keys.map JoinKey.leftColumn) (c.keys.map JoinKey.type))

/-- The pairs of present rows of the same key. -/
def JoinCondition.matching (c : JoinCondition) (left right : Schema) (L R : ZSet) : ZSet :=
  ZSet.support (ZSet.pairs c.sameKey Value.append
    (L.present left (c.keys.map JoinKey.leftColumn))
    (R.present right (c.keys.map JoinKey.rightColumn)))

/-- Whether both rows are present and have the same key. -/
def JoinCondition.meets (c : JoinCondition) (left right : Schema) (l r : Value) : Bool :=
  l.hasColumns ((c.keys.map JoinKey.leftColumn).filter left.isNullable) &&
    r.hasColumns ((c.keys.map JoinKey.rightColumn).filter right.isNullable) && c.sameKey l r

namespace JoinCondition

variable {c : JoinCondition}

theorem rowsOf_matching (hL : L.RowsOf left) (hR : R.RowsOf right) :
    (c.matching left right L R).RowsOf (left.append right) :=
  ((hL.support_filter _).pairs (hR.support_filter _)).sublist List.filter_sublist

/-- The pairs that meet, and no other, have their part in what is joined. -/
theorem weightWhere_matching {q : Value → Bool} :
    ZSet.weightWhere q (c.matching left right L R) =
      ZSet.pairWeight (fun l r => c.meets left right l r && q (l.append r)) L R := by
  rw [matching, ZSet.weightWhere_support, ZSet.weightWhere_pairs, ZSet.present, ZSet.present,
    ZSet.pairWeight_support]
  refine (ZSet.pairWeight_filter (p := fun l => l.hasColumns _)
    (q := fun r => r.hasColumns _)).trans ?_
  simp only [meets, Bool.and_assoc]

variable {l r : Value × Int}

/-- Entries of an input that count are among the present ones iff their columns are. -/
theorem mem_present (hl : l ∈ L) (hw : l.2 ≠ 0) :
    l ∈ L.present left columns ↔ l.1.hasColumns (columns.filter left.isNullable) = true := by
  rw [ZSet.present, ZSet.mem_support, List.mem_filter]
  exact ⟨fun h => h.1.2, fun h => ⟨⟨hl, h⟩, hw⟩⟩

/-- Entries that count and meet have their pair in what is joined. -/
theorem mem_matching (hl : l ∈ L) (hr : r ∈ R) (hw : l.2 * r.2 ≠ 0)
    (h : c.meets left right l.1 r.1 = true) :
    (l.1.append r.1, l.2 * r.2) ∈ c.matching left right L R := by
  rw [meets, Bool.and_eq_true, Bool.and_eq_true] at h
  obtain ⟨⟨hpl, hpr⟩, hsame⟩ := h
  have hleft := (mem_present hl (left_ne_zero_of_mul hw)).mpr hpl
  have hright := (mem_present hr (right_ne_zero_of_mul hw)).mpr hpr
  exact ZSet.mem_support.mpr ⟨ZSet.mem_pairs.mpr ⟨l, hleft, r, hright, hsame, rfl⟩, hw⟩

/-- **Keys.** Of entries that count, the rows are present and have the same key iff the keys of the
condition hold of them. -/
theorem meets_iff (hL : L.RowsOf left) (hR : R.RowsOf right)
    (hleft : ∀ entry ∈ L.present left (c.keys.map JoinKey.leftColumn), ∃ key,
      entry.1.key (c.keys.map JoinKey.leftColumn) (c.keys.map JoinKey.type) = .ok key)
    (hright : ∀ entry ∈ R.present right (c.keys.map JoinKey.rightColumn), ∃ key,
      entry.1.key (c.keys.map JoinKey.rightColumn) (c.keys.map JoinKey.type) = .ok key)
    (hl : l ∈ L) (hr : r ∈ R) (hw : l.2 * r.2 ≠ 0) :
    c.meets left right l.1 r.1 = true ↔ ∀ key ∈ c.keys, key.Holds l.1 r.1 := by
  have hlw : l.2 ≠ 0 := left_ne_zero_of_mul hw
  have hrw : r.2 ≠ 0 := right_ne_zero_of_mul hw
  -- of present rows, the keys are the same iff all of them hold
  have hkeys (hpl : l.1.hasColumns ((c.keys.map JoinKey.leftColumn).filter left.isNullable) = true)
      (hpr : r.1.hasColumns ((c.keys.map JoinKey.rightColumn).filter right.isNullable) = true) :
      c.sameKey l.1 r.1 = true ↔ ∀ key ∈ c.keys, key.Holds l.1 r.1 := by
    obtain ⟨kl, hkl⟩ := hleft l ((mem_present hl hlw).mpr hpl)
    obtain ⟨kr, hkr⟩ := hright r ((mem_present hr hrw).mpr hpr)
    have hnl : ∀ key ∈ c.keys, l.1.field key.leftColumn ≠ .ok .null := fun key hkey =>
      (hL.conforms l hl).field_ne_null hpl (List.mem_map_of_mem hkey)
    have hnr : ∀ key ∈ c.keys, r.1.field key.rightColumn ≠ .ok .null := fun key hkey =>
      (hR.conforms r hr).field_ne_null hpr (List.mem_map_of_mem hkey)
    rw [sameKey, Value.keyRow_of_key hkl, Value.keyRow_of_key hkr,
      Bool.eq_iff_iff.mpr ⟨Value.same_equivalence.symm, Value.same_equivalence.symm⟩]
    exact key_same_iff hkl hkr hnl hnr
  rw [meets, Bool.and_eq_true, Bool.and_eq_true]
  constructor
  · rintro ⟨⟨hpl, hpr⟩, hsame⟩
    exact (hkeys hpl hpr).mp hsame
  · intro hholds
    have hpresent : l.1.hasColumns ((c.keys.map JoinKey.leftColumn).filter left.isNullable) = true ∧
        r.1.hasColumns ((c.keys.map JoinKey.rightColumn).filter right.isNullable) = true :=
      hasColumns_of_holds hholds
    exact ⟨hpresent, (hkeys hpresent.1 hpresent.2).mpr hholds⟩

end JoinCondition

namespace Lower

variable {c : JoinCondition}

/-- **The join of the indices** gives the pairs of present rows of the same key. -/
theorem stream_matching {keyType output : Ty} {f : Expr} {k : OperatorId}
    (hrow : t'.circuit.Fills t.circuit.size tables row)
    (h : (append (·.addJoin i j f keyType output)).Gives t k t')
    (hf : joinFunction keyType left right (left.append right) = .ok f) (hL : L.RowsOf left)
    (hR : R.RowsOf right)
    (hi : row[i]? = some (ZSet.keyed
      (Value.keyRow (c.keys.map JoinKey.leftColumn) (c.keys.map JoinKey.type))
      (L.present left (c.keys.map JoinKey.leftColumn))))
    (hj : row[j]? = some (ZSet.keyed
      (Value.keyRow (c.keys.map JoinKey.rightColumn) (c.keys.map JoinKey.type))
      (R.present right (c.keys.map JoinKey.rightColumn)))) :
    row[k]? = some (c.matching left right L R) := by
  have hleft : ZSet.RowsOf (L.present left (c.keys.map JoinKey.leftColumn)) left :=
    hL.support_filter _
  have hright : ZSet.RowsOf (R.present right (c.keys.map JoinKey.rightColumn)) right :=
    hR.support_filter _
  obtain ⟨out, hout, hjoin⟩ := stream_join hrow h hi hj
  have hadded := ZSet.join_eq_ok (fun l hl r hr _ v hv => Except.ok.inj (hv.symm.trans
    (joinFunction_applyTo hf (hleft.conforms l hl) (hright.conforms r hr)))) hjoin
  -- pairs of different rows are different, so adding them up keeps every one
  have hdistinct := (hleft.pairs (p := c.sameKey) hright).distinct
  rw [hout, ZSet.addAll_of_distinct (z := []) hdistinct hadded, List.nil_append]
  rfl

/-! ### The rest of the condition -/

/-- The filter with the rest of a join condition, if there is one. -/
def restrict (input : OperatorId) (schema : Schema) : Option ScalarExpr → Lower OperatorId
  | some residual => filter input schema residual
  | none => pure input

theorem extending_restrict (residual : Option ScalarExpr) : Extending (restrict i s residual) := by
  cases residual with
  | none => exact extending_pure
  | some residual => exact extending_withFunction

/-- **The rest.** A filter with the rest of a condition keeps the rows on which the rest is true. -/
theorem stream_restrict {residual : Option ScalarExpr} {k : OperatorId}
    (hrow : t'.circuit.Fills t.circuit.size tables row)
    (h : (restrict i s residual).Gives t k t') (hz : z.RowsOf s) (hsupport : ZSet.support z = z)
    (hi : row[i]? = some z) :
    ∃ keep : Value → Bool, row[k]? = some (ZSet.support (z.filter fun entry => keep entry.1)) ∧
      ∀ entry ∈ z, keep entry.1 = true ↔ ∀ e, residual = some e →
        ∃ u, e.GivesOn s entry.1 u ∧ u.isBool true = true := by
  cases residual with
  | none =>
    -- without a residual all rows stay
    obtain ⟨rfl, rfl⟩ := gives_pure.mp h
    refine ⟨fun _ => true, ?_, by simp⟩
    rw [List.filter_true, hsupport, hi]
  | some residual =>
    obtain ⟨f, hf, happend⟩ := gives_ofExcept_bind.mp h
    obtain ⟨kept, hkept, hfilter⟩ :=
      stream_transform rfl hrow happend hi
    refine ⟨f.accepts, by rw [hkept, ZSet.filterBy_eq_ok hz.distinct hfilter], ?_⟩
    intro entry hentry
    -- the filter has got through, so the residual has a value on every row
    obtain ⟨v, hv⟩ := ZSet.applyTo_of_filterBy hfilter hentry
    obtain ⟨u, hu, htrue⟩ := filterFunction_applyTo hf hv
    have haccepts : f.accepts entry.1 = u.isBool true := by
      rw [Expr.accepts, hv]
      exact htrue
    rw [haccepts]
    constructor
    · rintro hkeep _ ⟨⟩
      exact ⟨u, hu, hkeep⟩
    · intro hrest
      obtain ⟨u', hu', hkeep⟩ := hrest residual rfl
      rwa [hu.unique hu']

end Lower

/-! ### Conversions -/

/-- Whether a row becomes a given one when it is converted to a schema. -/
def Schema.convertsTo (s : Schema) (row v : Value) : Bool :=
  match s.convert row with
  | .ok u => u.same v
  | .error _ => false

namespace Lower

theorem extending_conform : Extending (conform i source target) := by
  unfold conform
  split
  · exact extending_pure
  · exact extending_withFunction

/-- **Conversions.** All rows can be converted to the columns of another schema, and each adds its
weight to what it becomes. -/
theorem stream_conform (hrow : t'.circuit.Fills t.circuit.size tables row)
    (h : (conform i source target).Gives t id t') (hz : z.RowsOf source)
    (hi : row[i]? = some z) :
    (∀ entry ∈ z, ∃ u, target.convert entry.1 = .ok u) ∧
      ∃ out, row[id]? = some out ∧ out.Distinct ∧
        ∀ v, out.weight v = ZSet.weightWhere (fun u => target.convertsTo u v) z := by
  unfold conform at h
  split at h
  · next hsame =>
    -- rows of the one schema are rows of the other one, and stay as they are
    have hconvert : ∀ entry ∈ z, target.convert entry.1 = .ok entry.1 := by
      intro entry hentry
      have hconforms := hz.conforms entry hentry
      rw [Schema.Conforms, Schema.types_of_rowType hsame] at hconforms
      exact Schema.Conforms.convert hconforms
    obtain ⟨rfl, rfl⟩ := gives_pure.mp h
    refine ⟨fun entry hentry => ⟨_, hconvert entry hentry⟩, z, hi, hz.distinct, fun v => ?_⟩
    rw [← hz.distinct.total_eq_weight]
    refine ZSet.weightWhere_congr (p := fun u => u.same v) fun entry hentry => ?_
    rw [Schema.convertsTo, hconvert entry hentry]
  · obtain ⟨f, hf, happend⟩ := gives_ofExcept_bind.mp h
    obtain ⟨out, hout, hmap⟩ := stream_transform rfl hrow happend hi
    have hconvert : ∀ entry ∈ z, ∃ u, target.convert entry.1 = .ok u := by
      intro entry hentry
      obtain ⟨u, hu⟩ := ZSet.applyTo_of_map hmap hentry
      exact ⟨u, (conformFunction_applyTo hf (hz.conforms entry hentry)).mp hu⟩
    let converted (u : Value) : Value := (target.convert u).toOption.getD u
    have hcall (entry : Value × Int) (hentry : entry ∈ z) (v : Value)
        (hv : f.applyTo [entry.1] = .ok v) : v = converted entry.1 := by
      rw [conformFunction_applyTo hf (hz.conforms entry hentry)] at hv
      simp only [converted, hv, Except.toOption, Option.getD_some]
    -- rows that become the same add up
    have hadded := ZSet.map_eq_ok hcall hmap
    have hdistinct := ZSet.distinct_of_addAll Weighted.distinct_nil hadded
    refine ⟨hconvert, out, hout, hdistinct, fun v => ?_⟩
    rw [ZSet.weight_of_addAll Weighted.distinct_nil hadded, ZSet.total_map_eq]
    have hempty : ZSet.weight [] v = 0 := rfl
    rw [hempty, Int.zero_add]
    refine ZSet.weightWhere_congr fun entry hentry => ?_
    obtain ⟨u, hu⟩ := hconvert entry hentry
    simp only [converted, Schema.convertsTo, hu, Except.toOption, Option.getD_some]

/-! ### The operators of a join -/

theorem extending_indexByKey : Extending (indexByKey i s columns types) := by
  unfold indexByKey
  dsimp only
  split
  · exact extending_pure.bind fun _ => extending_withFunction
  · exact extending_ofExcept.bind fun _ => extending_append.bind fun _ => extending_withFunction

variable {c : JoinCondition} {schema : Schema} {holds : Value → Value → Bool}

/-- The stages of a join. -/
theorem gives_join (h : (join i j left right c schema).Gives t id t') :
    ∃ leftIndex t₁ rightIndex t₂ f joined t₃ kept t₄,
      (indexByKey i left (c.keys.map JoinKey.leftColumn) (c.keys.map JoinKey.type)).Gives
        t leftIndex t₁ ∧
      (indexByKey j right (c.keys.map JoinKey.rightColumn) (c.keys.map JoinKey.type)).Gives
        t₁ rightIndex t₂ ∧
      joinFunction (.tuple (c.keys.map JoinKey.type)) left right (left.append right) = .ok f ∧
      (append (·.addJoin leftIndex rightIndex f (.tuple (c.keys.map JoinKey.type))
        (left.append right).rowType)).Gives t₂ joined t₃ ∧
      (restrict joined (left.append right) c.residual).Gives t₃ kept t₄ ∧
      (conform kept (left.append right) schema).Gives t₄ id t' := by
  unfold join at h
  dsimp only at h
  obtain ⟨leftIndex, t₁, hleft, h⟩ := gives_bind.mp h
  obtain ⟨rightIndex, t₂, hright, h⟩ := gives_bind.mp h
  obtain ⟨f, hf, h⟩ := gives_ofExcept_bind.mp h
  obtain ⟨joined, t₃, hjoined, h⟩ := gives_bind.mp h
  -- with and without a residual, the last two steps are a restriction and a conversion
  have hrest : ∃ kept t₄, (restrict joined (left.append right) c.residual).Gives t₃ kept t₄ ∧
      (conform kept (left.append right) schema).Gives t₄ id t' := by
    cases hresidual : c.residual <;> rw [hresidual] at h <;> exact gives_bind.mp h
  obtain ⟨kept, t₄, hkept, hconform⟩ := hrest
  exact ⟨leftIndex, t₁, rightIndex, t₂, f, joined, t₃, kept, t₄, hleft, hright, hf, hjoined,
    hkept, hconform⟩

/-- **Joins.** The operators of a join give every pair of rows that satisfies the split condition,
converted to the columns of the node, with the product of the weights. -/
theorem stream_join_condition (hrow : t'.circuit.Fills t.circuit.size tables row)
    (h : (join i j left right c schema).Gives t id t') (hL : L.RowsOf left) (hR : R.RowsOf right)
    (hi : row[i]? = some L) (hj : row[j]? = some R)
    (hholds : ∀ l ∈ L, ∀ r ∈ R,
      holds l.1 r.1 = true ↔ c.Holds (left.append right) l.1 r.1) :
    (∀ l ∈ L, ∀ r ∈ R, l.2 * r.2 ≠ 0 → holds l.1 r.1 = true →
      ∃ u, schema.convert (l.1.append r.1) = .ok u) ∧
    ∃ out, row[id]? = some out ∧ out.Distinct ∧ ∀ v, out.weight v =
      ZSet.pairWeight (fun l r => holds l r && schema.convertsTo (l.append r) v) L R := by
  obtain ⟨leftIndex, t₁, rightIndex, t₂, f, joined, t₃, kept, t₄, hleft, hright, hf, hjoined,
    hkept, hconform⟩ := gives_join h
  have e₁ : t₁.circuit.Extends t.circuit := extending_indexByKey t leftIndex t₁ hleft
  have e₂ : t₂.circuit.Extends t₁.circuit := extending_indexByKey t₁ rightIndex t₂ hright
  have e₃ : t₃.circuit.Extends t₂.circuit := extending_append t₂ joined t₃ hjoined
  have e₄ : t₄.circuit.Extends t₃.circuit := extending_restrict c.residual t₃ kept t₄ hkept
  have e₅ : t'.circuit.Extends t₄.circuit := extending_conform t₄ id t' hconform
  -- the streams, stage by stage
  obtain ⟨hkl, hleftIndex⟩ := stream_indexByKey
    (hrow.mono le_rfl (((e₅.trans e₄).trans e₃).trans e₂)) hleft hL hi
  obtain ⟨hkr, hrightIndex⟩ := stream_indexByKey
    (hrow.mono e₁.size_le ((e₅.trans e₄).trans e₃)) hright hR hj
  have hmatching : row[joined]? = some (c.matching left right L R) := stream_matching
    (hrow.mono (e₂.trans e₁).size_le (e₅.trans e₄)) hjoined hf hL hR hleftIndex hrightIndex
  have hrows : (c.matching left right L R).RowsOf (left.append right) :=
    JoinCondition.rowsOf_matching hL hR
  obtain ⟨keep, hkeep, hrest⟩ := stream_restrict
    (hrow.mono ((e₃.trans e₂).trans e₁).size_le e₅) hkept hrows ZSet.support_support hmatching
  obtain ⟨hconverts, out, hout, hdistinct, hweight⟩ := stream_conform
    (hrow.mono (((e₄.trans e₃).trans e₂).trans e₁).size_le (.refl _)) hconform
    (hrows.support_filter _) hkeep
  -- a pair that counts is kept iff it satisfies the condition
  have hpair : ∀ l ∈ L, ∀ r ∈ R, l.2 * r.2 ≠ 0 →
      (c.meets left right l.1 r.1 && keep (l.1.append r.1)) = holds l.1 r.1 := by
    intro l hl r hr hw
    have hmeets := JoinCondition.meets_iff hL hR hkl hkr hl hr hw
    rw [Bool.eq_iff_iff, hholds l hl r hr, Bool.and_eq_true]
    constructor
    · rintro ⟨hmeet, hkeep⟩
      exact ⟨hmeets.mp hmeet,
        (hrest _ (JoinCondition.mem_matching hl hr hw hmeet)).mp hkeep⟩
    · rintro ⟨hkeys, hresidual⟩
      have hmeet := hmeets.mpr hkeys
      exact ⟨hmeet, (hrest _ (JoinCondition.mem_matching hl hr hw hmeet)).mpr hresidual⟩
  constructor
  · intro l hl r hr hw hholds
    rw [← hpair l hl r hr hw, Bool.and_eq_true] at hholds
    obtain ⟨hmeet, hkept⟩ := hholds
    have hmember := JoinCondition.mem_matching hl hr hw hmeet
    exact hconverts _ (ZSet.mem_support.mpr ⟨List.mem_filter.mpr ⟨hmember, hkept⟩, hw⟩)
  · refine ⟨out, hout, hdistinct, fun v => ?_⟩
    calc out.weight v
        = ZSet.weightWhere (fun u => schema.convertsTo u v)
            (ZSet.support ((c.matching left right L R).filter fun entry => keep entry.1)) :=
          hweight v
      _ = ZSet.weightWhere (fun u => keep u && schema.convertsTo u v)
            (c.matching left right L R) := by
          rw [ZSet.weightWhere_support, ZSet.weightWhere_filter]
      _ = ZSet.pairWeight (fun l r => c.meets left right l r &&
            (keep (l.append r) && schema.convertsTo (l.append r) v)) L R :=
          JoinCondition.weightWhere_matching
      _ = ZSet.pairWeight (fun l r => holds l r && schema.convertsTo (l.append r) v) L R := by
          refine ZSet.pairWeight_congr fun l hl r hr hw => ?_
          rw [← Bool.and_assoc, hpair l hl r hr hw]

end Lower

/-! ### The whole node -/

/-- What a compiled expression gives on a row. -/
def Expr.onRow (e : Expr) (row : Value) : Except EvalError Value := (e.eval (rowScopes row)).1

/-- Whether the compiled condition of a join, if there is one, is true of two rows side by side. -/
def pairHolds (predicate : Option Expr) (l r : Value) : Bool :=
  predicate.all fun e =>
    match e.onRow (l.append r) with
    | .ok v => v.isBool true
    | .error _ => false

/-- Splitting a condition changes neither circuit nor tables. Without a condition there are neither
keys nor a rest. -/
theorem Lower.gives_joinCondition {type : JoinType} {condition : Option ScalarExpr}
    {c : JoinCondition} (h : (joinCondition type condition left right).Gives t c t') :
    t'.circuit = t.circuit ∧ t'.tables = t.tables ∧ (condition = none → c = ⟨[], none⟩) ∧
      ∀ e, condition = some e → e.decompose ⟨left.width, right.width⟩ = .ok c := by
  -- a report is the only change of state
  have hreport {split : JoinCondition} (h : (do
      if split.keys.isEmpty then report crossJoin
      return split : Lower JoinCondition).Gives t c t') :
      t'.circuit = t.circuit ∧ t'.tables = t.tables ∧ c = split := by
    dsimp only at h
    split at h
    · obtain ⟨⟨⟩, middle, hreport, hpure⟩ := gives_bind.mp h
      obtain ⟨rfl, rfl⟩ := gives_pure.mp hpure
      obtain ⟨-, rfl⟩ := Prod.mk.inj hreport
      exact ⟨rfl, rfl, rfl⟩
    · obtain ⟨rfl, rfl⟩ := gives_pure.mp h
      exact ⟨rfl, rfl, rfl⟩
  unfold joinCondition at h
  dsimp only at h
  split at h
  · obtain ⟨_, _, hthrow, -⟩ := gives_bind.mp h
    exact (ExceptT.gives_throw.mp hthrow).elim
  · cases condition with
    | none =>
      rw [pure_bind] at h
      obtain ⟨hcircuit, htables, rfl⟩ := hreport h
      exact ⟨hcircuit, htables, fun _ => rfl, nofun⟩
    | some e =>
      obtain ⟨split, hsplit, h⟩ := gives_ofExcept_bind.mp h
      obtain ⟨hcircuit, htables, rfl⟩ := hreport h
      refine ⟨hcircuit, htables, nofun, ?_⟩
      rintro _ ⟨⟩
      unfold ScalarExpr.joinCondition at hsplit
      obtain ⟨found, hfound, hsplit⟩ := Except.bind_eq_ok.mp hsplit
      split at hsplit
      · cases hsplit
      · obtain rfl := Except.ok.inj hsplit
        exact hfound

/-- **Conditions of joins.** The compiled condition is true of two rows iff the rows satisfy what
the condition has been split into. -/
theorem pairHolds_iff {condition : Option ScalarExpr} {predicate : Option Expr} {c : JoinCondition}
    {l r : Value} (hl : left.Conforms l) (hr : right.Conforms r)
    (hpredicate : condition.mapM (fun e =>
      e.compilePredicate (some (left.append right).rowVar)) = .ok predicate)
    (hnone : condition = none → c = ⟨[], none⟩)
    (hsome : ∀ e, condition = some e → e.decompose ⟨left.width, right.width⟩ = .ok c)
    (hgives : ∀ f ∈ predicate, ∃ v, f.onRow (l.append r) = .ok v) :
    pairHolds predicate l r = true ↔ c.Holds (left.append right) l r := by
  cases condition with
  | none =>
    obtain rfl := Except.ok.inj hpredicate
    obtain rfl := hnone rfl
    simp [pairHolds, JoinCondition.Holds]
  | some e =>
    obtain ⟨compiled, hcompiled, hpure⟩ := Except.functor_map_eq_ok.mp hpredicate
    obtain rfl := hpure
    -- the compiled condition computes the condition, and the condition is split exactly
    obtain ⟨v, hv⟩ := hgives compiled rfl
    obtain ⟨inner, hinner, hkeeps, htrue⟩ :=
      ScalarExpr.compilePredicate_eq_ok Expr.keeps_var hcompiled
    obtain ⟨u, hu, hvu⟩ := htrue _ v (((Expr.computes_self hkeeps).gives_iff v).mpr hv)
    have hgiven : e.GivesOn (left.append right) (l.append r) u := ⟨inner, hinner, hu⟩
    rw [← ScalarExpr.decompose_holds hl hr e c u (hsome e rfl) hgiven, ← hvu]
    simp only [pairHolds, Option.all_some, hv]

/-- **Joins mean their condition.** A join node that is lowered has operators of its own behind
those of its inputs. Whenever these run, the stream of the node has, at every row, the sum of the
products of the weights of all pairs of rows on which the compiled condition is true and which
become that row when they are put side by side and converted to the columns of the node. No pair
that counts is lost to a conversion. -/
theorem Plan.lower_join {left right : Plan} {type : JoinType} {condition : Option ScalarExpr}
    {schema : Schema} {predicate : Option Expr}
    (h : (Plan.join left right type condition schema).lower.Gives t id t')
    (hpredicate : condition.mapM (fun e =>
      e.compilePredicate (some (left.schema.append right.schema).rowVar)) = .ok predicate) :
    ∃ (t₀ t₁ t₂ : Lowering) (i j : OperatorId), t₀.circuit = t.circuit ∧ t₀.tables = t.tables ∧
      left.lower.Gives t₀ i t₁ ∧ right.lower.Gives t₁ j t₂ ∧
      ∀ (tables : Tables) (outputs row : Row) (state state' : RunState) (L R : ZSet),
        outputs.length = t₂.circuit.size → outputs[i]? = some L → outputs[j]? = some R →
        L.RowsOf left.schema → R.RowsOf right.schema →
        (∀ f ∈ predicate, ∀ l ∈ L, ∀ r ∈ R, ∃ v, f.onRow (l.1.append r.1) = .ok v) →
        runOperators tables (t'.circuit.numbered.drop t₂.circuit.size) outputs state =
          (.ok row, state') →
        (∀ l ∈ L, ∀ r ∈ R, l.2 * r.2 ≠ 0 → pairHolds predicate l.1 r.1 = true →
          ∃ u, schema.convert (l.1.append r.1) = .ok u) ∧
        ∃ z, row[id]? = some z ∧ z.Distinct ∧ ∀ v, z.weight v =
          ZSet.pairWeight (fun l r => pairHolds predicate l r &&
            schema.convertsTo (l.append r) v) L R := by
  rw [Plan.lower] at h
  obtain ⟨c, t₀, hcondition, h⟩ := gives_bind.mp h
  obtain ⟨i, t₁, hleft, h⟩ := gives_bind.mp h
  obtain ⟨j, t₂, hright, hjoin⟩ := gives_bind.mp h
  obtain ⟨hcircuit, htables, hnone, hsome⟩ := Lower.gives_joinCondition hcondition
  refine ⟨t₀, t₁, t₂, i, j, hcircuit, htables, hleft, hright, ?_⟩
  intro tables outputs row state state' L R hlength hi hj hL hR hgives hrun
  -- the row of the operators so far is the front of the whole row
  obtain ⟨hfront, hrow⟩ := fills_of_runOperators hlength hrun
  refine Lower.stream_join_condition hrow hjoin hL hR (getElem?_of_front hfront hi)
    (getElem?_of_front hfront hj) ?_
  intro l hl r hr
  exact pairHolds_iff (hL.conforms l hl) (hR.conforms r hr) hpredicate hnone hsome
    fun f hf => hgives f hf l hl r hr

namespace Plan

/-! #### A join of two tables -/

/-- Orders of customers, who may be unknown. -/
def orders : Schema := ⟨[⟨"CUSTOMER", { Ty.i32 with nullable := true }⟩, ⟨"AMOUNT", .i32⟩]⟩

def customers : Schema := ⟨[⟨"ID", .i64⟩]⟩

/-- The orders of known customers above an amount. -/
def largeOrders : Plan :=
  .join (.scan "ORDERS" orders) (.scan "CUSTOMERS" customers) .inner
    (some (.call .and [
      .equals (.column 0 { Ty.i32 with nullable := true }) (.column 2 .i64),
      .call .greaterThan [.column 1 .i32, .literal (some (.int 10)) .i32] .bool]
      { Ty.bool with nullable := true }))
    ⟨[⟨"CUSTOMER", { Ty.i32 with nullable := true }⟩, ⟨"AMOUNT", .i64⟩, ⟨"ID", .i64⟩]⟩

/-- A circuit with the two tables. -/
def shop : Lowering where
  circuit := ⟨"shop", [⟨.source "ORDERS" orders.rowType, [], none, .zset orders.rowType, true⟩,
    ⟨.source "CUSTOMERS" customers.rowType, [], none, .zset customers.rowType, true⟩]⟩
  tables := [("ORDERS", ⟨0, orders⟩), ("CUSTOMERS", ⟨1, customers⟩)]
  diagnostics := []

def someOrders : ZSet :=
  [(.row [.int 1, .int 20], 2), (.row [.int 1, .int 5], 1), (.row [.null, .int 30], 1)]

def oneCustomer : ZSet := [(.row [.int 1], 3)]

theorem rowsOf_someOrders : someOrders.RowsOf orders := by
  constructor
  · unfold ZSet.Distinct Weighted.Distinct
    decide
  · simp only [someOrders, List.forall_mem_cons]
    refine ⟨⟨_, rfl, ?_⟩, ⟨_, rfl, ?_⟩, ⟨_, rfl, ?_⟩, ?_⟩
    · exact .cons rfl (.cons rfl .nil)
    · exact .cons rfl (.cons rfl .nil)
    · exact .cons rfl (.cons rfl .nil)
    · simp

theorem rowsOf_oneCustomer : oneCustomer.RowsOf customers := by
  constructor
  · unfold ZSet.Distinct Weighted.Distinct
    decide
  · simp only [oneCustomer, List.forall_mem_cons]
    exact ⟨⟨_, rfl, .cons rfl .nil⟩, by simp⟩

/-- An unknown customer and a small order have no part in the join, the amount is converted, and the
weights are multiplied. -/
theorem lower_join_largeOrders :
    ∃ row z, runOperators [] ((largeOrders.lower shop).2.circuit.numbered.drop 2)
        [someOrders, oneCustomer] .start = (.ok row, .start) ∧ row[7]? = some z ∧
      ∀ v, z.weight v = if (Value.row [.int 1, .int 20, .int 1]).same v then 6 else 0 := by
  have hlower : largeOrders.lower.Gives shop 7 (largeOrders.lower shop).2 := rfl
  obtain ⟨t₀, t₁, t₂, i, j, hcircuit, htables, hleft, hright, hjoin⟩ := lower_join hlower rfl
  -- the inputs are the two tables
  obtain ⟨rfl, _, hfound, -, rfl⟩ := Lower.gives_scan hleft
  obtain ⟨rfl, _, hfound', -, rfl⟩ := Lower.gives_scan hright
  rw [htables] at hfound hfound'
  cases hfound
  cases hfound'
  have hsize : t₂.circuit.size = 2 := congrArg Circuit.size hcircuit
  rw [hsize] at hjoin
  have hstream := by
    refine hjoin [] [someOrders, oneCustomer] _ .start .start someOrders oneCustomer rfl rfl rfl
      rowsOf_someOrders rowsOf_oneCustomer ?_ rfl
    rintro _ ⟨⟩
    simp only [someOrders, oneCustomer, List.forall_mem_cons]
    refine ⟨⟨⟨_, rfl⟩, ?_⟩, ⟨⟨_, rfl⟩, ?_⟩, ⟨⟨_, rfl⟩, ?_⟩, ?_⟩ <;> simp
  obtain ⟨-, z, hz, -, hweight⟩ := hstream
  refine ⟨_, z, rfl, hz, fun v => (hweight v).trans ?_⟩
  change (if (Value.row [.int 1, .int 20, .int 1]).same v then 2 * 3 else 0) + 0 +
    (0 + 0 + (0 + 0 + 0)) = _
  split <;> rfl

end Plan
end DeltaCircuit
