import DeltaCircuit.Proofs.Plan.Fold
import DeltaCircuit.Proofs.Plan.RowFunction
import DeltaCircuit.Proofs.Plan.Streams
import DeltaCircuit.Proofs.ZSetGroups
import DeltaCircuit.Proofs.ZSetLiteral

/-!
# What a lowered aggregate gives

An aggregate is lowered to an index by the group columns, an aggregating operator and a map that
puts the aggregates behind the key. Without group columns four more operators follow: the row of no
rows as a constant, one copy of it for each row that the aggregate has given, their difference and
the sum of the two. Whatever the input is, just one of the two terms of that sum has a row.

* `Value.groupKey` — the key of a row.
* `ZSet.OneRowPerGroup`, `ZSet.OneRow` — what the operators give with and without group columns.
* `Lower.stream_groupIndex`, `Lower.stream_flatten`, `Lower.stream_oneRowPerGroup` — the operators
  up to the map.
* `Lower.stream_orDefaultRow` — the row of no rows where there is no row.
* `Plan.lower_aggregate` — the whole node.
-/

namespace DeltaCircuit

open ExceptT (gives_bind gives_pure gives_throw)

variable {tables : Tables} {row : Row} {t t' : Lowering} {i id : OperatorId} {s schema : Schema}
  {z : ZSet} {columns : List Nat} {keys : List Value} {calls : List AggregateCall} {f : Expr}

/-! ### Keys -/

/-- The values of the group columns of a row, as a row of their own. -/
def Value.groupKey (columns : List Nat) (row : Value) : Value :=
  match columns.mapM fun column => row.field column with
  | .ok key => .row key
  | .error _ => .row []

/-- Whether a row has all of the group columns. -/
def Value.HasKey (columns : List Nat) (row : Value) : Prop :=
  ∃ key, columns.mapM (fun column => row.field column) = .ok key

theorem Value.groupKey_of_mapM {row : Value} {key : List Value}
    (h : columns.mapM (fun column => row.field column) = .ok key) :
    row.groupKey columns = .row key := by
  rw [Value.groupKey, h]

/-- The key of a row is a row of the width of the key. -/
theorem Value.HasKey.exists_groupKey {row : Value} (h : row.HasKey columns) :
    ∃ key, row.groupKey columns = .row key ∧ key.length = columns.length := by
  obtain ⟨key, hkey⟩ := h
  exact ⟨key, groupKey_of_mapM hkey, (List.mapM_eq_ok.mp hkey).length_eq.symm⟩

/-! ### Pairs of a key and aggregates -/

/-- The components of a row. -/
def Value.components (row : Value) : List Value :=
  match row with
  | .row fields => fields
  | _ => []

/-- A row whose second component is put behind its first one. -/
def Value.flatten (pair : Value) : Value :=
  match pair with
  | .row [key, values] => key.append values
  | other => other

namespace Lower

/-! ### Stages -/

/-- **Keys.** The index of the input holds every row next to its key. -/
theorem stream_groupIndex {keyType valueType : Ty}
    (hrow : t'.circuit.Fills t.circuit.size tables row)
    (h : (append (·.addIndex i f keyType valueType)).Gives t id t')
    (hf : groupFunction s columns = .ok f) (hz : z.Distinct) (hsupport : ZSet.support z = z)
    (hi : row[i]? = some z) :
    (∀ entry ∈ z, entry.1.HasKey columns) ∧
      row[id]? = some (ZSet.keyed (Value.groupKey columns) z) := by
  obtain ⟨out, hout, hindex⟩ := stream_transform rfl hrow h hi
  constructor
  · -- the function of the index has a value on every row
    intro entry hentry
    obtain ⟨v, hv⟩ := ZSet.applyTo_of_index hindex hentry
    obtain ⟨key, hkey, -⟩ := (groupFunction_applyTo hf).mp hv
    exact ⟨key, hkey⟩
  · rw [hout, ZSet.index_eq_ok (ZSet.distinct_keyed hz) (fun entry hentry v hv => ?_) hindex,
      ZSet.support_keyed, hsupport]
    obtain ⟨key, hkey, rfl⟩ := (groupFunction_applyTo hf).mp hv
    rw [Value.groupKey_of_mapM hkey]

/-- **Rows.** The map puts the aggregates behind the key, and keeps the rows apart. -/
theorem stream_flatten {keyTypes : List Ty} {output : Ty} {result : Value → List Value}
    (hrow : t'.circuit.Fills t.circuit.size tables row)
    (h : (append (·.addMap i f output)).Gives t id t')
    (hf : flattenFunction (.tuple keyTypes) (.tuple (calls.map AggregateCall.type)) columns.length
      calls.length schema = .ok f)
    (htypes : schema.types = keyTypes ++ calls.map AggregateCall.type)
    (hwidth : keyTypes.length = columns.length)
    (hdistinct : keys.Pairwise fun a b => a.same b = false)
    (hkeys : ∀ k ∈ keys, ∃ key, k = .row key ∧ key.length = columns.length)
    (hresult : ∀ k ∈ keys, (result k).length = calls.length)
    (hi : row[i]? = some (keys.map fun k => (.row [k, .row (result k)], 1))) :
    row[id]? = some (keys.map fun k => (k.append (.row (result k)), 1)) := by
  obtain ⟨out, hout, hmap⟩ := stream_transform rfl hrow h hi
  have hcount : (calls.map AggregateCall.type).length = calls.length := List.length_map _
  rw [← hwidth, ← hcount] at hf
  have hcall : ∀ entry ∈ keys.map (fun k => (.row [k, .row (result k)], (1 : Int))), ∀ v,
      f.applyTo [entry.1] = .ok v → v = entry.1.flatten := by
    intro entry hentry v hv
    obtain ⟨k, hk, rfl⟩ := List.mem_map.mp hentry
    obtain ⟨key, rfl, hlength⟩ := hkeys k hk
    have hvalues : (result (.row key)).length = (calls.map AggregateCall.type).length :=
      (hresult _ hk).trans hcount.symm
    rw [flattenFunction_applyTo hf htypes (hlength.trans hwidth.symm) hvalues] at hv
    exact (Except.ok.inj hv).symm
  have hadded := ZSet.map_eq_ok hcall hmap
  rw [List.map_map] at hadded
  -- different keys make different rows
  have happart : keys.Pairwise fun a b =>
      (a.append (.row (result a))).same (b.append (.row (result b))) = false := by
    refine hdistinct.imp_of_mem fun {a b} ha hb hab => ?_
    obtain ⟨key, rfl, hlength⟩ := hkeys a ha
    obtain ⟨key', rfl, hlength'⟩ := hkeys b hb
    rw [Bool.eq_false_iff]
    intro hsame
    rw [(Value.row_same_of_append (hlength.trans hlength'.symm) hsame).1] at hab
    cases hab
  rw [hout, ZSet.addAll_once happart hadded]

end Lower

/-! ### The row of no rows -/

/-- The contents of a literal of one closed row. -/
theorem contents_addElement {type : Ty} {e : Expr} {literal : ZSetLiteral} {d : Value}
    (h : (ZSetLiteral.empty type).addElement e 1 = .ok literal) (he : e.Computes [] (.ok d)) :
    literal.contents = .ok [(d, 1)] := by
  obtain ⟨-, hmerge⟩ := ZSetLiteral.addElement_eq_ok.mp h
  obtain rfl := Except.ok.inj hmerge
  have hvalue : e.evaluate = .ok d := congrArg Prod.fst ((he.gives_iff d).mpr rfl)
  have hcontents : (ZSetLiteral.mk type [(e, 1)]).contents = e.evaluate >>= fun v =>
      ZSet.add [] v 1 := by
    unfold ZSetLiteral.contents
    rw [List.foldlM_cons]
    simp only [List.foldlM_nil, bind_pure]
  exact hcontents.trans (by rw [hvalue, Except.ok_bind, ZSet.add_nil_one])

namespace Lower

/-- **No rows.** Where an aggregate without group columns has given no row, the row of no rows takes
its place; a row that it has given stays, whatever it is. -/
theorem stream_orDefaultRow (hrow : t'.circuit.Fills t.circuit.size tables row)
    (h : (orDefaultRow i calls schema).Gives t id t') (hi : row[i]? = some z) :
    (z = [] → row[id]? = some [(.row (calls.map AggregateCall.emptyResult), 1)]) ∧
      ∀ r, z = [(r, 1)] → row[id]? = some [(r, 1)] := by
  obtain ⟨e, he, h⟩ := gives_ofExcept_bind.mp h
  obtain ⟨literal, hliteral, h⟩ := gives_ofExcept_bind.mp h
  obtain ⟨constant, t₁, hconstant, h⟩ := gives_bind.mp h
  obtain ⟨f, hf, h⟩ := gives_ofExcept_bind.mp h
  obtain ⟨present, t₂, hpresent, h⟩ := gives_bind.mp h
  obtain ⟨missing, t₃, hmissing, hsum⟩ := gives_bind.mp h
  have e₁ : t₁.circuit.Extends t.circuit := extending_append t constant t₁ hconstant
  have e₂ : t₂.circuit.Extends t₁.circuit := extending_append t₁ present t₂ hpresent
  have e₃ : t₃.circuit.Extends t₂.circuit := extending_append t₂ missing t₃ hmissing
  have e₄ : t'.circuit.Extends t₃.circuit := extending_append t₃ id t' hsum
  -- the streams: the constant, its copies, what is missing, and the sum
  obtain ⟨c, hc, hcontents⟩ := stream_constant (hrow.mono le_rfl ((e₄.trans e₃).trans e₂)) hconstant
  obtain rfl := Except.ok.inj ((contents_addElement (ofTerm_eq_ok.mp hliteral)
    (emptyGroupRow_eq_ok he)).symm.trans hcontents)
  obtain ⟨p, hp, hcopies⟩ :=
    stream_transform rfl (hrow.mono e₁.size_le (e₄.trans e₃)) hpresent hi
  obtain ⟨m, hm, hdifference⟩ := stream_subtract (hrow.mono (e₂.trans e₁).size_le e₄) hmissing hc hp
  obtain ⟨out, hout, hadded⟩ := stream_sum (hrow.mono ((e₃.trans e₂).trans e₁).size_le (.refl _))
    hsum (.cons hi (.cons hm .nil))
  obtain ⟨hnone, hone⟩ := ZSet.orDefault hcopies hdifference hadded
  rw [hout]
  refine ⟨fun hempty => congrArg some (hnone hempty), fun r hr => congrArg some (hone r hr ?_)⟩
  exact constantFunction_applyTo hf (emptyGroupRow_eq_ok he)

/-! ### The operators of an aggregate -/

/-- The stages of an aggregate. -/
theorem gives_aggregate (h : (aggregate i s columns calls schema).Gives t id t') :
    ∃ keyTypes key fold resultType flatten indexed t₁ folded t₂ mapped t₃,
      groupKeyTypes s columns = .ok keyTypes ∧ groupFunction s columns = .ok key ∧
      foldFunction (.tuple keyTypes) s.rowType calls = .ok (fold, resultType) ∧
      flattenFunction (.tuple keyTypes) resultType columns.length calls.length schema =
        .ok flatten ∧
      (append (·.addIndex i key (.tuple keyTypes) s.rowType)).Gives t indexed t₁ ∧
      (append (·.addAggregate indexed fold (.tuple keyTypes) resultType)).Gives t₁ folded t₂ ∧
      (append (·.addMap folded flatten schema.rowType)).Gives t₂ mapped t₃ ∧
      (if columns.isEmpty then orDefaultRow mapped calls schema else pure mapped).Gives t₃ id
        t' := by
  unfold aggregate at h
  obtain ⟨keyTypes, hkeyTypes, h⟩ := gives_ofExcept_bind.mp h
  obtain ⟨key, hkey, h⟩ := gives_ofExcept_bind.mp h
  obtain ⟨indexed, t₁, hindexed, h⟩ := gives_bind.mp h
  obtain ⟨⟨fold, resultType⟩, hfold, h⟩ := gives_ofExcept_bind.mp h
  obtain ⟨folded, t₂, hfolded, h⟩ := gives_bind.mp h
  obtain ⟨flatten, hflatten, h⟩ := gives_ofExcept_bind.mp h
  obtain ⟨mapped, t₃, hmapped, h⟩ := gives_bind.mp h
  exact ⟨keyTypes, key, fold, resultType, flatten, indexed, t₁, folded, t₂, mapped, t₃, hkeyTypes,
    hkey, hfold, hflatten, hindexed, hfolded, hmapped, h⟩

theorem extending_orDefaultRow : Extending (orDefaultRow i calls schema) :=
  extending_ofExcept.bind fun _ => extending_ofExcept.bind fun _ => extending_append.bind fun _ =>
    extending_ofExcept.bind fun _ => extending_append.bind fun _ => extending_append.bind fun _ =>
      extending_append

end Lower

/-! ### The whole node -/

/-- One row of weight one for every group of the entries, and no other row: the key of the group,
followed by the fold of its members. -/
def ZSet.OneRowPerGroup (columns : List Nat) (fold : Expr) (z out : ZSet) : Prop :=
  ∃ (keys : List Value) (result : Value → List Value),
    IsGrouped (Value.groupKey columns) z keys ∧
    (∀ k ∈ keys,
      fold.applyTo [k, .vec (membersOf (Value.groupKey columns) z k)] = .ok (.row (result k))) ∧
    out = keys.map fun k => (k.append (.row (result k)), 1)

/-- A single row of weight one: the fold of all entries if there are any, and otherwise the row of
no rows. -/
def ZSet.OneRow (calls : List AggregateCall) (fold : Expr) (z out : ZSet) : Prop :=
  (z = [] → out = [(.row (calls.map AggregateCall.emptyResult), 1)]) ∧
    (z ≠ [] → ∃ values, fold.applyTo [.row [], .vec (List.map member z)] = .ok (.row values) ∧
      out = [(.row values, 1)])

/-- Without columns there is one group at most, and all entries are in it. -/
theorem ZSet.OneRowPerGroup.of_no_columns {fold : Expr} {out : ZSet}
    (h : z.OneRowPerGroup [] fold out) :
    (z = [] → out = []) ∧ (z ≠ [] → ∃ values,
      fold.applyTo [.row [], .vec (List.map member z)] = .ok (.row values) ∧
        out = [(.row values, 1)]) := by
  obtain ⟨keys, result, hkeys, hfold, rfl⟩ := h
  have hkey : ∀ entry ∈ z, Value.groupKey [] entry.1 = .row [] := fun _ _ => rfl
  constructor
  · rintro rfl
    rw [hkeys.eq_nil, List.map_nil]
  · intro hne
    obtain rfl := hkeys.eq_singleton hkey hne
    have hall : membersOf (Value.groupKey []) z (.row []) = List.map member z := by
      rw [membersOf, List.filter_eq_self.mpr fun entry hentry => ?_]
      exact Value.row_same_iff.mpr .nil
    refine ⟨result (.row []), ?_, rfl⟩
    rw [← hall]
    exact hfold _ (List.mem_singleton_self _)

namespace Lower

/-- **Groups.** The map behind the aggregating operator gives one row for each group. -/
theorem stream_oneRowPerGroup {keyTypes : List Ty} {valueType output : Ty} {key fold flatten : Expr}
    {t₁ t₂ : Lowering} {indexed folded : OperatorId} {resultType : Ty}
    (hrow : t'.circuit.Fills t.circuit.size tables row) (hwidth : keyTypes.length = columns.length)
    (htypes : schema.types = keyTypes ++ calls.map AggregateCall.type)
    (hkey : groupFunction s columns = .ok key)
    (hfold : foldFunction (.tuple keyTypes) valueType calls = .ok (fold, resultType))
    (hflatten : flattenFunction (.tuple keyTypes) resultType columns.length calls.length schema =
      .ok flatten)
    (hindexed : (append (·.addIndex i key (.tuple keyTypes) valueType)).Gives t indexed t₁)
    (hfolded : (append (·.addAggregate indexed fold (.tuple keyTypes) resultType)).Gives t₁ folded
      t₂)
    (hmapped : (append (·.addMap folded flatten output)).Gives t₂ id t')
    (hz : z.Distinct) (hsupport : ZSet.support z = z) (hi : row[i]? = some z) :
    (∀ entry ∈ z, entry.1.HasKey columns) ∧
      ∃ out, row[id]? = some out ∧ z.OneRowPerGroup columns fold out := by
  have e₁ : t₁.circuit.Extends t.circuit := extending_append t indexed t₁ hindexed
  have e₂ : t₂.circuit.Extends t₁.circuit := extending_append t₁ folded t₂ hfolded
  have e₃ : t'.circuit.Extends t₂.circuit := extending_append t₂ id t' hmapped
  obtain ⟨hhas, hindex⟩ := stream_groupIndex (hrow.mono le_rfl (e₃.trans e₂)) hindexed hkey hz
    hsupport hi
  obtain ⟨out, hout, haggregate⟩ := stream_transform rfl (hrow.mono e₁.size_le e₃) hfolded hindex
  obtain ⟨keys, result, hgrouped, hresult, rfl⟩ := ZSet.aggregate_eq_ok haggregate
  obtain ⟨rfl, hshape⟩ := foldFunction_eq_ok hfold
  -- every fold is a row
  have hvalues (k : Value) (hk : k ∈ keys) :
      result k = .row (result k).components ∧ (result k).components.length = calls.length := by
    obtain ⟨values, hfound, hlength⟩ := hshape _ _ (hresult k hk)
    rw [hfound]
    exact ⟨rfl, hlength⟩
  have hkeys (k : Value) (hk : k ∈ keys) :
      ∃ fields, k = .row fields ∧ fields.length = columns.length := by
    obtain ⟨entry, hentry, rfl⟩ := hgrouped.to_entry k hk
    exact (hhas entry hentry).exists_groupKey
  have hrows : (keys.map fun k => (Value.row [k, result k], (1 : Int))) =
      keys.map fun k => (.row [k, .row (result k).components], 1) :=
    List.map_congr_left fun k hk => by rw [← (hvalues k hk).1]
  rw [hrows] at hout
  have hflat := stream_flatten (hrow.mono (e₂.trans e₁).size_le (.refl _)) hmapped hflatten htypes
    hwidth hgrouped.distinct hkeys (fun k hk => (hvalues k hk).2) hout
  refine ⟨hhas, _, hflat, keys, fun k => (result k).components, hgrouped, fun k hk => ?_, rfl⟩
  rw [hresult k hk, (hvalues k hk).1]

/-- **Aggregates.** The operators of an aggregate give one row for each group, and without group
columns a single row. -/
theorem stream_aggregate {keyTypes : List Ty} {fold : Expr} {resultType : Ty}
    (hrow : t'.circuit.Fills t.circuit.size tables row)
    (h : (aggregate i s columns calls schema).Gives t id t')
    (hkeyTypes : groupKeyTypes s columns = .ok keyTypes)
    (hfold : foldFunction (.tuple keyTypes) s.rowType calls = .ok (fold, resultType))
    (htypes : schema.types = keyTypes ++ calls.map AggregateCall.type)
    (hz : z.Distinct) (hsupport : ZSet.support z = z) (hi : row[i]? = some z) :
    (∀ entry ∈ z, entry.1.HasKey columns) ∧ ∃ out, row[id]? = some out ∧
      (columns ≠ [] → z.OneRowPerGroup columns fold out) ∧
      (columns = [] → z.OneRow calls fold out) := by
  obtain ⟨types, key, fold', resultType', flatten, indexed, t₁, folded, t₂, mapped, t₃, htypes',
    hkey, hfold', hflatten, hindexed, hfolded, hmapped, hlast⟩ := gives_aggregate h
  obtain rfl := Except.ok.inj (hkeyTypes.symm.trans htypes')
  obtain ⟨rfl, rfl⟩ := Prod.mk.inj (Except.ok.inj (hfold.symm.trans hfold'))
  have hwidth : keyTypes.length = columns.length := (List.mapM_eq_ok.mp hkeyTypes).length_eq.symm
  have e₃ : t₃.circuit.Extends t.circuit :=
    ((extending_append t₂ mapped t₃ hmapped).trans (extending_append t₁ folded t₂ hfolded)).trans
      (extending_append t indexed t₁ hindexed)
  have e₄ : t'.circuit.Extends t₃.circuit := by
    split at hlast
    · exact extending_orDefaultRow t₃ id t' hlast
    · exact extending_pure t₃ id t' hlast
  obtain ⟨hhas, out, hout, hgroups⟩ := stream_oneRowPerGroup (hrow.mono le_rfl e₄) hwidth htypes
    hkey hfold hflatten hindexed hfolded hmapped hz hsupport hi
  refine ⟨hhas, ?_⟩
  cases columns with
  | cons column columns =>
    obtain ⟨rfl, rfl⟩ := gives_pure.mp hlast
    exact ⟨out, hout, fun _ => hgroups, nofun⟩
  | nil =>
    -- the row of no rows takes the place of the one group exactly if there is no entry
    obtain ⟨hempty, hone⟩ := hgroups.of_no_columns
    obtain ⟨hdefault, hkept⟩ :=
      stream_orDefaultRow (hrow.mono e₃.size_le (.refl _)) hlast hout
    by_cases hne : z = []
    · exact ⟨_, hdefault (hempty hne), nofun, fun _ => ⟨fun _ => rfl, fun h => absurd hne h⟩⟩
    · obtain ⟨values, hvalues, hsingle⟩ := hone hne
      exact ⟨_, hkept _ hsingle, nofun,
        fun _ => ⟨fun h => absurd h hne, fun _ => ⟨values, hvalues, rfl⟩⟩⟩

end Lower

/-- **Aggregates give one row per group.** An aggregate that is lowered, and whose schema repeats
the types of its group columns and of its calls, has operators of its own behind those of its input.
Whenever these run on an input without weights of zero, all rows have the group columns. With at
least one of them, the stream of the node has one row for every group, and without any it has a
single row in any case. -/
theorem Plan.lower_aggregate {input : Plan} {keyTypes : List Ty}
    (h : (Plan.aggregate input columns calls schema).lower.Gives t id t')
    (hkeyTypes : Lower.groupKeyTypes input.schema columns = .ok keyTypes)
    (htypes : schema.types = keyTypes ++ calls.map AggregateCall.type) :
    ∃ (t₁ : Lowering) (i : OperatorId) (fold : Expr) (resultType : Ty), input.lower.Gives t i t₁ ∧
      foldFunction (.tuple keyTypes) input.schema.rowType calls = .ok (fold, resultType) ∧
      ∀ (tables : Tables) (outputs row : Row) (state state' : RunState) (z : ZSet),
        outputs.length = t₁.circuit.size → outputs[i]? = some z → z.Distinct →
        (∀ entry ∈ z, entry.2 ≠ 0) →
        runOperators tables (t'.circuit.numbered.drop t₁.circuit.size) outputs state =
          (.ok row, state') →
        (∀ entry ∈ z, entry.1.HasKey columns) ∧ ∃ out, row[id]? = some out ∧
          (columns ≠ [] → z.OneRowPerGroup columns fold out) ∧
          (columns = [] → z.OneRow calls fold out) := by
  rw [Plan.lower] at h
  obtain ⟨i, t₁, hinput, haggregate⟩ := gives_bind.mp h
  obtain ⟨types, key, fold, resultType, -, -, -, -, -, -, -, htypes', -, hfold, -⟩ :=
    Lower.gives_aggregate haggregate
  obtain rfl := Except.ok.inj (hkeyTypes.symm.trans htypes')
  refine ⟨t₁, i, fold, resultType, hinput, hfold, ?_⟩
  intro tables outputs row state state' z hlength hi hz hnonzero hrun
  obtain ⟨hfront, hrow⟩ := fills_of_runOperators hlength hrun
  have hsupport : ZSet.support z = z :=
    List.filter_eq_self.mpr fun entry hentry => decide_eq_true (hnonzero entry hentry)
  exact Lower.stream_aggregate hrow haggregate hkeyTypes hfold htypes hz hsupport
    (getElem?_of_front hfront hi)

namespace Plan

/-! #### Totals of customers -/

def sales : Schema := ⟨[⟨"CUSTOMER", { Ty.i32 with nullable := true }⟩, ⟨"AMOUNT", .i32⟩]⟩

/-- The number of sales and their sum, for each customer. -/
def customerTotals : Plan :=
  .aggregate (.scan "SALES" sales) [0]
    [⟨.count, none, .i64⟩, ⟨.sum, some 1, { Ty.i64 with nullable := true }⟩]
    ⟨[⟨"CUSTOMER", { Ty.i32 with nullable := true }⟩, ⟨"COUNT", .i64⟩,
      ⟨"TOTAL", { Ty.i64 with nullable := true }⟩]⟩

/-- A circuit with the table. -/
def till : Lowering where
  circuit := ⟨"till", [⟨.source "SALES" sales.rowType, [], none, .zset sales.rowType, true⟩]⟩
  tables := [("SALES", ⟨0, sales⟩)]
  diagnostics := []

def someSales : ZSet :=
  [(.row [.int 1, .int 20], 2), (.row [.null, .int 30], 1), (.row [.int 1, .int 5], 1),
    (.row [.null, .int 1], -1)]

def totals : ZSet :=
  [(.row [.int 1, .int 3, .int 45], 1), (.row [.null, .int 0, .int 29], 1)]

/-- Sales of unknown customers make up one group, and weights count. -/
theorem lower_aggregate_customerTotals :
    ∃ fold row, runOperators [] ((customerTotals.lower till).2.circuit.numbered.drop 1)
        [someSales] .start = (.ok row, .start) ∧ row[3]? = some totals ∧
      someSales.OneRowPerGroup [0] fold totals := by
  have hlower : customerTotals.lower.Gives till 3 (customerTotals.lower till).2 := rfl
  obtain ⟨t₁, i, fold, resultType, hinput, -, haggregate⟩ := lower_aggregate hlower rfl rfl
  obtain ⟨rfl, _, hfound, -, rfl⟩ := Lower.gives_scan hinput
  cases hfound
  have hdistinct : someSales.Distinct := by
    unfold ZSet.Distinct Weighted.Distinct
    decide
  obtain ⟨-, out, hout, hgroups, -⟩ := haggregate [] [someSales] _ .start .start someSales rfl rfl
    hdistinct (by decide) rfl
  obtain rfl : totals = out := Option.some.inj hout
  exact ⟨fold, _, rfl, rfl, hgroups (List.cons_ne_nil _ _)⟩

end Plan

end DeltaCircuit
