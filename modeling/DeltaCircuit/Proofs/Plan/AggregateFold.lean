import DeltaCircuit.Proofs.Plan.FoldRound

/-!
# The fold computes its aggregates

The function of a fold is put together from the call list: one or two accumulators for every
aggregate, with names that end in the position of the call, one loop that updates them, and a row of
results. For any list of aggregates, the fold gives the row of what the aggregates are, and it fails
only where a number on the way is no integer value or an average has rows but no weight.

* `apart_of_named` — the names of the accumulators are pairwise different.
* `AggregateCall.Covered`, `AggregateCall.exists_computedBy` — one aggregate.
* `foldFunction_computes` — all aggregates.
-/

namespace DeltaCircuit

open ZSet (member)

/-! ### Names -/

/-- The digits of a name. -/
def nameDigits (name : String) : List Char := name.toList.filter Char.isDigit

theorem nameDigits_append {stem : String} (hstem : nameDigits stem = []) (position : Nat) :
    nameDigits (stem ++ toString position) = Nat.toDigits 10 position := by
  have hlist : (toString position).toList = Nat.toDigits 10 position := by
    rw [Nat.toString_eq_repr, Nat.toList_repr]
  have hdigits : (Nat.toDigits 10 position).filter Char.isDigit = Nat.toDigits 10 position :=
    List.filter_eq_self.mpr fun c hc => Nat.isDigit_of_mem_toDigits (by decide) (by decide) hc
  rw [nameDigits, String.toList_append, List.filter_append, hlist, hdigits, ← nameDigits, hstem,
    List.nil_append]

/-- The variables of an aggregate are named after its position in the call list. -/
structure LoopPlan.NamedAt (p : LoopPlan) (position : Nat) : Prop where
  distinct : (p.vars.map LoopVariable.name).Nodup
  digits : ∀ x ∈ p.vars, nameDigits x.name = Nat.toDigits 10 position

theorem exists_position {calls : List AggregateCall} {ps : List LoopPlan} {first : Nat}
    (h : List.Forall₂ (fun call p => LoopPlan.NamedAt p call.2) (calls.zipIdx first) ps)
    {x : LoopVariable} (hx : x ∈ ps.flatMap LoopPlan.vars) :
    ∃ position, first ≤ position ∧ nameDigits x.name = Nat.toDigits 10 position := by
  obtain ⟨p, hp, hx⟩ := List.mem_flatMap.mp hx
  obtain ⟨⟨call, position⟩, hcall, hnamed⟩ := h.exists_of_mem_right hp
  exact ⟨position, List.le_snd_of_mem_zipIdx hcall, hnamed.digits x hx⟩

/-- **Names.** Variables that are named after the positions of their aggregates are told apart, for
any number of aggregates. -/
theorem apart_of_named {calls : List AggregateCall} {ps : List LoopPlan} {first : Nat}
    (h : List.Forall₂ (fun call p => LoopPlan.NamedAt p call.2) (calls.zipIdx first) ps) :
    LoopVariable.Apart (ps.flatMap LoopPlan.vars) := by
  have hnodigits (name : String) (hname : nameDigits name = []) :
      ∀ x ∈ ps.flatMap LoopPlan.vars, x.name ≠ name := by
    intro x hx heq
    obtain ⟨position, -, hdigits⟩ := exists_position h hx
    rw [heq, hname] at hdigits
    exact Nat.toDigits_ne_nil hdigits.symm
  refine ⟨?_, fun x hx => ⟨hnodigits "v" rfl x hx, hnodigits "w" rfl x hx, hnodigits "g" rfl x hx⟩⟩
  clear hnodigits
  -- on the call list; the positions of the calls that remain start later
  induction calls generalizing ps first with
  | nil =>
    cases h
    exact List.nodup_nil
  | cons call calls ih =>
    rw [List.zipIdx_cons] at h
    cases h with
    | @cons _ p _ ps hnamed hrest =>
      rw [List.flatMap_cons, List.map_append, List.nodup_append]
      refine ⟨hnamed.distinct, ih hrest, ?_⟩
      -- a name of this aggregate ends in its position, and later ones in later positions
      intro name hname other hother heq
      obtain ⟨x, hx, rfl⟩ := List.mem_map.mp hname
      obtain ⟨y, hy, rfl⟩ := List.mem_map.mp hother
      obtain ⟨position, hle, hdigits⟩ := exists_position hrest hy
      rw [← heq, hnamed.digits x hx] at hdigits
      have hsame : first = position := by
        calc first = Nat.ofDigitChars 10 (Nat.toDigits 10 first) 0 :=
              (Nat.ofDigitChars_toDigits (by decide) (by decide)).symm
          _ = Nat.ofDigitChars 10 (Nat.toDigits 10 position) 0 := by rw [hdigits]
          _ = position := Nat.ofDigitChars_toDigits (by decide) (by decide)
      omega

/-! ### Plans of aggregates -/

namespace LoopPlan

/-- One variable, whose last value is the result. -/
def single (x : LoopVariable) : LoopPlan := ⟨[x], fun values => .ok (values.headD .null)⟩

/-- Two variables, whose quotient is the result. -/
def quotient (x y : LoopVariable) : LoopPlan where
  vars := [x, y]
  finish
    | [l, r] => Value.binary (.arithmetic .div) l r
    | _ => .ok .null

variable {x y : LoopVariable} {group : List (Value × Int)} {rowType : Ty} {e : Expr} {u : Value}

theorem outcome_single : (single x).outcome group = x.run group := by
  rw [outcome, single, List.mapM_cons, List.mapM_nil]
  cases x.run group <;> rfl

theorem outcome_quotient :
    (quotient x y).outcome group = .ok u ↔ ∃ l r, x.run group = .ok l ∧ y.run group = .ok r ∧
      Value.binary (.arithmetic .div) l r = .ok u := by
  rw [outcome, Except.bind_eq_ok]
  simp only [List.mapM_eq_ok]
  constructor
  · rintro ⟨values, hvalues, h⟩
    obtain _ | ⟨hl, _ | ⟨hr, ⟨⟩⟩⟩ := hvalues
    exact ⟨_, _, hl, hr, h⟩
  · rintro ⟨l, r, hl, hr, h⟩
    exact ⟨[l, r], .cons hl (.cons hr .nil), h⟩

theorem realizes_single (htracks : x.Tracks rowType)
    (hresult : ∀ (scopes : Scopes) (group : List (Value × Int)) (value : Value),
      (∀ entry ∈ group, rowType.admits entry.1 = true) → x.run group = .ok value →
      x.accumulator.value.Computes scopes (.ok value) → e.Computes scopes (.ok value)) :
    (single x).Realizes rowType ⟨[x.accumulator], e⟩ where
  accumulators := rfl
  tracks := List.forall_mem_singleton.mpr htracks
  result := by
    intro scopes group values hrows hvalues
    obtain _ | ⟨⟨hfind, hrun⟩, ⟨⟩⟩ := hvalues
    exact hresult scopes group _ hrows hrun (Expr.computes_var hfind)

theorem realizes_quotient (hx : x.Tracks rowType) (hy : y.Tracks rowType)
    (hresult : ∀ (scopes : Scopes) (group : List (Value × Int)) (l r : Value),
      (∀ entry ∈ group, rowType.admits entry.1 = true) → x.run group = .ok l →
      y.run group = .ok r → x.accumulator.value.Computes scopes (.ok l) →
      y.accumulator.value.Computes scopes (.ok r) →
      e.Computes scopes (Value.binary (.arithmetic .div) l r)) :
    (quotient x y).Realizes rowType ⟨[x.accumulator, y.accumulator], e⟩ where
  accumulators := rfl
  tracks := List.forall_mem_cons.mpr ⟨hx, List.forall_mem_singleton.mpr hy⟩
  result := by
    intro scopes group values hrows hvalues
    obtain _ | ⟨⟨hfind, hrun⟩, _ | ⟨⟨hfind', hrun'⟩, ⟨⟩⟩⟩ := hvalues
    exact hresult scopes group _ _ hrows hrun hrun' (Expr.computes_var hfind)
      (Expr.computes_var hfind')

end LoopPlan

/-- At a position of the call list, an aggregate is computed by some variables: they give what the
aggregate is, and they fail just when it has no value. -/
structure AggregateCall.ComputedBy (call : AggregateCall) (rowType : Ty) (position : Nat)
    (p : LoopPlan) : Prop where
  named : p.NamedAt position
  succeeds : ∀ group, (∀ entry ∈ group, rowType.admits entry.1 = true) →
    ((∃ u, p.outcome group = .ok u) ↔ ¬call.Fails group)
  gives : ∀ group u, (∀ entry ∈ group, rowType.admits entry.1 = true) →
    p.outcome group = .ok u → call.Gives group u

/-- What an aggregate is taken of: counts have an integer type, sums and averages have one and are
taken of a column of integers, and a least or a greatest value has the kind of its column, which is
one of integers or of booleans. -/
def AggregateCall.Covered (call : AggregateCall) (rowType : Ty) : Prop :=
  match call.function, call.argument with
  | .count, _ => call.type.isInteger = true
  | .sum, some column | .avg, some column =>
    call.type.isInteger = true ∧ ∃ t, rowType.column? column = some t ∧ t.isInteger = true
  | .min, some column | .max, some column =>
    ∃ t, rowType.column? column = some t ∧ t.kind = call.type.kind ∧
      (t.isInteger = true ∨ t.isBool = true)
  | _, none => True

section

variable {rowType type t : Ty} {column : Nat} {argument : Option Nat} {position : Nat}
  {plan : AggregatePlan}

theorem single_eq_ok {acc : Accumulator} (h : single type acc = .ok plan) :
    ∃ e, Expr.castIfNeeded acc.value type = .ok e ∧ plan = ⟨[acc], e⟩ := by
  obtain ⟨e, he, h⟩ := Except.bind_eq_ok.mp h
  exact ⟨e, he, (Except.ok.inj h).symm⟩

theorem namedAt_single {x : LoopVariable} {stem : String} (hstem : nameDigits stem = [])
    (hname : x.name = stem ++ toString position) : (LoopPlan.single x).NamedAt position where
  distinct := List.pairwise_singleton _ _
  digits := by
    rw [LoopPlan.single, List.forall_mem_singleton, hname]
    exact nameDigits_append hstem position

theorem namedAt_quotient {x y : LoopVariable} {stem stem' : String} (hstem : nameDigits stem = [])
    (hstem' : nameDigits stem' = []) (hne : stem ≠ stem') (hx : x.name = stem ++ toString position)
    (hy : y.name = stem' ++ toString position) : (LoopPlan.quotient x y).NamedAt position where
  distinct := by
    have hnames : x.name ≠ y.name := by
      rw [hx, hy]
      exact fun h => hne (String.append_left_inj _ |>.mp h)
    simpa [LoopPlan.quotient] using hnames
  digits := by
    rw [LoopPlan.quotient, List.forall_mem_cons, List.forall_mem_singleton, hx, hy]
    exact ⟨nameDigits_append hstem position, nameDigits_append hstem' position⟩

/-- Counts. -/
theorem exists_count (hinteger : type.isInteger = true)
    (h : AggregateCall.plan ⟨.count, argument, type⟩ position (groupRow rowType) = .ok plan) :
    ∃ p, AggregateCall.ComputedBy ⟨.count, argument, type⟩ rowType position p ∧
      p.Realizes rowType plan := by
  obtain ⟨nullable, -, h⟩ := Except.bind_eq_ok.mp h
  dsimp only at h
  rw [ofTerm_eq_ok] at h
  obtain ⟨zero, hzero, h⟩ := Except.bind_eq_ok.mp h
  obtain ⟨acc, hacc, h⟩ := Except.bind_eq_ok.mp h
  obtain rfl := Except.ok.inj h
  obtain ⟨hname, htracks⟩ := tracks_count hinteger hzero hacc
  refine ⟨.single ⟨acc, .int 0, countStep argument⟩, ⟨namedAt_single rfl hname, ?_, ?_⟩,
    LoopPlan.realizes_single htracks fun scopes group value _ _ hvalue => hvalue⟩
  · intro group _
    simp only [LoopPlan.outcome_single, run_count_eq_ok, exists_and_left, exists_eq, and_true]
    rfl
  · intro group u _ hu
    rw [LoopPlan.outcome_single, run_count_eq_ok] at hu
    exact hu.2

theorem exists_ofPresent {group : List (Value × Int)} {v : Value} :
    ∃ u, OfPresent column group (· = v) u := by
  unfold OfPresent
  split <;> exact exists_eq

/-- The accumulator of a sum ends with NULL or an integer. -/
theorem convert_sum {group : List (Value × Int)} {u : Value} {w : Int}
    (hinteger : type.isInteger = true) (h : OfPresent column group (· = .int w) u) :
    u.convert type = .ok u := by
  unfold OfPresent at h
  split at h
  · rw [h, Value.convert_null]
  · rw [h, Value.convert_int hinteger]

/-- Sums. -/
theorem exists_sum (hinteger : type.isInteger = true) (hcolumn : rowType.column? column = some t)
    (hcolumnInteger : t.isInteger = true)
    (h : AggregateCall.plan ⟨.sum, some column, type⟩ position (groupRow rowType) = .ok plan) :
    ∃ p, AggregateCall.ComputedBy ⟨.sum, some column, type⟩ rowType position p ∧
      p.Realizes rowType plan := by
  obtain ⟨nullable, hnullable, h⟩ := Except.bind_eq_ok.mp h
  dsimp only at h
  obtain ⟨_, hargument, h⟩ := Except.bind_eq_ok.mp h
  obtain rfl := Except.ok.inj hargument
  rw [ofTerm_eq_ok] at h
  obtain ⟨acc, hacc, h⟩ := Except.bind_eq_ok.mp h
  obtain ⟨e, he, rfl⟩ := single_eq_ok h
  have hnullableInteger : nullable.isInteger = true :=
    (Ty.isInteger_congr (Ty.kind_of_withNullable (ofTerm_eq_ok.mp hnullable))).trans hinteger
  obtain ⟨hname, htracks⟩ := tracks_sum hnullableInteger hcolumn hcolumnInteger hacc
  refine ⟨.single ⟨acc, .null, sumStep column⟩, ⟨namedAt_single rfl hname, ?_, ?_⟩, ?_⟩
  · intro group hrows
    simp only [LoopPlan.outcome_single, exists_and_left,
      run_sum_eq_ok (holdsInts_of_admits hcolumn hcolumnInteger hrows)]
    exact and_iff_left exists_ofPresent
  · intro group u hrows hu
    rw [LoopPlan.outcome_single,
      run_sum_eq_ok (holdsInts_of_admits hcolumn hcolumnInteger hrows)] at hu
    exact hu.2
  · -- the last value is NULL or an integer, which the conversion to the result type keeps
    refine LoopPlan.realizes_single htracks fun scopes group value hrows hrun hvalue => ?_
    have hsum := (run_sum_eq_ok (holdsInts_of_admits hcolumn hcolumnInteger hrows)).mp hrun
    refine hvalue.castIfNeeded (fun u hu => ?_) he
    obtain rfl := Except.ok.inj hu
    exact convert_sum hinteger hsum.2

/-- The values of a column of integers or of booleans are not changed by a conversion to the kind of
the column. -/
theorem convert_column (hcolumn : rowType.column? column = some t)
    (hkind : t.kind = type.kind) (hranked : t.isInteger = true ∨ t.isBool = true) {row : Value}
    (hrow : rowType.admits row = true) :
    (row.column column).convert type = .ok (row.column column) := by
  rcases (Ty.admits_column hcolumn hrow).2 with ⟨hnull, -⟩ | hadmits
  · rw [hnull, Value.convert_null]
  · refine Value.convert_congr hkind.symm ?_
    rcases hranked with hinteger | hbool
    · obtain ⟨i, hi⟩ := Ty.exists_int_of_admits hinteger hadmits
      rw [hi, Value.convert_int hinteger]
    · obtain ⟨b, hb⟩ := Ty.exists_bool_of_admits hbool hadmits
      rw [hb, Value.convert_bool hbool]

theorem holdsRanked_of_admits {group : List (Value × Int)}
    (hcolumn : rowType.column? column = some t)
    (hranked : t.isInteger = true ∨ t.isBool = true)
    (hrows : ∀ entry ∈ group, rowType.admits entry.1 = true) : HoldsRanked column group := by
  rcases hranked with hinteger | hbool
  · exact (holdsInts_of_admits hcolumn hinteger hrows).ranked
  · exact holdsRanked_of_bools fun entry hentry =>
      (Ty.admits_column hcolumn (hrows entry hentry)).2.imp And.left
        (Ty.exists_bool_of_admits hbool)

/-- Least and greatest values. -/
theorem exists_extremum {op : AggregateOp} {side : ComparisonOp} {call : AggregateCall}
    {stem : String} {nullable : Ty} (hside : op.KeepsSide side)
    (hcolumn : rowType.column? column = some t) (hkind : t.kind = call.type.kind)
    (hranked : t.isInteger = true ∨ t.isBool = true)
    (hnullable : call.type.withNullable true = .ok nullable) (hstem : nameDigits stem = [])
    (hfails : ∀ group, ¬call.Fails group)
    (hgives : ∀ group u, OfPresent column group (IsExtremum side column group) u →
      call.Gives group u)
    (h : planExtremum op (stem ++ toString position) (groupRow rowType) column call.type nullable =
      .ok plan) :
    ∃ p, call.ComputedBy rowType position p ∧
      p.Realizes rowType plan := by
  obtain ⟨init, hinit, h⟩ := Except.bind_eq_ok.mp h
  obtain ⟨acc, hacc, h⟩ := Except.bind_eq_ok.mp h
  obtain ⟨e, he, rfl⟩ := single_eq_ok h
  -- the accumulator may be NULL, but has the kind of the column
  have hnullableKind := Ty.kind_of_withNullable hnullable
  obtain ⟨hname, htracks⟩ := tracks_extremum
    (fun row hrow => convert_column hcolumn (hkind.trans hnullableKind.symm) hranked hrow)
    hinit hacc
  have hruns (group : List (Value × Int)) (hrows : ∀ entry ∈ group, rowType.admits entry.1 = true) :
      ∃ u, LoopVariable.run ⟨acc, .null, extremumStep op column⟩ group = .ok u ∧
        OfPresent column group (IsExtremum side column group) u :=
    exists_run_extremum hside (holdsRanked_of_admits hcolumn hranked hrows)
  refine ⟨.single ⟨acc, .null, extremumStep op column⟩, ⟨namedAt_single hstem hname, ?_, ?_⟩, ?_⟩
  · intro group hrows
    obtain ⟨u, hu, -⟩ := hruns group hrows
    rw [LoopPlan.outcome_single]
    exact iff_of_true ⟨u, hu⟩ (hfails group)
  · intro group u hrows hu
    obtain ⟨u', hu', hextremum⟩ := hruns group hrows
    rw [LoopPlan.outcome_single] at hu
    obtain rfl := Except.ok.inj (hu.symm.trans hu')
    exact hgives group u hextremum
  · refine LoopPlan.realizes_single htracks fun scopes group value hrows hrun hvalue => ?_
    refine hvalue.castIfNeeded (fun u hu => ?_) he
    obtain rfl := Except.ok.inj hu
    obtain ⟨u, hu, hextremum⟩ := hruns group hrows
    obtain rfl := Except.ok.inj (hrun.symm.trans hu)
    unfold OfPresent at hextremum
    split at hextremum
    · rw [hextremum, Value.convert_null]
    · -- what is kept is a value of the column
      obtain ⟨⟨entry, hentry, rfl⟩, -⟩ := hextremum
      exact convert_column hcolumn hkind hranked (hrows entry (column_of_mem_present hentry).1)

/-- The variables of an average: a sum and a count. -/
def averagePlan (sum count : Accumulator) (column : Nat) : LoopPlan :=
  .quotient ⟨sum, .null, sumStep column⟩ ⟨count, .int 0, countStep (some column)⟩

theorem outcome_average {sum count : Accumulator} {group : List (Value × Int)} {u : Value}
    (hints : HoldsInts column group) :
    (averagePlan sum count column).outcome group = .ok u ↔
      ¬AggregateCall.Fails ⟨.avg, some column, type⟩ group ∧
        AggregateCall.Gives ⟨.avg, some column, type⟩ group u := by
  simp only [averagePlan, LoopPlan.outcome_quotient, run_sum_eq_ok hints, run_count_eq_ok]
  unfold AggregateCall.Fails AggregateCall.Gives
  dsimp only
  rw [not_or, not_or]
  constructor
  · rintro ⟨l, r, ⟨hsum, hl⟩, ⟨hcount, rfl⟩, h⟩
    obtain ⟨haverage, hu⟩ := (average_eq_ok hl).mp h
    exact ⟨⟨hsum, hcount, haverage⟩, hu⟩
  · rintro ⟨⟨hsum, hcount, haverage⟩, hu⟩
    obtain ⟨l, hl⟩ := exists_ofPresent
    exact ⟨l, _, ⟨hsum, hl⟩, ⟨hcount, rfl⟩, (average_eq_ok hl).mpr ⟨haverage, hu⟩⟩

/-- Averages. -/
theorem exists_average (hinteger : type.isInteger = true)
    (hcolumn : rowType.column? column = some t) (hcolumnInteger : t.isInteger = true)
    (h : AggregateCall.plan ⟨.avg, some column, type⟩ position (groupRow rowType) = .ok plan) :
    ∃ p, AggregateCall.ComputedBy ⟨.avg, some column, type⟩ rowType position p ∧
      p.Realizes rowType plan := by
  obtain ⟨nullable, hnullable, h⟩ := Except.bind_eq_ok.mp h
  dsimp only at h
  obtain ⟨_, hargument, h⟩ := Except.bind_eq_ok.mp h
  obtain rfl := Except.ok.inj hargument
  rw [ofTerm_eq_ok] at h
  obtain ⟨sum, hsum, h⟩ := Except.bind_eq_ok.mp h
  obtain ⟨zero, hzero, h⟩ := Except.bind_eq_ok.mp h
  obtain ⟨count, hcount, h⟩ := Except.bind_eq_ok.mp h
  obtain ⟨divisor, hdivisor, h⟩ := Except.bind_eq_ok.mp h
  obtain ⟨average, haverage, h⟩ := Except.bind_eq_ok.mp h
  obtain ⟨e, he, h⟩ := Except.bind_eq_ok.mp h
  obtain rfl := Except.ok.inj h
  have hnullableInteger : nullable.isInteger = true :=
    (Ty.isInteger_congr (Ty.kind_of_withNullable (ofTerm_eq_ok.mp hnullable))).trans hinteger
  obtain ⟨hsumName, hsumTracks⟩ := tracks_sum hnullableInteger hcolumn hcolumnInteger hsum
  obtain ⟨hcountName, hcountTracks⟩ :
      count.name = "avg_count" ++ toString position ∧
        LoopVariable.Tracks ⟨count, .int 0, countStep (some column)⟩ rowType :=
    tracks_count rfl hzero hcount
  have hints (group : List (Value × Int)) (hrows : ∀ entry ∈ group, rowType.admits entry.1 = true) :
      HoldsInts column group := holdsInts_of_admits hcolumn hcolumnInteger hrows
  refine ⟨averagePlan sum count column,
    ⟨namedAt_quotient rfl rfl (by decide) hsumName hcountName, ?_, ?_⟩, ?_⟩
  · intro group hrows
    have houtcome (u : Value) : (averagePlan sum count column).outcome group = .ok u ↔
        ¬AggregateCall.Fails ⟨.avg, some column, type⟩ group ∧
          AggregateCall.Gives ⟨.avg, some column, type⟩ group u :=
      outcome_average (hints group hrows)
    simp only [houtcome, exists_and_left]
    exact and_iff_left exists_ofPresent
  · exact fun group u hrows hu => ((outcome_average (hints group hrows)).mp hu).2
  · -- the count is converted to the type of the sum, and the quotient to the result type
    refine LoopPlan.realizes_quotient hsumTracks hcountTracks ?_
    intro scopes group l r hrows hrunSum hrunCount hl hr
    obtain ⟨-, hsumValue⟩ := (run_sum_eq_ok (hints group hrows)).mp hrunSum
    obtain ⟨-, rfl⟩ := run_count_eq_ok.mp hrunCount
    rw [Expr.binary_eq_ok haverage] at he
    have hdivisor := hr.castIfNeeded (fun u hu => Except.ok.inj hu ▸
      Value.convert_int hnullableInteger _) hdivisor
    have hquotient : (Expr.ofForm (some nullable)
        (.binary (.arithmetic .div) sum.value divisor)).Computes scopes
          (Value.binary (.arithmetic .div) l (.int (totalWeight (present column group)))) :=
      hl.binary hdivisor
    exact hquotient.castIfNeeded
      (fun u hu => convert_sum hinteger ((average_eq_ok hsumValue).mp hu).2) he

/-- All aggregates but counts are taken of a column. -/
theorem exists_argument {function : AggregateFunction} {row : Expr}
    (h : AggregateCall.plan ⟨function, argument, type⟩ position row = .ok plan)
    (hfunction : function ≠ .count) :
    ∃ column, argument = some column := by
  cases argument with
  | some column => exact ⟨column, rfl⟩
  | none =>
    obtain ⟨nullable, -, h⟩ := Except.bind_eq_ok.mp h
    cases function with
    | count => exact absurd rfl hfunction
    | sum | min | max | avg =>
      obtain ⟨column, hcolumn, -⟩ := Except.bind_eq_ok.mp h
      cases hcolumn

/-- **One aggregate.** The plan of an aggregate that is covered computes what the aggregate is. -/
theorem AggregateCall.exists_computedBy {call : AggregateCall} (hcovered : call.Covered rowType)
    (h : call.plan position (groupRow rowType) = .ok plan) :
    ∃ p, call.ComputedBy rowType position p ∧ p.Realizes rowType plan := by
  obtain ⟨function, argument, type⟩ := call
  cases function with
  | count => exact exists_count hcovered h
  | sum =>
    obtain ⟨column, rfl⟩ := exists_argument h nofun
    obtain ⟨hinteger, t, hcolumn, hcolumnInteger⟩ := hcovered
    exact exists_sum hinteger hcolumn hcolumnInteger h
  | min =>
    obtain ⟨column, rfl⟩ := exists_argument h nofun
    obtain ⟨t, hcolumn, hkind, hranked⟩ := hcovered
    obtain ⟨nullable, hnullable, h⟩ := Except.bind_eq_ok.mp h
    exact exists_extremum (.inl ⟨rfl, rfl⟩) hcolumn hkind hranked (ofTerm_eq_ok.mp hnullable)
      (by decide) (fun _ => id) (fun _ _ => id) (ofTerm_eq_ok.mp h)
  | max =>
    obtain ⟨column, rfl⟩ := exists_argument h nofun
    obtain ⟨t, hcolumn, hkind, hranked⟩ := hcovered
    obtain ⟨nullable, hnullable, h⟩ := Except.bind_eq_ok.mp h
    exact exists_extremum (.inr ⟨rfl, rfl⟩) hcolumn hkind hranked (ofTerm_eq_ok.mp hnullable)
      (by decide) (fun _ => id) (fun _ _ => id) (ofTerm_eq_ok.mp h)
  | avg =>
    obtain ⟨column, rfl⟩ := exists_argument h nofun
    obtain ⟨hinteger, t, hcolumn, hcolumnInteger⟩ := hcovered
    exact exists_average hinteger hcolumn hcolumnInteger h

end

/-! ### All aggregates -/

section

variable {rowType keyType resultType : Ty} {calls : List AggregateCall} {f : Expr}
  {group : List (Value × Int)}

/-- The plans of all aggregates, with the variables that compute them. -/
theorem planAll_computed {plans : List AggregatePlan}
    (h : planAll (groupRow rowType) calls = .ok plans)
    (hcovered : ∀ call ∈ calls, call.Covered rowType) :
    ∃ ps, List.Forall₂ (fun call p => AggregateCall.ComputedBy call.1 rowType call.2 p)
        calls.zipIdx ps ∧
      List.Forall₂ (fun p plan => LoopPlan.Realizes p rowType plan) ps plans := by
  have hplans : List.Forall₂ (fun (call : AggregateCall × Nat) plan =>
      call.1.Covered rowType ∧ call.1.plan call.2 (groupRow rowType) = .ok plan)
      calls.zipIdx plans :=
    (List.forall₂_and_left _ _).mpr
      ⟨fun call hcall => hcovered call.1 (List.fst_mem_of_mem_zipIdx hcall), List.mapM_eq_ok.mp h⟩
  exact List.forall₂_comp.mp
    (hplans.imp fun call plan hplan => AggregateCall.exists_computedBy hplan.1 hplan.2)

/-- **The fold computes its aggregates.** The function of a fold succeeds for a group iff every
aggregate has a value, and it gives the row of these values. -/
theorem foldFunction_computes (h : foldFunction keyType rowType calls = .ok (f, resultType))
    (hcovered : ∀ call ∈ calls, call.Covered rowType) (key : Value)
    (hrows : ∀ entry ∈ group, rowType.admits entry.1 = true) :
    ((∃ v, f.applyTo [key, .vec (group.map member)] = .ok v) ↔
        ∀ call ∈ calls, ¬call.Fails group) ∧
      ∀ v, f.applyTo [key, .vec (group.map member)] = .ok v →
        ∃ values, v = .row values ∧
          List.Forall₂ (fun call u => AggregateCall.Gives call group u) calls values := by
  obtain ⟨plans, hplans, -⟩ := Except.bind_eq_ok.mp h
  obtain ⟨ps, hcomputed, hrealizes⟩ := planAll_computed hplans hcovered
  have hcall (v : Value) : f.applyTo [key, .vec (group.map member)] = .ok v ↔
      ∃ values, v = .row values ∧ List.Forall₂ (fun p u => p.outcome group = .ok u) ps values :=
    foldFunction_applyTo h hplans hrealizes
      (apart_of_named (hcomputed.imp fun _ _ hp => hp.named)) hrows
  -- of an aggregate, its position served for the names only
  have hps : List.Forall₂ (fun (call : AggregateCall) (p : LoopPlan) =>
      ((∃ u, p.outcome group = .ok u) ↔ ¬call.Fails group) ∧
        ∀ u, p.outcome group = .ok u → call.Gives group u) calls ps := by
    rw [← List.zipIdx_map_fst 0 calls, List.forall₂_map_left_iff]
    exact hcomputed.imp fun call p hp =>
      ⟨hp.succeeds group hrows, fun u hu => hp.gives group u hrows hu⟩
  refine ⟨⟨?_, fun hfails => ?_⟩, fun v hv => ?_⟩
  · rintro ⟨v, hv⟩ call hmem
    obtain ⟨values, -, hvalues⟩ := (hcall v).mp hv
    obtain ⟨p, hp, hsucceeds, -⟩ := hps.flip.exists_of_mem_right hmem
    obtain ⟨u, -, hu⟩ := hvalues.flip.exists_of_mem_right hp
    exact hsucceeds.mp ⟨u, hu⟩
  · have hvalues : ∀ p ∈ ps, ∃ u, p.outcome group = .ok u := by
      intro p hp
      obtain ⟨call, hmem, hsucceeds, -⟩ := hps.exists_of_mem_right hp
      exact hsucceeds.mpr (hfails call hmem)
    obtain ⟨values, hvalues⟩ := List.exists_forall₂ hvalues
    exact ⟨.row values, (hcall _).mpr ⟨values, rfl, hvalues⟩⟩
  · obtain ⟨values, rfl, hvalues⟩ := (hcall v).mp hv
    refine ⟨values, rfl, (List.forall₂_comp.mpr ⟨ps, hps, hvalues⟩).imp ?_⟩
    rintro call u ⟨p, ⟨-, hgives⟩, hu⟩
    exact hgives u hu

/-! ### A survey -/

/-- The number of rows, and all aggregates of a column of numbers that may be NULL. -/
def surveyCalls : List AggregateCall :=
  [⟨.count, none, .i64⟩, ⟨.count, some 0, .i64⟩, ⟨.sum, some 0, Expr.integerOrNull⟩,
    ⟨.min, some 0, Expr.integerOrNull⟩, ⟨.max, some 0, Expr.integerOrNull⟩,
    ⟨.avg, some 0, Expr.integerOrNull⟩]

/-- Three rows, one of them without a number and one with a negative weight. -/
def surveyGroup : List (Value × Int) :=
  [(.row [.int 5], 4), (.row [.null], 3), (.row [.int (-7)], -1)]

/-- The survey of the three rows. -/
theorem foldFunction_computes_survey :
    ∃ f type, foldFunction .unit (.tuple [Expr.integerOrNull]) surveyCalls = .ok (f, type) ∧
      (∀ call ∈ surveyCalls, call.Covered (.tuple [Expr.integerOrNull])) ∧
      (∀ entry ∈ surveyGroup, (Ty.tuple [Expr.integerOrNull]).admits entry.1 = true) ∧
      f.applyTo [.unit, .vec (surveyGroup.map member)] =
        .ok (.row [.int 6, .int 3, .int 27, .int (-7), .int 5, .int 9]) ∧
      List.Forall₂ (fun call u => AggregateCall.Gives call surveyGroup u) surveyCalls
        [.int 6, .int 3, .int 27, .int (-7), .int 5, .int 9] := by
  have hcovered : ∀ call ∈ surveyCalls, call.Covered (.tuple [Expr.integerOrNull]) := by
    have hinteger : ∃ t, (Ty.tuple [Expr.integerOrNull]).column? 0 = some t ∧ t.isInteger = true :=
      ⟨_, rfl, rfl⟩
    have hsame : ∃ t, (Ty.tuple [Expr.integerOrNull]).column? 0 = some t ∧
        t.kind = Expr.integerOrNull.kind ∧ (t.isInteger = true ∨ t.isBool = true) :=
      ⟨_, rfl, rfl, .inl rfl⟩
    simp only [surveyCalls, List.forall_mem_cons, List.not_mem_nil, false_imp_iff, implies_true,
      and_true]
    exact ⟨rfl, rfl, ⟨rfl, hinteger⟩, hsame, hsame, ⟨rfl, hinteger⟩⟩
  have hrows : ∀ entry ∈ surveyGroup, (Ty.tuple [Expr.integerOrNull]).admits entry.1 = true := by
    decide
  obtain ⟨f, type, hf, hv⟩ : ∃ f type,
      foldFunction .unit (.tuple [Expr.integerOrNull]) surveyCalls = .ok (f, type) ∧
        f.applyTo [.unit, .vec (surveyGroup.map member)] =
          .ok (.row [.int 6, .int 3, .int 27, .int (-7), .int 5, .int 9]) :=
    ⟨_, _, rfl, rfl⟩
  obtain ⟨values, hvalues, hgives⟩ := (foldFunction_computes hf hcovered .unit hrows).2 _ hv
  obtain rfl := Value.row.inj hvalues
  exact ⟨f, type, hf, hcovered, hrows, hv, hgives⟩

end

end DeltaCircuit
