import DeltaCircuit.Proofs.Circuit.Distinct
import DeltaCircuit.Proofs.Eval.Twins
import DeltaCircuit.Proofs.ZSetOperation

/-!
# Sums over a Z-set

The weight that an operation gives to a value is a sum over the entries of its input. Such a sum is
taken in the order of the entries and over whatever represents a value in the input. If the values
are exact and what is summed up does not tell twins apart, it depends on the weight function of the
input alone, and is linear in it.

* `ZSet.sumBy` — the sum of a function over the entries, each taken with its weight.
* `ZSet.ExactMap`, `Value.Blind` — Z-sets, and functions on values, for which this works.
* `ZSet.sumBy_add`, `ZSet.sumBy_congr` — sums are linear in the weight function.
* `ZSet.weight_of_map`, `ZSet.weight_of_filterBy`, `ZSet.weight_of_join` — the weights that
  operations give, as sums.
-/

namespace DeltaCircuit

/-- What a function gives, and NULL where it fails. -/
def Expr.result (f : Expr) (args : List Value) : Value := (f.applyTo args).toOption.getD .null

theorem Expr.result_eq {f : Expr} {args : List Value} {v : Value} (h : f.applyTo args = .ok v) :
    f.result args = v := by
  rw [Expr.result, h]
  rfl

/-- A function of values that does not tell twins apart. -/
def Value.Blind {α : Type} (g : Value → α) : Prop := ∀ u v : Value, u.Twins v → g u = g v

/-- What an exact function gives on twins are twins, also where it fails. -/
theorem Expr.Exact.result {f : Expr} (hf : f.Exact) {args args' : List Value}
    (hargs : List.Forall₂ Value.Twins args args') : (f.result args).Twins (f.result args') := by
  have hback : List.Forall₂ Value.Twins args' args :=
    List.forall₂_iff_get.mpr ⟨hargs.length_eq.symm, fun i h h' => (hargs.get h' h).symm⟩
  cases h : f.applyTo args with
  | ok v =>
    obtain ⟨v', h', hv⟩ := hf.applyTo hargs v h
    rw [Expr.result_eq h, Expr.result_eq h']
    exact hv
  | error e =>
    cases h' : f.applyTo args' with
    | ok v' =>
      obtain ⟨v, hv, -⟩ := hf.applyTo hback v' h'
      rw [h] at hv
      cases hv
    | error e' =>
      rw [Expr.result, Expr.result, h, h']
      exact Value.twins_null

namespace ZSet

variable {z out x y : ZSet} {entries more : List (Value × Int)} {v : Value} {f : Expr}

/-- All values are exact. -/
def Exact (entries : ZSet) : Prop := ∀ entry ∈ entries, entry.1.isExact = true

/-- A map all of whose values are exact. -/
structure ExactMap (z : ZSet) : Prop where
  distinct : z.Distinct
  exact : z.Exact

instance (z : ZSet) : Decidable z.ExactMap :=
  decidable_of_iff (List.Pairwise _ z ∧ ∀ entry ∈ z, entry.1.isExact = true)
    ⟨fun h => ⟨h.1, h.2⟩, fun h => ⟨h.distinct, h.exact⟩⟩

theorem exactMap_nil : ExactMap [] := ⟨Weighted.distinct_nil, nofun⟩

/-! ### Sums -/

/-- The sum of a function over the entries, each taken with its weight. -/
def sumBy (g : Value → Int) (entries : List (Value × Int)) : Int :=
  (entries.map fun entry => entry.2 * g entry.1).sum

@[simp] theorem sumBy_nil (g : Value → Int) : sumBy g [] = 0 := rfl

@[simp] theorem sumBy_cons (g : Value → Int) (entry : Value × Int) :
    sumBy g (entry :: entries) = entry.2 * g entry.1 + sumBy g entries := by
  simp [sumBy]

theorem sumBy_append (g : Value → Int) :
    sumBy g (entries ++ more) = sumBy g entries + sumBy g more := by
  simp [sumBy]

theorem total_append (v : Value) :
    total (entries ++ more) v = total entries v + total more v := by
  simp [total]

/-- The entries with the opposite weights. -/
def opposite (entries : List (Value × Int)) : List (Value × Int) :=
  entries.map fun entry => (entry.1, -entry.2)

theorem sumBy_opposite (g : Value → Int) : sumBy g (opposite entries) = -sumBy g entries := by
  induction entries with
  | nil => rfl
  | cons entry entries ih =>
    rw [opposite, List.map_cons, sumBy_cons, sumBy_cons, ← opposite, ih]
    ring

theorem total_opposite (v : Value) : total (opposite entries) v = -total entries v := by
  induction entries with
  | nil => rfl
  | cons entry entries ih =>
    rw [opposite, List.map_cons, total_cons, total_cons, ← opposite, ih]
    split <;> ring

theorem Exact.opposite (h : Exact entries) : Exact (opposite entries) := by
  intro entry hentry
  obtain ⟨other, hother, rfl⟩ := List.mem_map.mp hentry
  exact h other hother

theorem Exact.append (h : Exact entries) (h' : Exact more) : Exact (entries ++ more) :=
  List.forall_mem_append.mpr ⟨h, h'⟩

theorem sumBy_filter_add (g : Value → Int) (p : Value → Bool) :
    sumBy g (entries.filter fun entry => p entry.1) +
      sumBy g (entries.filter fun entry => !p entry.1) = sumBy g entries := by
  induction entries with
  | nil => rfl
  | cons entry entries ih =>
    rw [sumBy_cons, ← ih, List.filter_cons, List.filter_cons]
    cases p entry.1 <;> simp <;> ring

/-- The entries of one value add up to its weight. -/
theorem sumBy_filter_same {g : Value → Int} (hg : Value.Blind g) (hexact : Exact entries) :
    sumBy g (entries.filter fun entry => entry.1.same v) = g v * total entries v := by
  induction entries with
  | nil => simp
  | cons entry entries ih =>
    obtain ⟨hentry, hrest⟩ := List.forall_mem_cons.mp hexact
    rw [List.filter_cons, total_cons, Int.mul_add, ← ih hrest]
    split
    · next hsame =>
      rw [sumBy_cons, hg entry.1 v (Value.twins_iff.mpr ⟨hsame, hentry⟩), Int.mul_comm]
    · rw [Int.mul_zero, Int.zero_add]

/-- Without the entries of one value, all other values have the weight that they had. -/
theorem total_filter_other (u v : Value) :
    total (entries.filter fun entry => !entry.1.same v) u =
      if u.same v then 0 else total entries u := by
  induction entries with
  | nil => simp
  | cons entry entries ih =>
    rw [List.filter_cons, total_cons]
    by_cases hu : u.same v = true
    · rw [if_pos hu] at ih ⊢
      split
      · next hother =>
        -- what is not the same as `v` is not the same as `u` either
        have hne : entry.1.same u = false := by
          rw [Bool.eq_false_iff]
          intro hsame
          have htrans := Value.same_equivalence.trans hsame hu
          rw [htrans] at hother
          cases hother
        rw [total_cons, ih, hne, if_neg Bool.false_ne_true, Int.add_zero]
      · exact ih
    · rw [if_neg hu] at ih ⊢
      split
      · rw [total_cons, ih]
      · next hsame =>
        have hsame : entry.1.same v = true := by simpa using hsame
        have hne : ¬ entry.1.same u = true := fun h =>
          hu (Value.same_equivalence.trans (Value.same_equivalence.symm h) hsame)
        rw [ih, if_neg hne, Int.zero_add]

/-- **Nothing adds up to nothing.** If the entries give no value a weight, whatever they add up to
is zero. -/
theorem sumBy_eq_zero {g : Value → Int} (hg : Value.Blind g) (hexact : Exact entries)
    (h : ∀ v, total entries v = 0) : sumBy g entries = 0 := by
  induction hn : entries.length using Nat.strong_induction_on generalizing entries with
  | h n ih =>
    cases entries with
    | nil => rfl
    | cons entry rest =>
      -- the entries of the first value cancel, and those of other values are fewer
      have hself : entry.1.same entry.1 = true := Value.same_equivalence.refl _
      have hclass := sumBy_filter_same (v := entry.1) hg hexact
      have hothers : sumBy g ((entry :: rest).filter fun other => !other.1.same entry.1) = 0 := by
        refine ih _ ?_ (fun other hother => hexact other (List.mem_of_mem_filter hother))
          (fun v => ?_) rfl
        · rw [← hn, List.filter_cons, hself]
          exact Nat.lt_succ_of_le (List.length_filter_le _ _)
        · rw [total_filter_other, h v, ite_self]
      rw [← sumBy_filter_add g fun v => v.same entry.1, hclass, hothers, h entry.1, Int.mul_zero,
        Int.add_zero]

/-- **Sums are linear.** If the weights of a Z-set are sums of the weights of two others, whatever
it adds up to is the sum of what these add up to. -/
theorem sumBy_add {g : Value → Int} (hg : Value.Blind g) (hz : z.ExactMap) (hx : x.ExactMap)
    (hy : y.ExactMap) (h : ∀ v, z.weight v = x.weight v + y.weight v) :
    sumBy g z = sumBy g x + sumBy g y := by
  have hzero : sumBy g (z ++ (opposite x ++ opposite y)) = 0 := by
    refine sumBy_eq_zero hg (hz.exact.append (hx.exact.opposite.append hy.exact.opposite))
      fun v => ?_
    rw [total_append, total_append, total_opposite, total_opposite, hz.distinct.total_eq_weight,
      hx.distinct.total_eq_weight, hy.distinct.total_eq_weight, h v]
    ring
  rw [sumBy_append, sumBy_append, sumBy_opposite, sumBy_opposite] at hzero
  omega

/-- Z-sets of the same weights add up to the same. -/
theorem sumBy_congr {g : Value → Int} (hg : Value.Blind g) (hx : x.ExactMap) (hy : y.ExactMap)
    (h : ∀ v, x.weight v = y.weight v) : sumBy g x = sumBy g y := by
  have hsum := sumBy_add hg hx hy exactMap_nil fun v => (h v).trans (Int.add_zero _).symm
  rwa [sumBy_nil, Int.add_zero] at hsum

/-! ### Operations -/

theorem weightWhere_eq_sumBy (p : Value → Bool) :
    weightWhere p entries = sumBy (fun u => if p u then 1 else 0) entries := by
  refine congrArg List.sum (List.map_congr_left fun entry _ => ?_)
  dsimp only
  split <;> simp

theorem pairWeight_eq_sumBy (p : Value → Value → Bool) (left right : List (Value × Int)) :
    pairWeight p left right =
      sumBy (fun l => sumBy (fun r => if p l r then 1 else 0) right) left := by
  refine congrArg List.sum (List.map_congr_left fun l _ => ?_)
  dsimp only
  rw [sumBy, ← List.sum_map_mul_left]
  refine congrArg List.sum (List.map_congr_left fun r _ => ?_)
  split <;> simp

/-- A map gives a value the weights of all values that it makes it of. -/
theorem weight_of_map (h : z.map f = .ok out) (v : Value) :
    out.weight v = sumBy (fun u => if (f.result [u]).same v then 1 else 0) z := by
  have hadded : addAll [] (List.map (fun entry => (f.result [entry.1], entry.2)) z) = .ok out :=
    @map_eq_ok z out f (fun u => f.result [u]) (fun _ _ _ hv => (Expr.result_eq hv).symm) h
  calc out.weight v
      = 0 + total (List.map (fun entry => (f.result [entry.1], entry.2)) z) v :=
        weight_of_addAll Weighted.distinct_nil hadded v
    _ = weightWhere (fun u => (f.result [u]).same v) z := by
        rw [Int.zero_add]
        exact @total_map_eq z v fun u => f.result [u]
    _ = sumBy (fun u => if (f.result [u]).same v then 1 else 0) z := weightWhere_eq_sumBy _

/-- An index is a map to pairs. -/
theorem map_of_index (h : z.index f = .ok out) : z.map f = .ok out := by
  refine List.foldlM_ok_mono (fun entry _ found next hnext => ?_) h
  obtain ⟨value, hvalue, hnext⟩ := Except.bind_eq_ok.mp hnext
  obtain ⟨pair, hpair, hadd⟩ := Except.bind_eq_ok.mp hnext
  refine Except.bind_eq_ok.mpr ⟨value, hvalue, ?_⟩
  unfold Value.pair at hpair
  split at hpair
  · obtain rfl := Except.ok.inj hpair
    exact hadd
  · cases hpair

/-- A filter gives a value its weight or nothing. -/
theorem weight_of_filterBy (hd : z.Distinct) (h : z.filterBy f = .ok out) (v : Value) :
    out.weight v = sumBy (fun u => if f.accepts u && u.same v then 1 else 0) z := by
  calc out.weight v
      = weightWhere (·.same v) out := ((distinct_of_filterBy h).total_eq_weight v).symm
    _ = weightWhere (fun u => f.accepts u && u.same v) z := by
        rw [filterBy_eq_ok hd h, weightWhere_support, weightWhere_filter]
    _ = sumBy (fun u => if f.accepts u && u.same v then 1 else 0) z := weightWhere_eq_sumBy _

end ZSet

/-! ### Joins -/

namespace Value

/-- The key of a pair. -/
def entryKey (v : Value) : Value :=
  match v with
  | .row [key, _] => key
  | _ => .null

/-- The value that stands next to the key of a pair. -/
def entryContent (v : Value) : Value :=
  match v with
  | .row [_, content] => content
  | _ => .null

theorem pair_eq_ok {v : Value} {pair : Value × Value} (h : v.pair = .ok pair) :
    v = .row [v.entryKey, v.entryContent] := by
  unfold Value.pair at h
  split at h
  · rfl
  · cases h

theorem Twins.entryKey_entryContent {v v' : Value} (h : v.Twins v') :
    v.entryKey.Twins v'.entryKey ∧ v.entryContent.Twins v'.entryContent := by
  by_cases hpair : ∃ k w, v = row [k, w]
  · obtain ⟨k, w, rfl⟩ := hpair
    obtain ⟨_, rfl, _ | ⟨hk, _ | ⟨hw, ⟨⟩⟩⟩⟩ := row_iff.mp h
    exact ⟨hk, hw⟩
  · have hpair' : ¬ ∃ k w, v' = row [k, w] := by
      rintro ⟨k, w, rfl⟩
      obtain ⟨_, rfl, _ | ⟨-, _ | ⟨-, ⟨⟩⟩⟩⟩ := row_iff.mp h.symm
      exact hpair ⟨_, _, rfl⟩
    -- what is no pair has the key and the content NULL
    have hnone {u : Value} (hu : ¬ ∃ k w, u = row [k, w]) :
        u.entryKey = null ∧ u.entryContent = null := by
      unfold entryKey entryContent
      split
      · next k w => exact absurd ⟨k, w, rfl⟩ hu
      · exact ⟨rfl, rfl⟩
    rw [(hnone hpair).1, (hnone hpair').1, (hnone hpair).2, (hnone hpair').2]
    exact ⟨twins_null, twins_null⟩

end Value

namespace ZSet

variable {left right out : ZSet} {f : Expr}

/-- A list of pairs is put together from their keys and contents. -/
theorem paired_entryKey_entryContent {entries : List (Value × Int)}
    (h : ∀ entry ∈ entries, entry.1 = .row [entry.1.entryKey, entry.1.entryContent]) :
    paired Value.entryKey Value.entryContent entries = entries := by
  conv => rhs; rw [← List.map_id entries]
  refine List.map_congr_left fun entry hentry => ?_
  rw [← h entry hentry]
  rfl

theorem pair_of_join (h : left.join right f = .ok out) :
    ∀ entry ∈ left, entry.1 = .row [entry.1.entryKey, entry.1.entryContent] := by
  intro entry hentry
  obtain ⟨found, next, hnext⟩ := List.exists_of_foldlM_ok h hentry
  obtain ⟨pair, hpair, -⟩ := Except.bind_eq_ok.mp hnext
  exact Value.pair_eq_ok hpair

theorem pair_of_join_right (h : left.join right f = .ok out) (hne : left ≠ []) :
    ∀ entry ∈ right, entry.1 = .row [entry.1.entryKey, entry.1.entryContent] := by
  intro entry hentry
  obtain ⟨l, hl⟩ := List.exists_mem_of_ne_nil left hne
  obtain ⟨found, next, hnext⟩ := List.exists_of_foldlM_ok h hl
  obtain ⟨pair, -, hone⟩ := Except.bind_eq_ok.mp hnext
  obtain ⟨found', next', hnext'⟩ := List.exists_of_foldlM_ok hone hentry
  obtain ⟨pair', hpair', -⟩ := Except.bind_eq_ok.mp hnext'
  exact Value.pair_eq_ok hpair'

/-- Whether two entries of a join make a value. -/
def joins (f : Expr) (v l r : Value) : Bool :=
  r.entryKey.same l.entryKey && (f.result [l.entryKey, l.entryContent, r.entryContent]).same v

/-- A join gives a value the products of the weights of all pairs that it makes it of. -/
theorem weight_of_join (h : left.join right f = .ok out) (v : Value) :
    out.weight v =
      sumBy (fun l => sumBy (fun r => if joins f v l r then 1 else 0) right) left := by
  cases hleft : left with
  | nil =>
    rw [hleft] at h
    obtain rfl := Except.ok.inj h
    rfl
  | cons l rest =>
    have hpairs := pair_of_join_right h (by rw [hleft]; exact List.cons_ne_nil l rest)
    rw [← hleft, ← pairWeight_eq_sumBy]
    rw [← paired_entryKey_entryContent (pair_of_join h), ← paired_entryKey_entryContent hpairs] at h
    have hadded : addAll [] (pairs (fun l r => r.entryKey.same l.entryKey)
        (fun l r => f.result [l.entryKey, l.entryContent, r.entryContent]) left right) = .ok out :=
      join_eq_ok (fun _ _ _ _ _ _ hv => (Expr.result_eq hv).symm) h
    calc out.weight v
        = 0 + weightWhere (·.same v) (pairs (fun l r => r.entryKey.same l.entryKey)
            (fun l r => f.result [l.entryKey, l.entryContent, r.entryContent]) left right) :=
          weight_of_addAll Weighted.distinct_nil hadded v
      _ = pairWeight (joins f v) left right := by
          rw [Int.zero_add, weightWhere_pairs]
          rfl

/-! ### Twins -/

/-- Being the same as a value does not tell twins apart. -/
theorem blind_same (v : Value) : Value.Blind fun u => u.same v := by
  intro u u' hu
  exact Weighted.same_congr Value.same_equivalence (Value.twins_iff.mp hu).1 v

/-- An exact condition does not tell twins apart. -/
theorem blind_accepts (hf : f.Exact) : Value.Blind f.accepts := by
  have haccepts (u : Value) : f.accepts u = (f.result [u]).isBool true := by
    rw [Expr.accepts, Expr.result]
    cases f.applyTo [u] <;> rfl
  intro u u' hu
  rw [haccepts, haccepts, (hf.result (.cons hu .nil)).isBool true]

end ZSet
end DeltaCircuit
