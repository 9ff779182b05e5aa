import DeltaCircuit.Proofs.Circuit.Invariant

/-!
# Streams carry maps

If the tables are maps, so is every stream of a circuit: to be one is kept by sums.

* `ZSet.invariant_distinct` — values stay pairwise different.
* `Circuit.Emits.distinct` — a whole row.
-/

namespace DeltaCircuit

namespace ZSet

theorem invariant_distinct : Invariant Distinct where
  nil := Weighted.distinct_nil
  add := Distinct.add
  put v h := Weighted.Distinct.put h v 1

variable {z left right out : ZSet} {function : Expr}

theorem distinct_of_filterBy (h : z.filterBy function = .ok out) : out.Distinct :=
  invariant_distinct.filterBy h

theorem distinct_of_aggregate (h : z.aggregate function = .ok out) : out.Distinct :=
  invariant_distinct.aggregate h

theorem distinct_of_join (h : left.join right function = .ok out) : out.Distinct :=
  invariant_distinct.join h

theorem distinct_distinct (z : ZSet) : z.distinct.Distinct := invariant_distinct.distinct z

end ZSet

/-- **Rows of maps.** If the tables are maps, every operator gives a map. -/
theorem Circuit.Emits.distinct {c : Circuit} {past : List Row} {tables : Tables} {row : Row}
    (hrow : c.Emits past tables row) (hc : c.Ordered)
    (htables : ∀ op ∈ c.operators, ∀ table, op.kind.table? = some table →
      ((Assoc.get? tables table).getD [] : ZSet).Distinct)
    {id : Nat} {z : ZSet} (hz : row[id]? = some z) : z.Distinct :=
  ZSet.invariant_distinct.emits hrow hc htables hz

end DeltaCircuit
