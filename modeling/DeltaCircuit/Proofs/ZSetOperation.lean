import DeltaCircuit.Circuit.Run
import DeltaCircuit.Proofs.ZSet
import Mathlib.Algebra.BigOperators.Ring.List

/-!
# Operations on Z-sets, entry by entry

The operations of a circuit run through the entries of a Z-set and add what they make of each one to
an empty Z-set. As long as the values that are added are pairwise different, the outcome is just the
list of them, without the entries of weight zero.

* `ZSet.addAll`, `ZSet.addAll_of_distinct` — adding entries one by one.
* `ZSet.filterBy_eq_ok`, `ZSet.index_eq_ok`, `ZSet.map_eq_ok`, `ZSet.join_eq_ok` — the operations.
* `ZSet.weightWhere`, `ZSet.pairWeight` — the weight of all values, or pairs, with a property.
* `ZSet.weight_distinct`, `ZSet.once_distinct` — the values of positive weight, each once.
-/

namespace DeltaCircuit

/-- Whether a closure answers true on a row. -/
def Expr.accepts (function : Expr) (row : Value) : Bool :=
  match function.applyTo [row] with
  | .ok v => v.isBool true
  | .error _ => false

namespace ZSet

variable {z out : ZSet} {entries : List (Value × Int)} {v : Value}

/-! ### Adding entries -/

/-- Adds entries one by one. -/
def addAll (z : ZSet) (entries : List (Value × Int)) : Except EvalError ZSet :=
  entries.foldlM (fun out entry => out.add entry.1 entry.2) z

/-- The entries with a weight other than zero. -/
def support (entries : List (Value × Int)) : List (Value × Int) :=
  entries.filter fun entry => entry.2 ≠ 0

theorem addAll_cons_eq_ok {entry : Value × Int} :
    z.addAll (entry :: entries) = .ok out ↔
      ∃ next, z.add entry.1 entry.2 = .ok next ∧ next.addAll entries = .ok out := by
  unfold addAll
  rw [List.foldlM_cons, Except.bind_eq_ok]

theorem addAll_append_eq_ok {more : List (Value × Int)} :
    z.addAll (entries ++ more) = .ok out ↔
      ∃ next, z.addAll entries = .ok next ∧ next.addAll more = .ok out := by
  unfold addAll
  rw [List.foldlM_append, Except.bind_eq_ok]

theorem weight_of_addAll (hd : z.Distinct) (h : z.addAll entries = .ok out) (v : Value) :
    out.weight v = z.weight v + total entries v := by
  induction entries generalizing z with
  | nil =>
    obtain rfl := Except.ok.inj h
    simp
  | cons entry entries ih =>
    obtain ⟨next, hnext, hrest⟩ := addAll_cons_eq_ok.mp h
    rw [ih (hd.add hnext) hrest, weight_of_add hd hnext, total_cons]
    ring

theorem distinct_of_addAll (hd : z.Distinct) (h : z.addAll entries = .ok out) : out.Distinct :=
  List.foldlM_ok_induction Distinct (fun _ _ _ hd hadd => hd.add hadd) hd h

/-- A new value is put behind the others, unless its weight is zero. -/
theorem add_of_fresh {w : Int} (hfresh : ∀ entry ∈ z, entry.1.same v = false)
    (h : z.add v w = .ok out) : out = z ++ support [(v, w)] := by
  have hcases := Weighted.add?_cases (add_eq_ok.mp h)
  -- nothing stands under the value so far, so its new weight is the added one
  rw [Weighted.weight_eq_zero hfresh, Int.zero_add] at hcases
  rcases hcases with ⟨rfl, rfl⟩ | ⟨hw, hzero, -⟩ | ⟨hw, -, -, rfl⟩
  · simp [support]
  · exact absurd hzero hw
  · rw [Weighted.put_of_fresh hfresh]
    simp [support, hw]

/-- **New entries.** Entries that are pairwise different, and different from what is there, are put
behind it. -/
theorem addAll_of_distinct (hd : Distinct (z ++ entries)) (h : z.addAll entries = .ok out) :
    out = z ++ support entries := by
  induction entries generalizing z with
  | nil =>
    obtain rfl := Except.ok.inj h
    simp [support]
  | cons entry entries ih =>
    obtain ⟨next, hnext, hrest⟩ := addAll_cons_eq_ok.mp h
    obtain ⟨-, -, hacross⟩ := List.pairwise_append.mp hd
    have hfresh : ∀ other ∈ z, other.1.same entry.1 = false := fun other hother =>
      hacross other hother entry List.mem_cons_self
    obtain rfl := add_of_fresh hfresh hnext
    -- the entries that are left are still different from all that have been added
    have hsublist : (z ++ support [entry] ++ entries).Sublist (z ++ entry :: entries) := by
      rw [List.append_assoc]
      exact (List.Sublist.refl z).append (List.filter_sublist.append (List.Sublist.refl entries))
    rw [ih (hd.sublist hsublist) hrest, List.append_assoc, support, support, support,
      ← List.filter_append]
    rfl

/-- Different values that are added once each are all there. -/
theorem addAll_once {α : Type} {as : List α} {value : α → Value}
    (hd : as.Pairwise fun a b => (value a).same (value b) = false)
    (h : addAll [] (as.map fun a => (value a, 1)) = .ok out) :
    out = as.map fun a => (value a, 1) := by
  have hdistinct : Distinct ([] ++ as.map fun a => (value a, 1)) := List.pairwise_map.mpr hd
  rw [addAll_of_distinct hdistinct h, List.nil_append, support]
  exact List.filter_eq_self.mpr (by simp)

theorem support_support : support (support entries) = support entries := by
  rw [support, support, List.filter_filter]
  simp only [Bool.and_self]

theorem mem_support {entry : Value × Int} :
    entry ∈ support entries ↔ entry ∈ entries ∧ entry.2 ≠ 0 := by
  rw [support, List.mem_filter, decide_eq_true_eq]

/-- Steps that each add some entries add all of them together. -/
theorem foldlM_eq_addAll {α : Type} {step : ZSet → α → Except EvalError ZSet}
    {added : α → List (Value × Int)} {as : List α}
    (hstep : ∀ a ∈ as, ∀ z out, step z a = .ok out → z.addAll (added a) = .ok out)
    (h : as.foldlM step z = .ok out) : z.addAll (as.flatMap added) = .ok out := by
  induction as generalizing z with
  | nil => exact h
  | cons a as ih =>
    rw [List.foldlM_cons, Except.bind_eq_ok] at h
    obtain ⟨next, hnext, hrest⟩ := h
    have hadded := hstep a List.mem_cons_self z next hnext
    rw [List.flatMap_cons]
    exact addAll_append_eq_ok.mpr
      ⟨next, hadded, ih (fun b hb => hstep b (List.mem_cons_of_mem a hb)) hrest⟩

/-! ### Operations -/

variable {f : Expr}

theorem applyTo_of_filterBy (h : z.filterBy f = .ok out) {entry : Value × Int}
    (hentry : entry ∈ z) : ∃ v, f.applyTo [entry.1] = .ok v := by
  obtain ⟨found, next, hnext⟩ := List.exists_of_foldlM_ok h hentry
  obtain ⟨v, hv, -⟩ := Except.bind_eq_ok.mp hnext
  exact ⟨v, hv⟩

/-- **Filters.** A filter keeps the accepted entries. -/
theorem filterBy_eq_ok (hd : z.Distinct) (h : z.filterBy f = .ok out) :
    out = support (z.filter fun entry => f.accepts entry.1) := by
  have hstep (entry : Value × Int) (_ : entry ∈ z) (found next : ZSet) (hnext : (do
      let keep ← f.applyTo [entry.1]
      if keep.isBool true then found.add entry.1 entry.2 else return found) = .ok next) :
      found.addAll (if f.accepts entry.1 then [entry] else []) = .ok next := by
    obtain ⟨v, hv, hnext⟩ := Except.bind_eq_ok.mp hnext
    have haccepts : f.accepts entry.1 = v.isBool true := by
      unfold Expr.accepts
      rw [hv]
    rw [haccepts]
    split
    · rename_i htrue
      rw [if_pos htrue] at hnext
      exact addAll_cons_eq_ok.mpr ⟨next, hnext, rfl⟩
    · rename_i hfalse
      rw [if_neg hfalse] at hnext
      exact hnext
  -- the entries that the filter adds are different, as all entries were
  have hadded := foldlM_eq_addAll hstep h
  rw [List.flatMap_if, List.map_id'] at hadded
  exact addAll_of_distinct (hd.sublist List.filter_sublist) hadded

theorem applyTo_of_map (h : z.map f = .ok out) {entry : Value × Int} (hentry : entry ∈ z) :
    ∃ v, f.applyTo [entry.1] = .ok v := by
  obtain ⟨found, next, hnext⟩ := List.exists_of_foldlM_ok h hentry
  obtain ⟨v, hv, -⟩ := Except.bind_eq_ok.mp hnext
  exact ⟨v, hv⟩

/-- **Maps.** A map adds the value of every entry. -/
theorem map_eq_ok {value : Value → Value}
    (hvalue : ∀ entry ∈ z, ∀ v, f.applyTo [entry.1] = .ok v → v = value entry.1)
    (h : z.map f = .ok out) :
    addAll [] (List.map (fun entry => (value entry.1, entry.2)) z) = .ok out := by
  have hstep (entry : Value × Int) (hentry : entry ∈ z) (found next : ZSet)
      (hnext : (do found.add (← f.applyTo [entry.1]) entry.2) = .ok next) :
      found.addAll [(value entry.1, entry.2)] = .ok next := by
    obtain ⟨v, hv, hadd⟩ := Except.bind_eq_ok.mp hnext
    obtain rfl := hvalue entry hentry v hv
    exact addAll_cons_eq_ok.mpr ⟨next, hadd, rfl⟩
  have hadded := foldlM_eq_addAll hstep h
  rwa [← List.map_eq_flatMap] at hadded

/-- Entries turned into pairs of a key and a value. -/
def paired (key value : Value → Value) (entries : List (Value × Int)) : List (Value × Int) :=
  entries.map fun entry => (.row [key entry.1, value entry.1], entry.2)

/-- Entries next to their keys. -/
abbrev keyed (key : Value → Value) (entries : List (Value × Int)) : List (Value × Int) :=
  paired key (fun row => row) entries

theorem support_paired {key value : Value → Value} :
    support (paired key value entries) = paired key value (support entries) := by
  rw [support, paired, List.filter_map]
  rfl

/-- Pairs are told apart by what tells the entries apart. -/
theorem distinct_paired {key value : Value → Value} (hd : Distinct entries)
    (hsame : ∀ a ∈ entries, ∀ b ∈ entries, (key a.1).same (key b.1) = true →
      (value a.1).same (value b.1) = true → a.1.same b.1 = true) :
    Distinct (paired key value entries) := by
  refine List.pairwise_map.mpr (hd.imp_of_mem fun {a b} ha hb hab => ?_)
  rw [Bool.eq_false_iff, ne_eq, Value.row_same_iff]
  rintro (_ | ⟨hkey, _ | ⟨hvalue, -⟩⟩)
  rw [hsame a ha b hb hkey hvalue] at hab
  cases hab

theorem support_keyed {key : Value → Value} :
    support (keyed key entries) = keyed key (support entries) := support_paired

theorem distinct_keyed {key : Value → Value} (hd : Distinct entries) :
    Distinct (keyed key entries) :=
  distinct_paired hd fun _ _ _ _ _ hvalue => hvalue

theorem applyTo_of_index (h : z.index f = .ok out) {entry : Value × Int} (hentry : entry ∈ z) :
    ∃ v, f.applyTo [entry.1] = .ok v := by
  obtain ⟨found, next, hnext⟩ := List.exists_of_foldlM_ok h hentry
  obtain ⟨v, hv, -⟩ := Except.bind_eq_ok.mp hnext
  exact ⟨v, hv⟩

/-- **Indices.** An index turns every entry into a pair. -/
theorem index_eq_ok {key value : Value → Value} (hd : Distinct (paired key value z))
    (hpair : ∀ entry ∈ z, ∀ v, f.applyTo [entry.1] = .ok v →
      v = .row [key entry.1, value entry.1])
    (h : z.index f = .ok out) : out = support (paired key value z) := by
  have hstep (entry : Value × Int) (hentry : entry ∈ z) (found next : ZSet) (hnext : (do
      let pair ← (← f.applyTo [entry.1]).pair
      found.add (.row [pair.1, pair.2]) entry.2) = .ok next) :
      found.addAll [(.row [key entry.1, value entry.1], entry.2)] = .ok next := by
    obtain ⟨v, hv, hnext⟩ := Except.bind_eq_ok.mp hnext
    obtain rfl := hpair entry hentry v hv
    exact addAll_cons_eq_ok.mpr ⟨next, hnext, rfl⟩
  have hadded := foldlM_eq_addAll hstep h
  rw [← List.map_eq_flatMap] at hadded
  exact addAll_of_distinct hd hadded

/-! ### Joins -/

/-- The pairs of entries with a property, each combined into one entry. -/
def pairs (p : Value → Value → Bool) (combine : Value → Value → Value)
    (left right : List (Value × Int)) : List (Value × Int) :=
  left.flatMap fun l => (right.filter fun r => p l.1 r.1).map fun r =>
    (combine l.1 r.1, l.2 * r.2)

variable {left right : List (Value × Int)}

theorem joinOne_eq_ok {key value : Value → Value} {combine : Value → Value} {k l : Value} {w : Int}
    (hf : ∀ r ∈ right, (key r.1).same k = true → ∀ v,
      f.applyTo [k, l, value r.1] = .ok v → v = combine r.1)
    (h : joinOne f k l w (paired key value right) z = .ok out) :
    z.addAll ((right.filter fun r => (key r.1).same k).map fun r => (combine r.1, w * r.2)) =
      .ok out := by
  have hstep (r : Value × Int) (hr : r ∈ right) (found next : ZSet) (hnext : (do
      let pair ← (Value.row [key r.1, value r.1]).pair
      if pair.1.same k then
        let joined ← f.applyTo [k, l, pair.2]
        if Weighted.isWeight (w * r.2) then found.add joined (w * r.2)
        else throw EvalError.weightOverflow
      else return found) = .ok next) :
      found.addAll (if (key r.1).same k then [(combine r.1, w * r.2)] else []) = .ok next := by
    obtain ⟨_, hpair, hnext⟩ := Except.bind_eq_ok.mp hnext
    obtain rfl := Except.ok.inj hpair
    dsimp only at hnext
    split
    · rename_i hsame
      rw [if_pos hsame] at hnext
      obtain ⟨v, hv, hnext⟩ := Except.bind_eq_ok.mp hnext
      obtain rfl := hf r hr hsame v hv
      split at hnext
      · exact addAll_cons_eq_ok.mpr ⟨next, hnext, rfl⟩
      · cases hnext
    · rename_i hsame
      rw [if_neg hsame] at hnext
      exact hnext
  -- step by step, the fold adds the entries whose keys are the same
  unfold joinOne paired at h
  rw [List.foldlM_map] at h
  have hadded := foldlM_eq_addAll hstep h
  rwa [List.flatMap_if] at hadded

/-- **Joins.** A join adds the combined entries of equal keys. -/
theorem join_eq_ok {kl kr vl vr : Value → Value} {combine : Value → Value → Value}
    (hf : ∀ l ∈ left, ∀ r ∈ right, (kr r.1).same (kl l.1) = true → ∀ v,
      f.applyTo [kl l.1, vl l.1, vr r.1] = .ok v → v = combine l.1 r.1)
    (h : join (paired kl vl left) (paired kr vr right) f = .ok out) :
    addAll [] (pairs (fun l r => (kr r).same (kl l)) combine left right) = .ok out := by
  unfold join at h
  rw [paired.eq_def kl, List.foldlM_map] at h
  refine foldlM_eq_addAll (fun l hl found next hnext => ?_) h
  obtain ⟨_, hpair, hnext⟩ := Except.bind_eq_ok.mp hnext
  obtain rfl := Except.ok.inj hpair
  exact joinOne_eq_ok (hf l hl) hnext

theorem mem_pairs {p : Value → Value → Bool} {combine : Value → Value → Value}
    {entry : Value × Int} : entry ∈ pairs p combine left right ↔
      ∃ l ∈ left, ∃ r ∈ right, p l.1 r.1 = true ∧ (combine l.1 r.1, l.2 * r.2) = entry := by
  simp only [pairs, List.mem_flatMap, List.mem_map, List.mem_filter, and_assoc]

/-- Different pairs give different entries, if the parts of a pair can be told from it. -/
theorem distinct_pairs {p : Value → Value → Bool} {combine : Value → Value → Value}
    (hl : Distinct left) (hr : Distinct right)
    (hparts : ∀ l ∈ left, ∀ r ∈ right, ∀ l' ∈ left, ∀ r' ∈ right,
      (combine l.1 r.1).same (combine l'.1 r'.1) = true →
        l.1.same l'.1 = true ∧ r.1.same r'.1 = true) :
    Distinct (pairs p combine left right) := by
  refine List.pairwise_flatMap.mpr ⟨fun l hmem => ?_, ?_⟩
  · -- the entries of one left row differ on the right
    refine List.pairwise_map.mpr ((hr.sublist List.filter_sublist).imp_of_mem ?_)
    intro r r' hr hr' hdiffer
    rw [Bool.eq_false_iff]
    intro hsame
    have hparts := hparts l hmem r (List.mem_of_mem_filter hr) l hmem r'
      (List.mem_of_mem_filter hr') hsame
    exact Bool.false_ne_true (hdiffer.symm.trans hparts.2)
  -- the entries of two left rows differ on the left
  · refine hl.imp_of_mem fun {l l'} hmem hmem' hdiffer entry hentry entry' hentry' => ?_
    obtain ⟨r, hr, rfl⟩ := List.mem_map.mp hentry
    obtain ⟨r', hr', rfl⟩ := List.mem_map.mp hentry'
    rw [Bool.eq_false_iff]
    intro hsame
    have hparts := hparts l hmem r (List.mem_of_mem_filter hr) l' hmem' r'
      (List.mem_of_mem_filter hr') hsame
    exact Bool.false_ne_true (hdiffer.symm.trans hparts.1)

/-! ### Weights of properties -/

/-- The weight of all values with a property. -/
def weightWhere (p : Value → Bool) (entries : List (Value × Int)) : Int :=
  (entries.map fun entry => if p entry.1 then entry.2 else 0).sum

/-- The weight of all pairs of values with a property. -/
def pairWeight (p : Value → Value → Bool) (left right : List (Value × Int)) : Int :=
  (left.map fun l => (right.map fun r => if p l.1 r.1 then l.2 * r.2 else 0).sum).sum

variable {p q : Value → Bool} {pp qq : Value → Value → Bool}

/-- Items that are left out count as zero. -/
theorem sum_filter {α : Type} (keep : α → Bool) (weigh : α → Int) (as : List α) :
    ((as.filter keep).map weigh).sum = (as.map fun a => if keep a then weigh a else 0).sum := by
  induction as with
  | nil => rfl
  | cons a as ih =>
    rw [List.filter_cons, List.map_cons, List.sum_cons, ← ih]
    split <;> simp

theorem weightWhere_filter :
    weightWhere p (entries.filter fun entry => q entry.1) =
      weightWhere (fun v => q v && p v) entries := by
  rw [weightWhere, sum_filter, weightWhere]
  simp only [Bool.and_eq_true, ite_and]

theorem weightWhere_support : weightWhere p (support entries) = weightWhere p entries := by
  rw [weightWhere, support, sum_filter, weightWhere]
  congr 1
  refine List.map_congr_left fun entry _ => ?_
  by_cases hw : entry.2 = 0 <;> simp [hw]

theorem weightWhere_congr (h : ∀ entry ∈ entries, p entry.1 = q entry.1) :
    weightWhere p entries = weightWhere q entries :=
  congrArg List.sum (List.map_congr_left fun entry hentry => by rw [h entry hentry])

theorem total_map_eq {value : Value → Value} :
    total (entries.map fun entry => (value entry.1, entry.2)) v =
      weightWhere (fun u => (value u).same v) entries := by
  rw [total, List.map_map]
  rfl

theorem weightWhere_pairs {combine : Value → Value → Value} :
    weightWhere p (pairs pp combine left right) =
      pairWeight (fun l r => pp l r && p (combine l r)) left right := by
  induction left with
  | nil => rfl
  | cons l left ih =>
    have hrow : weightWhere p ((right.filter fun r => pp l.1 r.1).map fun r =>
        (combine l.1 r.1, l.2 * r.2)) =
        (right.map fun r => if pp l.1 r.1 && p (combine l.1 r.1) then l.2 * r.2 else 0).sum := by
      rw [weightWhere, List.map_map, sum_filter]
      simp only [Bool.and_eq_true, ite_and, Function.comp_apply]
    rw [pairs, List.flatMap_cons, weightWhere, List.map_append, List.sum_append]
    exact congrArg₂ (· + ·) hrow ih

theorem pairWeight_congr (h : ∀ l ∈ left, ∀ r ∈ right, l.2 * r.2 ≠ 0 → pp l.1 r.1 = qq l.1 r.1) :
    pairWeight pp left right = pairWeight qq left right := by
  refine congrArg List.sum (List.map_congr_left fun l hl => ?_)
  refine congrArg List.sum (List.map_congr_left fun r hr => ?_)
  by_cases hw : l.2 * r.2 = 0
  · rw [hw, ite_self, ite_self]
  · rw [h l hl r hr hw]

theorem pairWeight_filter :
    pairWeight pp (left.filter fun l => p l.1) (right.filter fun r => q r.1) =
      pairWeight (fun l r => p l && q r && pp l r) left right := by
  rw [pairWeight, sum_filter, pairWeight]
  refine congrArg List.sum (List.map_congr_left fun l _ => ?_)
  rw [sum_filter]
  cases p l.1 <;> simp [ite_and]

theorem pairWeight_support :
    pairWeight pp (support left) (support right) = pairWeight pp left right := by
  rw [pairWeight, support.eq_def left, sum_filter, pairWeight]
  refine congrArg List.sum (List.map_congr_left fun l _ => ?_)
  rw [support, sum_filter]
  by_cases hl : l.2 = 0
  · simp [hl]
  · rw [if_pos (by simpa using hl)]
    refine congrArg List.sum (List.map_congr_left fun r _ => ?_)
    by_cases hr : r.2 = 0 <;> simp [hr]

/-- The weight of pairs whose parts have a property each is the product of the weights. -/
theorem pairWeight_and :
    pairWeight (fun l r => p l && q r) left right = weightWhere p left * weightWhere q right := by
  rw [weightWhere.eq_def p, ← List.sum_map_mul_right, pairWeight]
  refine congrArg List.sum (List.map_congr_left fun l _ => ?_)
  rw [weightWhere, ← List.sum_map_mul_left]
  refine congrArg List.sum (List.map_congr_left fun r _ => ?_)
  cases p l.1 <;> cases q r.1 <;> simp

/-- In a join of rows with themselves, weights are multiplied. -/
theorem pairWeight_same {other : ZSet} (hz : z.Distinct) (ho : other.Distinct) (v : Value) :
    pairWeight (fun l r => r.same l && l.same v) z other = z.weight v * other.weight v := by
  have hparts (l r : Value) : (r.same l && l.same v) = (l.same v && r.same v) := by
    rw [Bool.and_comm]
    by_cases hl : l.same v = true
    · -- what is the same as a row is the same as any row that is
      rw [hl, Bool.true_and, Bool.true_and, Weighted.same_comm Value.same_equivalence r l,
        Weighted.same_congr Value.same_equivalence hl,
        Weighted.same_comm Value.same_equivalence v r]
    · rw [Bool.eq_false_iff.mpr hl, Bool.false_and, Bool.false_and]
  calc pairWeight (fun l r => r.same l && l.same v) z other
      = pairWeight (fun l r => l.same v && r.same v) z other :=
        pairWeight_congr fun l _ r _ _ => hparts l.1 r.1
    _ = weightWhere (·.same v) z * weightWhere (·.same v) other :=
        pairWeight_and (p := (·.same v)) (q := (·.same v))
    _ = z.weight v * other.weight v :=
        congrArg₂ (· * ·) (hz.total_eq_weight v) (ho.total_eq_weight v)

/-! ### Values of positive weight -/

/-- What is put for the values of positive weight, on top of what is there. -/
theorem weight_foldl_put (hd : z.Distinct) (found : ZSet) (v : Value) :
    weight (z.foldl (fun out entry => if 0 < entry.2 then out.put entry.1 1 else out) found) v =
      if 0 < weight z v then 1 else found.weight v := by
  induction z generalizing found with
  | nil => rfl
  | cons entry z ih =>
    obtain ⟨hfresh, hd⟩ := Weighted.distinct_cons.mp hd
    have hput : weight (found.put entry.1 1) v =
        if entry.1.same v then 1 else found.weight v :=
      Weighted.weight_put Value.same_equivalence found entry.1 1 v
    have hentry : weight (entry :: z) v = if entry.1.same v then entry.2 else weight z v :=
      Weighted.weight_cons entry.1 entry.2 z v
    rw [List.foldl_cons, ih hd, hentry]
    by_cases hsame : entry.1.same v
    · -- no entry behind this one speaks of the value
      have hnone : weight z v = 0 :=
        Weighted.weight_eq_zero_of_fresh Value.same_equivalence hsame hfresh
      rw [hnone, if_neg (by decide), if_pos hsame]
      split
      · rw [hput, if_pos hsame]
      · rfl
    · rw [if_neg hsame]
      split
      · rfl
      · split
        · rw [hput, if_neg hsame]
        · rfl

theorem weight_distinct (hd : z.Distinct) (v : Value) :
    z.distinct.weight v = if 0 < z.weight v then 1 else 0 := weight_foldl_put hd [] v

theorem once_distinct : ∀ entry ∈ z.distinct, entry.2 = 1 := by
  -- all that is put has weight one, whatever was there
  have hfold (entries : List (Value × Int)) (found : ZSet)
      (hfound : ∀ entry ∈ found, entry.2 = 1) : ∀ entry ∈ entries.foldl
        (fun out entry => if 0 < entry.2 then out.put entry.1 1 else out) found, entry.2 = 1 := by
    induction entries generalizing found with
    | nil => exact hfound
    | cons entry entries ih =>
      rw [List.foldl_cons]
      refine ih _ ?_
      split
      · intro other hother
        rcases Weighted.mem_or_eq_of_mem_put hother with hold | hnew
        · exact hfound other hold
        · exact hnew
      · exact hfound
  exact hfold z [] nofun

end ZSet

end DeltaCircuit
