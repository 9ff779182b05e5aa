import DeltaCircuit.Proofs.ZSet
import DeltaCircuit.Proofs.ZSetLiteral

/-!
# Adding up by expression and by value

A literal adds up weights by expression, and its contents add them up again by value. Weights may
cancel in either place. If equal expressions have the same value, it makes no difference where they
do: what the entries of a literal give to a value together is what was added for it.

Every sum on the way is a sum of some of the weights. None of them gets out of bounds as long as the
absolute values of all weights together do not.

* `Weighted.sumOver` — what entries count for together, and what one more addition does to it.
* `Weighted.mass`, `Weighted.share` — the absolute values of all weights, and the weights of the
  entries of one value.
* `ZSetLiteral.exists_contents` — the contents of a literal of a small mass.
* `ZSetLiteral.share_of_mergeAll`, `ZSetLiteral.mass_of_mergeAll` — the literal that additions make.
-/

namespace DeltaCircuit

namespace Weighted

variable {α : Type} {same : α → α → Bool} {entries out : List (α × Int)} {x : α} {w : Int}

/-! ### What entries count for -/

/-- What entries count for together. -/
def sumOver (count : α → Int → Int) (entries : List (α × Int)) : Int :=
  (entries.map fun entry => count entry.1 entry.2).sum

variable {count : α → Int → Int}

@[simp] theorem sumOver_nil : sumOver count ([] : List (α × Int)) = 0 := rfl

@[simp] theorem sumOver_cons (entry : α × Int) :
    sumOver count (entry :: entries) = count entry.1 entry.2 + sumOver count entries := by
  simp [sumOver]

theorem sumOver_append (more : List (α × Int)) :
    sumOver count (entries ++ more) = sumOver count entries + sumOver count more := by
  simp [sumOver]

/-- Elements that come with one weight count for it as often as they pass a test. -/
theorem sumOver_countP (p : α → Bool) (w : Int) (xs : List α) :
    sumOver (fun x w => if p x then w else 0) (xs.map (·, w)) = w * xs.countP p := by
  induction xs with
  | nil => simp
  | cons x xs ih =>
    rw [List.map_cons, sumOver_cons, ih, List.countP_cons]
    split <;> push_cast <;> ring

theorem sumOver_put (hzero : count x 0 = 0)
    (hsame : ∀ entry ∈ entries, same entry.1 x = true → count entry.1 = count x) :
    sumOver count (put same entries x w) =
      sumOver count entries - count x (weight same entries x) + count x w := by
  induction entries with
  | nil => simp [put, hzero]
  | cons entry entries ih =>
    obtain ⟨y, v⟩ := entry
    obtain ⟨hfirst, hrest⟩ := List.forall_mem_cons.mp hsame
    rw [put, weight_cons]
    -- the element is found here, and its weight is exchanged
    split
    · next hyx =>
      rw [sumOver_cons, sumOver_cons, hfirst hyx]
      ring
    · -- it is further down, or nowhere
      rw [sumOver_cons, sumOver_cons, ih hrest]
      ring

theorem sumOver_erase (hzero : count x 0 = 0)
    (hsame : ∀ entry ∈ entries, same entry.1 x = true → count entry.1 = count x) :
    sumOver count (erase same entries x) =
      sumOver count entries - count x (weight same entries x) := by
  induction entries with
  | nil => simp [erase, hzero]
  | cons entry entries ih =>
    obtain ⟨y, v⟩ := entry
    obtain ⟨hfirst, hrest⟩ := List.forall_mem_cons.mp hsame
    rw [erase, weight_cons]
    split
    · next hyx =>
      rw [sumOver_cons, hfirst hyx]
      ring
    · rw [sumOver_cons, sumOver_cons, ih hrest]
      ring

/-- **One addition.** If nothing counts for nothing, and what is the same counts the same, an
addition replaces what the element counts for. -/
theorem sumOver_of_add? (count : α → Int → Int) (hzero : count x 0 = 0)
    (hsame : ∀ entry ∈ entries, same entry.1 x = true → count entry.1 = count x)
    (hadd : add? same entries x w = some out) :
    sumOver count out = sumOver count entries - count x (weight same entries x) +
      count x (weight same entries x + w) := by
  rcases add?_cases hadd with ⟨rfl, rfl⟩ | ⟨-, htotal, rfl⟩ | ⟨-, -, -, rfl⟩
  · rw [Int.add_zero, Int.sub_add_cancel]
  · -- the element goes, and a sum of zero counts for nothing
    rw [sumOver_erase hzero hsame, htotal, hzero, Int.add_zero]
  · rw [sumOver_put hzero hsame]

/-! ### Mass -/

/-- The absolute values of all weights together. -/
def mass (entries : List (α × Int)) : Int := sumOver (fun _ w => w.natAbs) entries

@[simp] theorem mass_nil : mass ([] : List (α × Int)) = 0 := rfl

@[simp] theorem mass_cons (entry : α × Int) :
    mass (entry :: entries) = entry.2.natAbs + mass entries := sumOver_cons entry

theorem mass_map (w : Int) (xs : List α) :
    mass (xs.map (·, w)) = w.natAbs * xs.length := by
  induction xs with
  | nil => simp
  | cons x xs ih =>
    rw [List.map_cons, mass_cons, ih, List.length_cons]
    push_cast
    ring

theorem mass_nonneg (entries : List (α × Int)) : 0 ≤ mass entries := by
  induction entries with
  | nil => exact Int.le_refl 0
  | cons entry entries ih =>
    rw [mass_cons]
    omega

/-- An addition brings in no more than its own weight. -/
theorem mass_of_add? (hadd : add? same entries x w = some out) :
    mass out ≤ mass entries + w.natAbs := by
  -- the weights count with their absolute values, for which the triangle inequality holds
  have hmass := sumOver_of_add? (fun _ w => (w.natAbs : Int)) (by simp) (fun _ _ _ => rfl) hadd
  unfold mass
  rw [hmass]
  omega

/-! ### Shares -/

/-- The weights of all entries whose element has a given value, together. -/
def share (value : α → Value) (v : Value) (entries : List (α × Int)) : Int :=
  sumOver (fun x w => if (value x).same v then w else 0) entries

variable {value : α → Value} {v : Value}

@[simp] theorem share_nil : share value v ([] : List (α × Int)) = 0 := rfl

@[simp] theorem share_cons (entry : α × Int) :
    share value v (entry :: entries) =
      (if (value entry.1).same v then entry.2 else 0) + share value v entries := sumOver_cons entry

/-- An addition counts for the value of its element, if equal elements have the same value. -/
theorem share_of_add?
    (hsame : ∀ entry ∈ entries, same entry.1 x = true → (value entry.1).same (value x) = true)
    (hadd : add? same entries x w = some out) :
    share value v out = share value v entries + if (value x).same v then w else 0 := by
  -- only what is added to an equal element counts for its value
  have hcount := sumOver_of_add? (fun x w => if (value x).same v then w else 0) (ite_self 0)
    (fun entry hentry hx => by
      rw [same_congr Value.same_equivalence (hsame entry hentry hx)]) hadd
  unfold share
  rw [hcount]
  split <;> ring

end Weighted

/-! ### Contents -/

/-- The value of a closed expression, and NULL where it has none. -/
def Expr.value (e : Expr) : Value := e.evaluate.toOption.getD .null

theorem Expr.value_eq {e : Expr} {v : Value} (h : e.evaluate = .ok v) : e.value = v := by
  rw [Expr.value, h]
  rfl

open Weighted (mass share isWeight)

/-- Entries whose elements have values can be added to a Z-set, as long as no weight can get out of
bounds. -/
theorem ZSet.exists_addValues {entries : List (Expr × Int)}
    (hvalues : ∀ entry ∈ entries, ∃ v, entry.1.evaluate = .ok v) {z : ZSet}
    (hz : Weighted.Normal Value.same z)
    (hmass : ∀ v, (z.weight v).natAbs + mass entries < 2 ^ 63) :
    ∃ out, entries.foldlM (fun s entry => do ZSet.add s (← entry.1.evaluate) entry.2) z = .ok out ∧
      Weighted.Normal Value.same out ∧
      ∀ v, ZSet.weight out v = z.weight v + share Expr.value v entries := by
  induction entries generalizing z with
  | nil => exact ⟨z, rfl, hz, fun v => by simp⟩
  | cons entry entries ih =>
    obtain ⟨⟨u, hu⟩, hrest⟩ := List.forall_mem_cons.mp hvalues
    have hnonneg := Weighted.mass_nonneg entries
    simp only [Weighted.mass_cons] at hmass
    -- the new weight of the value is bounded by the mass of what is still to be added
    have hfits : isWeight (Weighted.weight Value.same z u + entry.2) = true := by
      have hbound := hmass u
      unfold ZSet.weight at hbound
      rw [Weighted.isWeight_iff]
      omega
    obtain ⟨next, hadd⟩ := hz.exists_add?_iff.mpr hfits
    have hnext : z.add u entry.2 = .ok next := ZSet.add_eq_ok.mpr hadd
    have hweight := ZSet.weight_of_add hz.distinct hnext
    -- the new Z-set and the rest of the entries still keep below the bound
    obtain ⟨out, hout, hnormal, hshare⟩ := ih hrest (hz.add? hadd) fun v => by
      have hbound := hmass v
      rw [hweight v]
      split <;> omega
    refine ⟨out, ?_, hnormal, fun v => ?_⟩
    · rw [List.foldlM_cons, hu, Except.ok_bind, hnext]
      exact hout
    · rw [hshare v, hweight v, Weighted.share_cons, Expr.value_eq hu]
      ring

namespace ZSetLiteral

/-- **Contents.** A literal whose elements have values has contents, if the mass of its entries is a
weight. They give every value what the entries of the literal give it together. -/
theorem exists_contents {literal : ZSetLiteral}
    (hvalues : ∀ entry ∈ literal.entries, ∃ v, entry.1.evaluate = .ok v)
    (hmass : mass literal.entries < 2 ^ 63) :
    ∃ z, literal.contents = .ok z ∧ Weighted.Normal Value.same z ∧
      ∀ v, ZSet.weight z v = share Expr.value v literal.entries := by
  -- the contents start from nothing, whose weights are all zero
  have hempty : Weighted.Normal Value.same ([] : ZSet) := ⟨Weighted.distinct_nil, nofun, nofun⟩
  obtain ⟨z, hz, hnormal, hweight⟩ := ZSet.exists_addValues hvalues hempty fun v => by
    simpa [ZSet.weight] using hmass
  refine ⟨z, hz, hnormal, fun v => ?_⟩
  rw [hweight v, ZSet.weight, Weighted.weight_nil, Int.zero_add]

/-! ### Additions -/

variable {y z : ZSetLiteral} {elements : List (Expr × Int)}

/-- The elements of a literal are among those that were added. -/
theorem forall_of_mergeAll {P : Expr → Prop} (hy : ∀ entry ∈ y.entries, P entry.1)
    (helements : ∀ element ∈ elements, P element.1) (h : y.mergeAll elements = .ok z) :
    ∀ entry ∈ z.entries, P entry.1 := by
  refine List.foldlM_ok_induction_of_mem (fun z => ∀ entry ∈ z.entries, P entry.1) ?_ hy h
  intro element helement z next hz hmerge entry hentry
  -- an entry of the sum was there before, or its element has been added
  rcases Weighted.eq_or_exists_of_mem_add? (merge_eq_ok.mp hmerge).1 hentry
    with heq | ⟨other, hother, heq⟩
  · rw [heq]
    exact helements element helement
  · rw [← heq]
    exact hz other hother

/-- **Mass.** Additions bring in no more than their own weights. -/
theorem mass_of_mergeAll (h : y.mergeAll elements = .ok z) :
    mass z.entries ≤ mass y.entries + mass elements := by
  induction elements generalizing y with
  | nil =>
    obtain rfl := Except.ok.inj h
    simp
  | cons element elements ih =>
    obtain ⟨next, hnext, hrest⟩ := mergeAll_cons_eq_ok.mp h
    have hadd := Weighted.mass_of_add? (merge_eq_ok.mp hnext).1
    have hmass := ih hrest
    rw [Weighted.mass_cons]
    omega

/-- **Shares.** Additions give every value their weights, if those of the elements that are equal
have the same value. -/
theorem share_of_mergeAll {P : Expr → Prop}
    (hsame : ∀ a b, P a → P b → a.equal b = true → a.value.same b.value = true)
    (hy : ∀ entry ∈ y.entries, P entry.1) (helements : ∀ element ∈ elements, P element.1)
    (h : y.mergeAll elements = .ok z) (v : Value) :
    share Expr.value v z.entries =
      share Expr.value v y.entries + share Expr.value v elements := by
  -- what may be assumed of the elements is kept, which the additions to come rely on
  induction elements generalizing y with
  | nil =>
    obtain rfl := Except.ok.inj h
    simp
  | cons element elements ih =>
    obtain ⟨next, hnext, hrest⟩ := mergeAll_cons_eq_ok.mp h
    obtain ⟨helement, helements⟩ := List.forall_mem_cons.mp helements
    have hadd := Weighted.share_of_add? (v := v)
      (fun entry hentry hequal => hsame _ _ (hy entry hentry) helement hequal)
      (merge_eq_ok.mp hnext).1
    have hkept : ∀ entry ∈ next.entries, P entry.1 :=
      forall_of_mergeAll hy (List.forall_mem_singleton.mpr helement)
        (mergeAll_cons_eq_ok.mpr ⟨next, hnext, rfl⟩)
    rw [ih hkept helements hrest, hadd, Weighted.share_cons]
    ring

end ZSetLiteral
end DeltaCircuit
