import DeltaCircuit.Expr.Build
import DeltaCircuit.Proofs.Expr.Equality
import DeltaCircuit.Proofs.Outcome
import DeltaCircuit.Proofs.Weighted
import DeltaCircuit.ZSetLiteral
import Mathlib.Tactic.Ring

/-!
# The arithmetic of Z-set literals

Whatever is built from literals by their operations is the same as a function from expressions to
weights that is zero almost everywhere: the operations are those of functions, they fail exactly
when a weight does not fit, and two literals are equal when the functions are.

A sum is formed entry by entry and fails at the first weight that does not fit. Since the elements
of a literal are pairwise different, no entry gets in the way of another one, so it does not matter
in which order they come.

* `ZSetLiteral.Constructed` — what the operations build.
* `ZSetLiteral.Normal` — pairwise different elements of one type and weights that are stored.
* `ZSetLiteral.exists_mergeAll_iff`, `ZSetLiteral.weight_of_mergeAll` — sums, entry by entry.
* `ZSetLiteral.equal_iff_weight`, `ZSetLiteral.equal_iff_size` — equality as one of functions, and
  as it is tested on literals of one size.
* `ZSetLiteral.weight_functions` — the arithmetic as one of functions, and its laws.
-/

namespace DeltaCircuit

open Weighted (isWeight)

theorem Weighted.isWeight_iff {w : Int} : isWeight w = true ↔ -2 ^ 63 ≤ w ∧ w < 2 ^ 63 := by
  simp [isWeight]

/-- Of the weights, only the least one has no opposite. -/
theorem Weighted.isWeight_neg_iff {w : Int} (hw : isWeight w = true) :
    isWeight (-w) = true ↔ w ≠ -2 ^ 63 := by
  rw [isWeight_iff] at hw ⊢
  omega

namespace ZSetLiteral

/-- The literals that the operations build. -/
inductive Constructed : ZSetLiteral → Prop
  | empty (elementType : Ty) : Constructed (.empty elementType)
  | ofElements {elements : List Expr} {z : ZSetLiteral} :
    ofElements elements = .ok z → Constructed z
  | addElement {y z : ZSetLiteral} {element : Expr} {weight : Int} :
    Constructed y → y.addElement element weight = .ok z → Constructed z
  | add {x y z : ZSetLiteral} : Constructed x → Constructed y → x.add y = .ok z → Constructed z
  | negate {y z : ZSetLiteral} : Constructed y → y.negate = .ok z → Constructed z
  | minus {x y z : ZSetLiteral} : Constructed x → Constructed y → x.minus y = .ok z → Constructed z

/-- A literal as it is stored. -/
structure Normal (z : ZSetLiteral) : Prop where
  /-- No element occurs twice, no weight is zero, and every weight fits. -/
  stored : Weighted.Normal Expr.equal z.entries
  /-- The elements have the type of the literal. -/
  typed : ∀ entry ∈ z.entries, entry.1.type = some z.elementType

variable {x y z : ZSetLiteral} {e : Expr} {w : Int}

/-! ### One entry -/

theorem merge_eq_ok :
    y.merge e w = .ok z ↔ Weighted.add? Expr.equal y.entries e w = some z.entries ∧
      z.elementType = y.elementType := by
  obtain ⟨type, entries⟩ := y
  obtain ⟨type', entries'⟩ := z
  unfold merge
  cases Weighted.add? Expr.equal entries e w <;> simp [and_comm, eq_comm]

theorem elementType_of_merge (h : y.merge e w = .ok z) : z.elementType = y.elementType :=
  (merge_eq_ok.mp h).2

theorem Normal.merge (hy : y.Normal) (he : e.type = some y.elementType)
    (h : y.merge e w = .ok z) : z.Normal := by
  obtain ⟨hadd, htype⟩ := merge_eq_ok.mp h
  -- the elements of a sum are those of the literal and the new one
  refine ⟨hy.stored.add? hadd, fun entry hentry => ?_⟩
  rw [htype]
  rcases Weighted.eq_or_exists_of_mem_add? hadd hentry with heq | ⟨old, hold, heq⟩
  · rw [heq, he]
  · rw [← heq, hy.typed old hold]

theorem Normal.weight_of_merge (hy : y.Normal) (h : y.merge e w = .ok z) (d : Expr) :
    z.weight d = y.weight d + if e.equal d then w else 0 :=
  Weighted.weight_of_add? Expr.equal_equivalence hy.stored.distinct (merge_eq_ok.mp h).1 d

theorem Normal.exists_merge_iff (hy : y.Normal) :
    (∃ z, y.merge e w = .ok z) ↔ isWeight (y.weight e + w) = true := by
  rw [weight, ← hy.stored.exists_add?_iff]
  constructor
  · rintro ⟨z, hz⟩
    exact ⟨z.entries, (merge_eq_ok.mp hz).1⟩
  · rintro ⟨entries, hentries⟩
    exact ⟨⟨y.elementType, entries⟩, merge_eq_ok.mpr ⟨hentries, rfl⟩⟩

/-! ### All entries of a literal -/

/-- The sum with the entries of a list, one after another. -/
def mergeAll (z : ZSetLiteral) (entries : List (Expr × Int)) : Except TermError ZSetLiteral :=
  entries.foldlM (fun z entry => z.merge entry.1 entry.2) z

variable {entry : Expr × Int} {entries : List (Expr × Int)}

theorem mergeAll_cons_eq_ok :
    y.mergeAll (entry :: entries) = .ok z ↔
      ∃ next, y.merge entry.1 entry.2 = .ok next ∧ next.mergeAll entries = .ok z := by
  unfold mergeAll
  rw [List.foldlM_cons, Except.bind_eq_ok]

theorem elementType_of_mergeAll (h : y.mergeAll entries = .ok z) :
    z.elementType = y.elementType :=
  List.foldlM_ok_induction (fun z => z.elementType = y.elementType)
    (fun _ _ _ heq hmerge => (elementType_of_merge hmerge).trans heq) rfl h

theorem Normal.mergeAll (hy : y.Normal)
    (htyped : ∀ entry ∈ entries, entry.1.type = some y.elementType)
    (h : y.mergeAll entries = .ok z) : z.Normal := by
  induction entries generalizing y with
  | nil =>
    obtain rfl := Except.ok.inj h
    exact hy
  | cons entry entries ih =>
    obtain ⟨next, hnext, hrest⟩ := mergeAll_cons_eq_ok.mp h
    obtain ⟨hentry, hentries⟩ := List.forall_mem_cons.mp htyped
    -- merging keeps the type, so that the entries that are left still fit
    refine ih (hy.merge hentry hnext) ?_ hrest
    rwa [elementType_of_merge hnext]

/-- **Sums.** Merging the entries of a literal adds its weights. -/
theorem Normal.weight_of_mergeAll (hy : y.Normal)
    (htyped : ∀ entry ∈ entries, entry.1.type = some y.elementType)
    (hd : Weighted.Distinct Expr.equal entries) (h : y.mergeAll entries = .ok z) (d : Expr) :
    z.weight d = y.weight d + Weighted.weight Expr.equal entries d := by
  induction entries generalizing y with
  | nil =>
    obtain rfl := Except.ok.inj h
    rw [Weighted.weight_nil, Int.add_zero]
  | cons entry entries ih =>
    obtain ⟨next, hnext, hrest⟩ := mergeAll_cons_eq_ok.mp h
    obtain ⟨hentry, hentries⟩ := List.forall_mem_cons.mp htyped
    obtain ⟨hfresh, hd⟩ := Weighted.distinct_cons.mp hd
    have htyped' : ∀ entry ∈ entries, entry.1.type = some next.elementType := by
      rwa [elementType_of_merge hnext]
    rw [ih (hy.merge hentry hnext) htyped' hd hrest, hy.weight_of_merge hnext,
      Weighted.weight_cons]
    by_cases hsame : entry.1.equal d
    · -- no other entry adds to the weight of this element
      rw [if_pos hsame, if_pos hsame,
        Weighted.weight_eq_zero_of_fresh Expr.equal_equivalence hsame hfresh, Int.add_zero]
    · rw [if_neg hsame, if_neg hsame, Int.add_zero]

/-- **Success.** Different entries can be merged iff each of them can be merged alone. -/
theorem Normal.exists_mergeAll_iff (hy : y.Normal)
    (htyped : ∀ entry ∈ entries, entry.1.type = some y.elementType)
    (hd : Weighted.Distinct Expr.equal entries) :
    (∃ z, y.mergeAll entries = .ok z) ↔
      ∀ entry ∈ entries, isWeight (y.weight entry.1 + entry.2) = true := by
  induction entries generalizing y with
  | nil =>
    refine iff_of_true ⟨y, rfl⟩ fun entry hentry => ?_
    exact absurd hentry List.not_mem_nil
  | cons entry entries ih =>
    obtain ⟨hentry, hentries⟩ := List.forall_mem_cons.mp htyped
    obtain ⟨hfresh, hd⟩ := Weighted.distinct_cons.mp hd
    -- the entries that are left find the weights that they would have found before
    have hrest (next : ZSetLiteral) (hnext : y.merge entry.1 entry.2 = .ok next) :
        (∃ z, next.mergeAll entries = .ok z) ↔
          ∀ other ∈ entries, isWeight (y.weight other.1 + other.2) = true := by
      have htyped' : ∀ entry ∈ entries, entry.1.type = some next.elementType := by
        rwa [elementType_of_merge hnext]
      rw [ih (hy.merge hentry hnext) htyped' hd]
      refine forall₂_congr fun other hother => ?_
      -- no other entry is the same as the first, so their weights are not touched
      rw [hy.weight_of_merge hnext, hfresh other hother]
      simp
    rw [List.forall_mem_cons, ← hy.exists_merge_iff]
    constructor
    · rintro ⟨z, hz⟩
      obtain ⟨next, hnext, hall⟩ := mergeAll_cons_eq_ok.mp hz
      exact ⟨⟨next, hnext⟩, (hrest next hnext).mp ⟨z, hall⟩⟩
    · rintro ⟨⟨next, hnext⟩, hall⟩
      obtain ⟨z, hz⟩ := (hrest next hnext).mpr hall
      exact ⟨z, mergeAll_cons_eq_ok.mpr ⟨next, hnext, hz⟩⟩

/-! ### The operations -/

theorem addElement_eq_ok :
    y.addElement e w = .ok z ↔ e.type = some y.elementType ∧ y.merge e w = .ok z := by
  unfold addElement
  cases htype : e.type with
  | none => simp
  | some type =>
    by_cases heq : type = y.elementType
    · simp [heq]
    · simp [heq]

theorem add_eq_ok :
    x.add y = .ok z ↔ x.elementType = y.elementType ∧ x.mergeAll y.entries = .ok z := by
  unfold add mergeAll
  by_cases heq : y.elementType = x.elementType
  · simp [heq]
  · simp [heq, Ne.symm heq]

/-- The entries with the opposite weights. -/
def opposite (entries : List (Expr × Int)) : List (Expr × Int) :=
  entries.map fun entry => (entry.1, -entry.2)

theorem negate_eq_ok :
    y.negate = .ok z ↔ (∀ entry ∈ y.entries, isWeight (-entry.2) = true) ∧
      z = ⟨y.elementType, opposite y.entries⟩ := by
  unfold negate
  simp only [Except.bind_eq_ok, Except.pure_eq_ok]
  have hentry (entry negated : Expr × Int) :
      (if isWeight (-entry.2) then .ok (entry.1, -entry.2)
        else .error (TermError.weightOverflow entry.1)) = Except.ok negated ↔
      isWeight (-entry.2) = true ∧ negated = (entry.1, -entry.2) := by
    by_cases hfits : isWeight (-entry.2) = true
    · simp [hfits, eq_comm]
    · simp [hfits]
  simp only [List.mapM_checked_eq_ok hentry]
  constructor
  · -- the checks of all entries pass together, and what they give is the opposite entry
    rintro ⟨_, ⟨hfits, rfl⟩, rfl⟩
    exact ⟨hfits, rfl⟩
  · rintro ⟨hfits, rfl⟩
    exact ⟨_, ⟨hfits, rfl⟩, rfl⟩

theorem minus_eq_ok :
    x.minus y = .ok z ↔ ∃ negated, y.negate = .ok negated ∧ x.add negated = .ok z := by
  unfold minus
  rw [Except.bind_eq_ok]

theorem weight_opposite (entries : List (Expr × Int)) (e : Expr) :
    Weighted.weight Expr.equal (opposite entries) e = -Weighted.weight Expr.equal entries e := by
  induction entries with
  | nil => rfl
  | cons entry entries ih =>
    have hcons : opposite (entry :: entries) = (entry.1, -entry.2) :: opposite entries := rfl
    rw [hcons, Weighted.weight_cons, ih, Weighted.weight_cons]
    split <;> rfl

theorem Normal.opposite (hy : y.Normal) (hfits : ∀ entry ∈ y.entries, isWeight (-entry.2) = true) :
    (⟨y.elementType, opposite y.entries⟩ : ZSetLiteral).Normal := by
  have hmem {entry : Expr × Int} (hentry : entry ∈ ZSetLiteral.opposite y.entries) :
      -- an entry of the opposite stands for one of the literal
      ∃ old ∈ y.entries, (old.1, -old.2) = entry := List.mem_map.mp hentry
  refine ⟨⟨?_, fun entry hentry => ?_, fun entry hentry => ?_⟩, fun entry hentry => ?_⟩
  · exact List.pairwise_map.mpr hy.stored.distinct
  · obtain ⟨old, hold, rfl⟩ := hmem hentry
    exact neg_ne_zero.mpr (hy.stored.nonzero old hold)
  · obtain ⟨old, hold, rfl⟩ := hmem hentry
    exact hfits old hold
  · obtain ⟨old, hold, rfl⟩ := hmem hentry
    exact hy.typed old hold

/-- Everything that is built is stored as literals are. -/
theorem Constructed.normal (h : z.Constructed) : z.Normal := by
  have hadded {y z : ZSetLiteral} {element : Expr} {weight : Int} (hy : y.Normal)
      (h : y.addElement element weight = .ok z) : z.Normal := by
    obtain ⟨htype, hmerge⟩ := addElement_eq_ok.mp h
    exact hy.merge htype hmerge
  have hsum {x y z : ZSetLiteral} (hx : x.Normal) (hy : y.Normal) (h : x.add y = .ok z) :
      z.Normal := by
    obtain ⟨htype, hmerge⟩ := add_eq_ok.mp h
    refine hx.mergeAll ?_ hmerge
    rw [htype]
    exact hy.typed
  have hnegated {y z : ZSetLiteral} (hy : y.Normal) (h : y.negate = .ok z) : z.Normal := by
    obtain ⟨hfits, rfl⟩ := negate_eq_ok.mp h
    exact hy.opposite hfits
  have hempty (elementType : Ty) : (ZSetLiteral.empty elementType).Normal :=
    ⟨⟨Weighted.distinct_nil, nofun, nofun⟩, nofun⟩
  induction h with
  | empty elementType => exact hempty elementType
  | @ofElements elements z h =>
    unfold ZSetLiteral.ofElements at h
    split at h
    · cases h
    · split at h
      · cases h
      · -- the elements are added one by one to the empty literal
        exact List.foldlM_ok_induction Normal (fun _ _ _ hz hstep => hadded hz hstep)
          (hempty _) h
  | addElement _ h ih => exact hadded ih h
  | add _ _ h ihx ihy => exact hsum ihx ihy h
  | negate _ h ih => exact hnegated ih h
  | minus _ _ h ihx ihy =>
    obtain ⟨negated, hneg, hadd⟩ := minus_eq_ok.mp h
    exact hsum ihx (hnegated ihy hneg) hadd

/-! ### Equality -/

theorem find?_eq (entries : List (Expr × Int)) (e : Expr) :
    ZSetLiteral.find? entries e = Weighted.find? Expr.equal entries e := by
  induction entries with
  | nil => rfl
  | cons entry entries ih => rw [find?, Weighted.find?, ih]

/-- **Equality.** Two literals are equal iff they have one element type and the same weights. -/
theorem equal_iff_weight (hy : y.Normal) (hz : z.Normal) :
    y.equal z = true ↔ y.elementType = z.elementType ∧ ∀ e, y.weight e = z.weight e := by
  rw [equal_iff]
  refine and_congr_right fun _ => forall_congr' fun e => ?_
  rw [find?_eq, find?_eq, hy.stored.find?_eq, hz.stored.find?_eq, weight, weight]
  constructor
  · intro heq
    split at heq <;> split at heq
    all_goals simp_all
  · intro heq
    rw [heq]

/-- **The test for equality.** Two literals are equal iff they have one element type, equally many
elements, and each element of the first has its weight in the second. -/
theorem equal_iff_size (hy : y.Normal) (hz : z.Normal) :
    y.equal z = true ↔ y.elementType = z.elementType ∧ y.size = z.size ∧
      ∀ entry ∈ y.entries, Weighted.find? Expr.equal z.entries entry.1 = some entry.2 := by
  rw [equal_iff_weight hy hz]
  exact and_congr_right fun _ => (hy.stored.sameMap_iff Expr.equal_equivalence hz.stored).symm

/-! ### Operations on weight functions -/

/-- An operation that succeeds iff the condition holds, and that gives these weights if it does. -/
def Computes (result : Except TermError ZSetLiteral) (condition : Prop) (weights : Expr → Int) :
    Prop :=
  ((∃ z, result = .ok z) ↔ condition) ∧ ∀ z, result = .ok z → ∀ e, z.weight e = weights e

theorem elementType_of_add (h : x.add y = .ok z) : z.elementType = x.elementType :=
  elementType_of_mergeAll (add_eq_ok.mp h).2

theorem Normal.weight_of_add (hx : x.Normal) (hy : y.Normal) (h : x.add y = .ok z) (e : Expr) :
    z.weight e = x.weight e + y.weight e := by
  obtain ⟨htype, hmerge⟩ := add_eq_ok.mp h
  refine hx.weight_of_mergeAll ?_ hy.stored.distinct hmerge e
  rw [htype]
  exact hy.typed

theorem weight_of_negate (h : y.negate = .ok z) (e : Expr) : z.weight e = -y.weight e := by
  obtain ⟨-, rfl⟩ := negate_eq_ok.mp h
  exact weight_opposite y.entries e

theorem Normal.add_computes (hx : x.Normal) (hy : y.Normal) :
    Computes (x.add y)
      (x.elementType = y.elementType ∧ ∀ e, isWeight (x.weight e + y.weight e) = true)
      fun e => x.weight e + y.weight e := by
  constructor
  · simp only [add_eq_ok, exists_and_left]
    refine and_congr_right fun htype => ?_
    have htyped : ∀ entry ∈ y.entries, entry.1.type = some x.elementType := by
      rw [htype]
      exact hy.typed
    rw [hx.exists_mergeAll_iff htyped hy.stored.distinct]
    constructor
    · -- an expression that is no element of the second literal keeps a weight that fits
      intro hfits e
      have hy' : y.weight e = Weighted.weight Expr.equal y.entries e := rfl
      rcases Weighted.weight_cases y.entries e with ⟨entry, hentry, hequal, hweight⟩ | hzero
      · have hsame : x.weight entry.1 = x.weight e :=
          Weighted.weight_congr Expr.equal_equivalence x.entries hequal
        rw [hy', ← hweight, ← hsame]
        exact hfits entry hentry
      · rw [hy', hzero, Int.add_zero]
        exact hx.stored.isWeight_weight e
    · intro hfits entry hentry
      rw [← hy.stored.distinct.weight_of_mem Expr.equal_equivalence hentry]
      exact hfits entry.1
  · exact fun z hz => hx.weight_of_add hy hz

theorem Normal.negate_computes (hy : y.Normal) :
    Computes y.negate (∀ e, y.weight e ≠ -2 ^ 63) fun e => -y.weight e := by
  constructor
  · simp only [negate_eq_ok, exists_and_left, exists_eq, and_true]
    constructor
    · intro hfits e
      rcases Weighted.weight_cases y.entries e with ⟨entry, hentry, -, hweight⟩ | hzero
      · rw [weight, ← hweight]
        exact (Weighted.isWeight_neg_iff (hy.stored.fits entry hentry)).mp (hfits entry hentry)
      · rw [weight, hzero]
        decide
    · intro hne entry hentry
      refine (Weighted.isWeight_neg_iff (hy.stored.fits entry hentry)).mpr ?_
      rw [← hy.stored.distinct.weight_of_mem Expr.equal_equivalence hentry]
      exact hne entry.1
  · exact fun z hz => weight_of_negate hz

theorem Normal.minus_computes (hx : x.Normal) (hy : y.Normal) :
    Computes (x.minus y)
      (x.elementType = y.elementType ∧ (∀ e, y.weight e ≠ -2 ^ 63) ∧
        ∀ e, isWeight (x.weight e - y.weight e) = true)
      fun e => x.weight e - y.weight e := by
  -- a difference is a sum with the opposite literal, if there is one
  have hsum (negated : ZSetLiteral) (hneg : y.negate = .ok negated) :
      Computes (x.add negated)
        (x.elementType = y.elementType ∧ ∀ e, isWeight (x.weight e - y.weight e) = true)
        fun e => x.weight e - y.weight e := by
    have hweight := weight_of_negate hneg
    obtain ⟨hfits, rfl⟩ := negate_eq_ok.mp hneg
    have hadd := hx.add_computes (hy.opposite hfits)
    simpa only [hweight, ← sub_eq_add_neg] using hadd
  constructor
  · simp only [minus_eq_ok]
    constructor
    · rintro ⟨z, negated, hneg, hz⟩
      obtain ⟨htype, hfits⟩ := (hsum negated hneg).1.mp ⟨z, hz⟩
      exact ⟨htype, hy.negate_computes.1.mp ⟨negated, hneg⟩, hfits⟩
    · rintro ⟨htype, hne, hfits⟩
      obtain ⟨negated, hneg⟩ := hy.negate_computes.1.mpr hne
      obtain ⟨z, hz⟩ := (hsum negated hneg).1.mpr ⟨htype, hfits⟩
      exact ⟨z, negated, hneg, hz⟩
  · intro z hz
    obtain ⟨negated, hneg, hadd⟩ := minus_eq_ok.mp hz
    exact (hsum negated hneg).2 z hadd

theorem Normal.entries_eq_nil (hz : z.Normal) (h : ∀ e, z.weight e = 0) : z.entries = [] := by
  rw [List.eq_nil_iff_forall_not_mem]
  intro entry hentry
  refine hz.stored.nonzero entry hentry ?_
  rw [← hz.stored.distinct.weight_of_mem Expr.equal_equivalence hentry]
  exact h entry.1

/-- **Literals are weight functions.** Literals are stored without zero weights, without an element
occurring twice, and with elements of one type. Their sums, opposites and differences are those of
the weight functions, and exist exactly when these fit; equal literals are those of equal weight
functions. So sums commute, associate as far as they exist, and cancel. -/
theorem weight_functions {a b c : ZSetLiteral} (ha : a.Constructed) (hb : b.Constructed)
    (hc : c.Constructed) :
    a.Normal ∧
    Computes (a.add b)
      (a.elementType = b.elementType ∧ ∀ e, isWeight (a.weight e + b.weight e) = true)
      (fun e => a.weight e + b.weight e) ∧
    Computes a.negate (∀ e, a.weight e ≠ -2 ^ 63) (fun e => -a.weight e) ∧
    Computes (a.minus b)
      (a.elementType = b.elementType ∧ (∀ e, b.weight e ≠ -2 ^ 63) ∧
        ∀ e, isWeight (a.weight e - b.weight e) = true)
      (fun e => a.weight e - b.weight e) ∧
    (a.equal b = true ↔ a.elementType = b.elementType ∧ ∀ e, a.weight e = b.weight e) ∧
    (∀ ab, a.add b = .ok ab → ∃ ba, b.add a = .ok ba ∧ ab.equal ba = true) ∧
    (∀ ab left bc right, a.add b = .ok ab → ab.add c = .ok left → b.add c = .ok bc →
      a.add bc = .ok right → left.equal right = true) ∧
    ∀ negated, a.negate = .ok negated → ∃ sum, a.add negated = .ok sum ∧ sum.entries = [] := by
  have hna := ha.normal
  have hnb := hb.normal
  have hnc := hc.normal
  refine ⟨hna, hna.add_computes hnb, hna.negate_computes, hna.minus_computes hnb,
    equal_iff_weight hna hnb, ?_, ?_, ?_⟩
  · -- sums commute
    intro ab hab
    obtain ⟨htype, hfits⟩ := (hna.add_computes hnb).1.mp ⟨ab, hab⟩
    obtain ⟨ba, hba⟩ := (hnb.add_computes hna).1.mpr
      ⟨htype.symm, fun e => by rw [Int.add_comm]; exact hfits e⟩
    refine ⟨ba, hba, ?_⟩
    rw [equal_iff_weight (ha.add hb hab).normal (hb.add ha hba).normal,
      elementType_of_add hab, elementType_of_add hba]
    refine ⟨htype, fun e => ?_⟩
    rw [hna.weight_of_add hnb hab, hnb.weight_of_add hna hba, Int.add_comm]
  · -- both groupings have the sum of the three weights
    intro ab left bc right hab hleft hbc hright
    have hcab := ha.add hb hab
    have hcbc := hb.add hc hbc
    rw [equal_iff_weight (hcab.add hc hleft).normal (ha.add hcbc hright).normal,
      elementType_of_add hleft, elementType_of_add hab, elementType_of_add hright]
    refine ⟨rfl, fun e => ?_⟩
    rw [hcab.normal.weight_of_add hnc hleft, hna.weight_of_add hnb hab,
      hna.weight_of_add hcbc.normal hright, hnb.weight_of_add hnc hbc, Int.add_assoc]
  · -- the sum with the opposite has no weights, and no other weight is stored
    intro negated hneg
    have hnegated := ha.negate hneg
    have htype : a.elementType = negated.elementType := by
      obtain ⟨-, rfl⟩ := negate_eq_ok.mp hneg
      rfl
    have hzero (e : Expr) : a.weight e + negated.weight e = 0 := by
      rw [weight_of_negate hneg]
      exact Int.add_right_neg _
    obtain ⟨sum, hsum⟩ := (hna.add_computes hnegated.normal).1.mpr
      ⟨htype, fun e => by rw [hzero]; exact Weighted.isWeight_zero⟩
    refine ⟨sum, hsum, (ha.add hnegated hsum).normal.entries_eq_nil fun e => ?_⟩
    rw [hna.weight_of_add hnegated.normal hsum, hzero]

/-! ### Truth values -/

/-- The elements `true`, `true`. -/
def twoTrue : ZSetLiteral := ⟨.bool, [(Expr.boolLiteral true, 2)]⟩

/-- The element `false`, and `true` taken away twice. -/
def lessTrue : ZSetLiteral := ⟨.bool, [(Expr.boolLiteral false, 1), (Expr.boolLiteral true, -2)]⟩

theorem constructed_twoTrue : twoTrue.Constructed := by
  have htwo : ofElements [Expr.boolLiteral true, Expr.boolLiteral true] = .ok twoTrue := rfl
  exact .ofElements htwo

theorem constructed_lessTrue : lessTrue.Constructed := by
  have hone : ofElements [Expr.boolLiteral false] =
      .ok ⟨.bool, [(Expr.boolLiteral false, 1)]⟩ := rfl
  have hless : addElement ⟨.bool, [(Expr.boolLiteral false, 1)]⟩ (Expr.boolLiteral true) (-2) =
      .ok lessTrue := rfl
  exact .addElement (.ofElements hone) hless

/-- The two literals add up to one element in either order, which they store in different ways. -/
theorem weight_functions_twoTrue :
    twoTrue.Constructed ∧ lessTrue.Constructed ∧
      ∃ sum, lessTrue.add twoTrue = .ok sum ∧
        ZSetLiteral.equal ⟨.bool, [(Expr.boolLiteral false, 1)]⟩ sum = true := by
  have hsum : twoTrue.add lessTrue = .ok ⟨.bool, [(Expr.boolLiteral false, 1)]⟩ := rfl
  have hlaws := weight_functions constructed_twoTrue constructed_lessTrue constructed_twoTrue
  obtain ⟨-, -, -, -, -, hcomm, -, -⟩ := hlaws
  exact ⟨constructed_twoTrue, constructed_lessTrue, hcomm _ hsum⟩

end ZSetLiteral
end DeltaCircuit
