import DeltaCircuit.Weighted
import Mathlib.Data.List.Perm.Subperm

/-!
# Weight functions of weighted collections

A weighted collection denotes the function that gives every element its weight. The operations on
collections are pinned down by what they do to that function, as long as the elements of a
collection are pairwise different (`Weighted.Distinct`), and every operation keeps them so.

* `weight_put`, `weight_erase`, `weight_of_add?` — the weight function after an operation.
* `Distinct.put`, `Distinct.erase`, `Distinct.add?` — elements stay pairwise different.
* `Weighted.Normal`, `Normal.add?`, `Normal.exists_add?_iff` — collections as they are stored, and
  when a sum can be stored.
* `Weighted.SameMap`, `Normal.sameMap_iff` — stored collections are equal as maps iff they have the
  same weight function.

The test `same` is only assumed to be an equivalence: the element that an update stores need not be
the one that it was asked about.
-/

namespace DeltaCircuit.Weighted

variable {α : Type} {same : α → α → Bool}

/-- The elements of a collection are pairwise different. -/
def Distinct (same : α → α → Bool) (entries : List (α × Int)) : Prop :=
  entries.Pairwise fun a b => same a.1 b.1 = false

@[simp] theorem distinct_nil : Distinct same [] := List.Pairwise.nil

theorem distinct_cons {entry : α × Int} {entries : List (α × Int)} :
    Distinct same (entry :: entries) ↔
      (∀ other ∈ entries, same entry.1 other.1 = false) ∧ Distinct same entries :=
  List.pairwise_cons

/-! ### The test for equality -/

/-- Elements that are the same are the same as the same elements. -/
theorem same_congr (h : Equivalence fun a b => same a b = true) {x y : α}
    (hxy : same x y = true) (z : α) : same x z = same y z := by
  rw [Bool.eq_iff_iff]
  exact ⟨fun hxz => h.trans (h.symm hxy) hxz, fun hyz => h.trans hxy hyz⟩

theorem same_comm (h : Equivalence fun a b => same a b = true) (x y : α) :
    same x y = same y x := by
  rw [Bool.eq_iff_iff]
  exact ⟨fun hxy => h.symm hxy, fun hyx => h.symm hyx⟩

/-- What differs from an element differs from all that are the same as the element. -/
theorem same_eq_false (h : Equivalence fun a b => same a b = true) {x y z : α}
    (hxy : same x y = true) (hxz : same x z = false) : same z y = false := by
  rw [same_comm h, ← same_congr h hxy]
  exact hxz

/-! ### Weights -/

@[simp] theorem weight_nil (x : α) : weight same [] x = 0 := rfl

theorem weight_cons (y : α) (w : Int) (entries : List (α × Int)) (x : α) :
    weight same ((y, w) :: entries) x = if same y x then w else weight same entries x := by
  rw [weight, find?]
  split <;> rfl

/-- An element that is none of the entries has weight zero. -/
theorem weight_eq_zero {entries : List (α × Int)} {x : α}
    (h : ∀ entry ∈ entries, same entry.1 x = false) : weight same entries x = 0 := by
  induction entries with
  | nil => rfl
  | cons entry entries ih =>
    rw [weight_cons, h entry List.mem_cons_self]
    exact ih fun other hother => h other (List.mem_cons_of_mem _ hother)

/-- No second entry answers for what is the same as an entry. -/
theorem weight_eq_zero_of_fresh (h : Equivalence fun a b => same a b = true)
    {entries : List (α × Int)} {x y : α} (hxy : same x y = true)
    (hfresh : ∀ other ∈ entries, same x other.1 = false) : weight same entries y = 0 :=
  weight_eq_zero fun other hother => same_eq_false h hxy (hfresh other hother)

/-- Elements that are the same have the same weight. -/
theorem weight_congr (h : Equivalence fun a b => same a b = true) (entries : List (α × Int))
    {x y : α} (hxy : same x y = true) : weight same entries x = weight same entries y := by
  induction entries with
  | nil => rfl
  | cons entry entries ih =>
    rw [weight_cons, weight_cons, ih, same_comm h entry.1 x, same_congr h hxy, same_comm h y]

/-! ### Setting a weight -/

theorem weight_put (h : Equivalence fun a b => same a b = true) (entries : List (α × Int))
    (x : α) (w : Int) (z : α) :
    weight same (put same entries x w) z = if same x z then w else weight same entries z := by
  induction entries with
  | nil => rw [put, weight_cons]
  | cons entry entries ih =>
    obtain ⟨y, v⟩ := entry
    rw [put]
    by_cases hyx : same y x
    · -- the stored element is the same as `x`, so it answers for the same elements
      rw [if_pos hyx, weight_cons, weight_cons, same_congr h hyx]
      split <;> rfl
    · rw [if_neg hyx, weight_cons, ih, weight_cons]
      by_cases hyz : same y z
      · -- the first entry answers for `z`, and it is not the one that is set
        have hxz : same x z = false := same_eq_false h hyz (Bool.eq_false_iff.mpr hyx)
        simp [hyz, hxz]
      · simp [hyz]

/-- After a weight has been set, an entry is an old one, or it has the new weight and its element is
the given one or one of the old. -/
theorem mem_put_cases {entries : List (α × Int)} {x : α} {w : Int} {entry : α × Int}
    (hmem : entry ∈ put same entries x w) :
    entry ∈ entries ∨ entry.2 = w ∧ (entry.1 = x ∨ ∃ other ∈ entries, other.1 = entry.1) := by
  induction entries with
  | nil =>
    rw [put, List.mem_singleton] at hmem
    rw [hmem]
    exact .inr ⟨rfl, .inl rfl⟩
  | cons first entries ih =>
    obtain ⟨y, v⟩ := first
    rw [put] at hmem
    split at hmem
    · -- the weight is exchanged, and the element stays as it was stored
      rcases List.mem_cons.mp hmem with rfl | hmem
      · exact .inr ⟨rfl, .inr ⟨(y, v), List.mem_cons_self, rfl⟩⟩
      · exact .inl (List.mem_cons_of_mem _ hmem)
    · rcases List.mem_cons.mp hmem with rfl | hmem
      · exact .inl List.mem_cons_self
      · rcases ih hmem with hold | ⟨hw, hx | ⟨other, hother, heq⟩⟩
        · exact .inl (List.mem_cons_of_mem _ hold)
        · exact .inr ⟨hw, .inl hx⟩
        · exact .inr ⟨hw, .inr ⟨other, List.mem_cons_of_mem _ hother, heq⟩⟩

/-- Setting a weight brings in no other element. -/
theorem mem_put {entries : List (α × Int)} {x : α} {w : Int} {entry : α × Int}
    (hmem : entry ∈ put same entries x w) :
    entry.1 = x ∨ ∃ other ∈ entries, other.1 = entry.1 := by
  rcases mem_put_cases hmem with hold | ⟨-, helement⟩
  · exact .inr ⟨entry, hold, rfl⟩
  · exact helement

theorem Distinct.put {entries : List (α × Int)} (hd : Distinct same entries) (x : α) (w : Int) :
    Distinct same (put same entries x w) := by
  induction entries with
  | nil => exact List.pairwise_singleton _ _
  | cons entry entries ih =>
    obtain ⟨y, v⟩ := entry
    obtain ⟨hfresh, hrest⟩ := distinct_cons.mp hd
    rw [Weighted.put]
    split
    · -- only a weight is exchanged
      exact distinct_cons.mpr ⟨hfresh, hrest⟩
    · next hyx =>
      refine distinct_cons.mpr ⟨fun other hother => ?_, ih hrest⟩
      -- what comes behind is the new element, which differs from the first, or an old one
      rcases mem_put hother with hx | ⟨kept, hkept, heq⟩
      · rw [hx]
        exact Bool.eq_false_iff.mpr hyx
      · rw [← heq]
        exact hfresh kept hkept

/-- An element that is none of the entries is put behind them. -/
theorem put_of_fresh {entries : List (α × Int)} {x : α} {w : Int}
    (h : ∀ entry ∈ entries, same entry.1 x = false) :
    put same entries x w = entries ++ [(x, w)] := by
  induction entries with
  | nil => rfl
  | cons entry entries ih =>
    obtain ⟨hentry, hrest⟩ := List.forall_mem_cons.mp h
    rw [put, hentry, ih hrest]
    rfl

/-! ### Removing an element -/

theorem mem_of_mem_erase {entries : List (α × Int)} {x : α} {entry : α × Int}
    (hmem : entry ∈ erase same entries x) : entry ∈ entries := by
  induction entries with
  | nil => exact hmem
  | cons first entries ih =>
    rw [erase] at hmem
    split at hmem
    · exact List.mem_cons_of_mem _ hmem
    · rcases List.mem_cons.mp hmem with rfl | hmem
      · exact List.mem_cons_self
      · exact List.mem_cons_of_mem _ (ih hmem)

theorem Distinct.erase {entries : List (α × Int)} (hd : Distinct same entries) (x : α) :
    Distinct same (erase same entries x) := by
  induction entries with
  | nil => exact hd
  | cons entry entries ih =>
    obtain ⟨hfresh, hrest⟩ := distinct_cons.mp hd
    rw [Weighted.erase]
    split
    · exact hrest
    · exact distinct_cons.mpr
        ⟨fun other hother => hfresh other (mem_of_mem_erase hother), ih hrest⟩

theorem weight_erase (h : Equivalence fun a b => same a b = true) {entries : List (α × Int)}
    (hd : Distinct same entries) (x z : α) :
    weight same (erase same entries x) z = if same x z then 0 else weight same entries z := by
  induction entries with
  | nil => simp [erase]
  | cons entry entries ih =>
    obtain ⟨y, v⟩ := entry
    obtain ⟨hfresh, hrest⟩ := distinct_cons.mp hd
    rw [erase]
    by_cases hyx : same y x
    · rw [if_pos hyx, weight_cons, ← same_congr h hyx]
      -- the entry goes, and none of the later ones answers for it
      by_cases hyz : same y z
      · rw [if_pos hyz, weight_eq_zero_of_fresh h hyz hfresh]
      · rw [if_neg hyz, if_neg hyz]
    · rw [if_neg hyx, weight_cons, ih hrest, weight_cons]
      by_cases hyz : same y z
      · have hxz : same x z = false := same_eq_false h hyz (Bool.eq_false_iff.mpr hyx)
        simp [hyz, hxz]
      · simp [hyz]

/-! ### Adding to a weight -/

/-- **One addition, taken apart.** Nothing is added; or the sum is zero, and the element goes; or
the sum fits and is set. -/
theorem add?_cases {entries out : List (α × Int)} {x : α} {w : Int}
    (hadd : add? same entries x w = some out) :
    (w = 0 ∧ out = entries) ∨
      (w ≠ 0 ∧ weight same entries x + w = 0 ∧ out = erase same entries x) ∨
        (w ≠ 0 ∧ weight same entries x + w ≠ 0 ∧ isWeight (weight same entries x + w) = true ∧
          out = put same entries x (weight same entries x + w)) := by
  unfold add? at hadd
  split at hadd
  · next hw => exact .inl ⟨hw, (Option.some.inj hadd).symm⟩
  · next hw =>
    simp only [Option.ite_none_right_eq_some, Option.some.injEq] at hadd
    obtain ⟨hfits, rfl⟩ := hadd
    split
    · next hzero => exact .inr (.inl ⟨hw, hzero, rfl⟩)
    · next hne => exact .inr (.inr ⟨hw, hne, hfits, rfl⟩)

theorem Distinct.add? {entries out : List (α × Int)} (hd : Distinct same entries) {x : α} {w : Int}
    (hadd : add? same entries x w = some out) : Distinct same out := by
  rcases add?_cases hadd with ⟨-, rfl⟩ | ⟨-, -, rfl⟩ | ⟨-, -, -, rfl⟩
  · exact hd
  · exact hd.erase x
  · exact hd.put x _

/-- **Sums.** Adding to the weight of an element changes its weight by just that, and no other. -/
theorem weight_of_add? (h : Equivalence fun a b => same a b = true) {entries out : List (α × Int)}
    (hd : Distinct same entries) {x : α} {w : Int} (hadd : add? same entries x w = some out)
    (z : α) : weight same out z = weight same entries z + if same x z then w else 0 := by
  -- what is the same as the element has its weight
  have hsum : (if same x z then weight same entries x + w else weight same entries z) =
      weight same entries z + if same x z then w else 0 := by
    by_cases hxz : same x z
    · rw [if_pos hxz, if_pos hxz, weight_congr h entries hxz]
    · rw [if_neg hxz, if_neg hxz, Int.add_zero]
  rcases add?_cases hadd with ⟨rfl, rfl⟩ | ⟨-, htotal, rfl⟩ | ⟨-, -, -, rfl⟩
  · simp
  · rw [← hsum, weight_erase h hd, htotal]
  · rw [← hsum, weight_put h]

/-! ### Stored collections -/

/-- What a look-up finds is the weight of an entry. -/
theorem exists_of_find? {entries : List (α × Int)} {x : α} {w : Int}
    (h : find? same entries x = some w) :
    ∃ entry ∈ entries, same entry.1 x = true ∧ entry.2 = w := by
  induction entries with
  | nil => cases h
  | cons entry entries ih =>
    rw [find?] at h
    split at h
    · next hsame => exact ⟨entry, List.mem_cons_self, hsame, Option.some.inj h⟩
    · obtain ⟨other, hother, hsame, hweight⟩ := ih h
      exact ⟨other, List.mem_cons_of_mem _ hother, hsame, hweight⟩

/-- An element has the weight of an entry that is the same, or is the same as none. -/
theorem weight_cases (entries : List (α × Int)) (x : α) :
    (∃ entry ∈ entries, same entry.1 x = true ∧ entry.2 = weight same entries x) ∨
      weight same entries x = 0 := by
  cases hfind : find? same entries x with
  | none => exact .inr (by rw [weight, hfind, Option.getD_none])
  | some w =>
    rw [weight, hfind, Option.getD_some]
    exact .inl (exists_of_find? hfind)

theorem Distinct.weight_of_mem (h : Equivalence fun a b => same a b = true)
    {entries : List (α × Int)} (hd : Distinct same entries) {entry : α × Int}
    (hmem : entry ∈ entries) : weight same entries entry.1 = entry.2 := by
  induction entries with
  | nil => exact absurd hmem List.not_mem_nil
  | cons first entries ih =>
    obtain ⟨hfresh, hrest⟩ := distinct_cons.mp hd
    rw [weight_cons]
    rcases List.mem_cons.mp hmem with rfl | hmem
    · exact if_pos (h.refl entry.1)
    · rw [hfresh entry hmem]
      exact ih hrest hmem

/-- A collection as it is stored: no element twice, no weight zero, and every weight fits. -/
structure Normal (same : α → α → Bool) (entries : List (α × Int)) : Prop where
  distinct : Distinct same entries
  nonzero : ∀ entry ∈ entries, entry.2 ≠ 0
  fits : ∀ entry ∈ entries, isWeight entry.2 = true

theorem isWeight_zero : isWeight 0 = true := by decide

theorem Normal.isWeight_weight {entries : List (α × Int)} (hn : Normal same entries) (x : α) :
    isWeight (weight same entries x) = true := by
  rcases weight_cases entries x with ⟨entry, hentry, -, hweight⟩ | hzero
  · rw [← hweight]
    exact hn.fits entry hentry
  · rw [hzero]
    exact isWeight_zero

/-- What is not found has weight zero, and nothing else has. -/
theorem Normal.find?_eq {entries : List (α × Int)} (hn : Normal same entries) (x : α) :
    find? same entries x =
      if weight same entries x = 0 then none else some (weight same entries x) := by
  cases hfind : find? same entries x with
  | none => rw [weight, hfind, Option.getD_none, if_pos rfl]
  | some w =>
    obtain ⟨entry, hentry, -, rfl⟩ := exists_of_find? hfind
    rw [weight, hfind, Option.getD_some, if_neg (hn.nonzero entry hentry)]

theorem mem_or_eq_of_mem_put {entries : List (α × Int)} {x : α} {w : Int} {entry : α × Int}
    (hmem : entry ∈ put same entries x w) : entry ∈ entries ∨ entry.2 = w :=
  (mem_put_cases hmem).imp_right And.left

/-- Stored collections stay so. -/
theorem Normal.add? {entries out : List (α × Int)} (hn : Normal same entries) {x : α} {w : Int}
    (hadd : add? same entries x w = some out) : Normal same out := by
  have hdistinct := hn.distinct.add? hadd
  rcases add?_cases hadd with ⟨-, rfl⟩ | ⟨-, -, rfl⟩ | ⟨-, hne, hfits, rfl⟩
  · exact hn
  · exact ⟨hdistinct, fun entry hmem => hn.nonzero entry (mem_of_mem_erase hmem),
      fun entry hmem => hn.fits entry (mem_of_mem_erase hmem)⟩
  · -- an entry of the sum is an old one or has the new weight
    refine ⟨hdistinct, fun entry hmem => ?_, fun entry hmem => ?_⟩
    · rcases mem_or_eq_of_mem_put hmem with hold | heq
      · exact hn.nonzero entry hold
      · rwa [heq]
    · rcases mem_or_eq_of_mem_put hmem with hold | heq
      · exact hn.fits entry hold
      · rwa [heq]

/-- A weight can be added iff the sum fits. -/
theorem Normal.exists_add?_iff {entries : List (α × Int)} (hn : Normal same entries) {x : α}
    {w : Int} :
    (∃ out, Weighted.add? same entries x w = some out) ↔
      isWeight (weight same entries x + w) = true := by
  unfold Weighted.add?
  -- nothing is added, and the weight that is there fits
  by_cases hw : w = 0
  · simp [hw, hn.isWeight_weight x]
  · rw [if_neg hw]
    dsimp only
    by_cases hfits : isWeight (weight same entries x + w) = true
    · simp [hfits]
    · simp [hfits]

/-- After a sum, an element is the added one or an old one. -/
theorem eq_or_exists_of_mem_add? {entries out : List (α × Int)} {x : α} {w : Int}
    (hadd : add? same entries x w = some out) {entry : α × Int} (hmem : entry ∈ out) :
    entry.1 = x ∨ ∃ other ∈ entries, other.1 = entry.1 := by
  rcases add?_cases hadd with ⟨-, rfl⟩ | ⟨-, -, rfl⟩ | ⟨-, -, -, rfl⟩
  · exact .inr ⟨entry, hmem, rfl⟩
  · exact .inr ⟨entry, mem_of_mem_erase hmem, rfl⟩
  · exact mem_put hmem

/-! ### Equality of collections -/

/-- Two collections are equal as maps: there are equally many elements, and each element of the
first has its weight in the second. -/
def SameMap (same : α → α → Bool) (entries others : List (α × Int)) : Prop :=
  entries.length = others.length ∧
    ∀ entry ∈ entries, find? same others entry.1 = some entry.2

/-- The elements of the first list are among those of the second. -/
def Among (same : α → α → Bool) (entries others : List (α × Int)) : Prop :=
  ∀ entry ∈ entries, ∃ other ∈ others, same other.1 entry.1 = true

/-- The elements of a collection, each with all that are the same. -/
def classes (h : Equivalence fun a b => same a b = true) (entries : List (α × Int)) :
    List (Quotient ⟨_, h⟩) :=
  entries.map fun entry => Quotient.mk _ entry.1

variable {entries others : List (α × Int)}

/-- Lists of different elements are compared as lists of classes without repetition. -/
theorem Among.subperm_classes (heq : Equivalence fun a b => same a b = true)
    (hd : Distinct same entries) (h : Among same entries others) :
    (classes heq entries).Subperm (classes heq others) := by
  -- different elements are of different classes
  have hnodup : (classes heq entries).Nodup := by
    refine List.pairwise_map.mpr (hd.imp fun {a b} hab hclass => ?_)
    have hsame : same a.1 b.1 = true := Quotient.exact hclass
    rw [hsame] at hab
    cases hab
  refine hnodup.subperm fun c hc => ?_
  obtain ⟨entry, hentry, rfl⟩ := List.mem_map.mp hc
  obtain ⟨other, hother, hsame⟩ := h entry hentry
  exact List.mem_map.mpr ⟨other, hother, Quotient.sound hsame⟩

theorem Among.length_le (heq : Equivalence fun a b => same a b = true)
    (hd : Distinct same entries) (h : Among same entries others) :
    entries.length ≤ others.length := by
  have hle := (h.subperm_classes heq hd).length_le
  rwa [classes, classes, List.length_map, List.length_map] at hle

/-- Different elements that are among equally many are all of them. -/
theorem Among.symm (heq : Equivalence fun a b => same a b = true) (hd : Distinct same entries)
    (hlength : entries.length = others.length) (h : Among same entries others) :
    Among same others entries := by
  have hperm := (h.subperm_classes heq hd).perm_of_length_le (by simp [classes, hlength])
  intro other hother
  have hmem := hperm.mem_iff.mpr (List.mem_map_of_mem hother)
  obtain ⟨entry, hentry, hclass⟩ := List.mem_map.mp hmem
  exact ⟨entry, hentry, Quotient.exact hclass⟩

theorem Normal.find?_of_mem (heq : Equivalence fun a b => same a b = true)
    (hn : Normal same entries) {entry : α × Int} (h : entry ∈ entries) :
    find? same entries entry.1 = some entry.2 := by
  have hweight := hn.distinct.weight_of_mem heq h
  rw [hn.find?_eq, hweight, if_neg (hn.nonzero entry h)]

/-- What has a weight in one collection is found in another one of the same weights. -/
theorem Normal.find?_of_weight (heq : Equivalence fun a b => same a b = true)
    (hn : Normal same entries) (hn' : Normal same others)
    (h : ∀ x, weight same entries x = weight same others x) {entry : α × Int}
    (hentry : entry ∈ entries) : find? same others entry.1 = some entry.2 := by
  rw [hn'.find?_eq, ← h entry.1, ← hn.find?_eq]
  exact hn.find?_of_mem heq hentry

theorem among_of_find? (h : ∀ entry ∈ entries, find? same others entry.1 = some entry.2) :
    Among same entries others := by
  intro entry hentry
  obtain ⟨other, hother, hsame, -⟩ := exists_of_find? (h entry hentry)
  exact ⟨other, hother, hsame⟩

/-- **Equality of maps.** Collections as they are stored are equal as maps iff every element has the
same weight in both. -/
theorem Normal.sameMap_iff (heq : Equivalence fun a b => same a b = true)
    (hn : Normal same entries) (hn' : Normal same others) :
    SameMap same entries others ↔ ∀ x, weight same entries x = weight same others x := by
  constructor
  · rintro ⟨hlength, hfound⟩ x
    have hweight (entry : α × Int) (hentry : entry ∈ entries) (hsame : same entry.1 x = true) :
        weight same entries x = weight same others x := by
      rw [← weight_congr heq entries hsame, ← weight_congr heq others hsame,
        hn.distinct.weight_of_mem heq hentry, weight, hfound entry hentry, Option.getD_some]
    -- an element of either collection is one of the first
    rcases @weight_cases _ same entries x with ⟨entry, hentry, hsame, -⟩ | hzero
    · exact hweight entry hentry hsame
    · rcases @weight_cases _ same others x with ⟨other, hother, hsame, -⟩ | hzero'
      · obtain ⟨entry, hentry, hsame'⟩ :=
          (among_of_find? hfound).symm heq hn.distinct hlength other hother
        exact hweight entry hentry (heq.trans hsame' hsame)
      · rw [hzero, hzero']
  · -- as each collection is found in the other, neither is longer
    intro hweights
    have hfound (entry : α × Int) (hentry : entry ∈ entries) :=
      hn.find?_of_weight heq hn' hweights hentry
    have hfound' (other : α × Int) (hother : other ∈ others) :=
      hn'.find?_of_weight heq hn (fun x => (hweights x).symm) hother
    exact ⟨Nat.le_antisymm ((among_of_find? hfound).length_le heq hn.distinct)
      ((among_of_find? hfound').length_le heq hn'.distinct), hfound⟩

end DeltaCircuit.Weighted
