import DeltaCircuit.Proofs.ZSetOperation

/-!
# Groups of a Z-set

An aggregate puts the values of an indexed Z-set into groups, one after another: a value goes to the
first group whose key is the same as its own, or else to a new group at the end. The groups that
come out of this are told without the order of the steps.

* `ZSet.IsGrouped` — the keys of all groups: every entry belongs to one of them, and no two are the
  same.
* `ZSet.membersOf` — the group of a key.
* `ZSet.addToGroup_of_mem`, `ZSet.addToGroup_of_fresh`, `ZSet.IsGrouped.step` — one more value.
* `ZSet.groups_eq_ok` — all groups.
* `ZSet.aggregate_eq_ok` — the folds of all groups.
* `ZSet.once_aggregate` — an aggregate of any indexed Z-set gives everything once.
* `ZSet.orDefault` — a row of its own for a Z-set without rows.
-/

namespace DeltaCircuit

namespace ZSet

variable {key : Value → Value} {entries : List (Value × Int)} {entry : Value × Int}
  {keys : List Value}

/-- A value next to its weight, which is what an aggregate folds. -/
def member (entry : Value × Int) : Value := .row [entry.1, .int entry.2]

/-- The members of the group of a key, in the order of the entries. -/
def membersOf (key : Value → Value) (entries : List (Value × Int)) (k : Value) : List Value :=
  (entries.filter fun entry => k.same (key entry.1)).map member

/-- The keys of the groups of some entries. -/
structure IsGrouped (key : Value → Value) (entries : List (Value × Int)) (keys : List Value) :
    Prop where
  distinct : keys.Pairwise fun a b => a.same b = false
  of_entry : ∀ entry ∈ entries, ∃ k ∈ keys, k.same (key entry.1) = true
  to_entry : ∀ k ∈ keys, ∃ entry ∈ entries, key entry.1 = k

/-- If all entries have one key, it is the only one. -/
theorem IsGrouped.eq_singleton {k : Value} (h : IsGrouped key entries keys)
    (hkey : ∀ entry ∈ entries, key entry.1 = k) (hne : entries ≠ []) : keys = [k] := by
  have hall : ∀ a ∈ keys, a = k := by
    intro a ha
    obtain ⟨entry, hentry, rfl⟩ := h.to_entry a ha
    exact hkey entry hentry
  obtain ⟨entry, hentry⟩ := List.exists_mem_of_ne_nil entries hne
  obtain ⟨first, hfirst, -⟩ := h.of_entry entry hentry
  cases keys with
  | nil => cases hfirst
  | cons a keys =>
    obtain ⟨rfl, hrest⟩ := List.forall_mem_cons.mp hall
    cases keys with
    | nil => rfl
    | cons b keys =>
      -- a second key would be the same
      have hdiffer := (List.pairwise_cons.mp h.distinct).1 b List.mem_cons_self
      rw [hrest b List.mem_cons_self, Value.same_equivalence.refl] at hdiffer
      cases hdiffer

theorem IsGrouped.eq_nil (h : IsGrouped key [] keys) : keys = [] := by
  refine List.eq_nil_iff_forall_not_mem.mpr fun k hk => ?_
  obtain ⟨entry, hentry, -⟩ := h.to_entry k hk
  cases hentry

/-! ### One more value -/

/-- A value whose key is there joins the one group of the key. -/
theorem addToGroup_of_mem {members : Value → List Value} {k m : Value}
    (hd : keys.Pairwise fun a b => a.same b = false) (hk : ∃ a ∈ keys, a.same k = true) :
    addToGroup (keys.map fun a => (a, members a)) k m =
      keys.map fun a => (a, members a ++ if a.same k then [m] else []) := by
  induction keys with
  | nil => simp at hk
  | cons first keys ih =>
    obtain ⟨hfirst, hd⟩ := List.pairwise_cons.mp hd
    rw [List.map_cons, List.map_cons, addToGroup]
    by_cases hsame : first.same k = true
    · -- no other key is the same as well
      have hother (a : Value) (ha : a ∈ keys) : a.same k = false :=
        Weighted.same_eq_false Value.same_equivalence hsame (hfirst a ha)
      rw [if_pos hsame, if_pos hsame]
      refine congrArg _ (List.map_congr_left fun a ha => ?_)
      rw [hother a ha, if_neg Bool.false_ne_true, List.append_nil]
    · obtain ⟨a, ha, hak⟩ := hk
      have hrest : ∃ a ∈ keys, a.same k = true := by
        rcases List.mem_cons.mp ha with rfl | ha
        · exact absurd hak hsame
        · exact ⟨a, ha, hak⟩
      rw [if_neg hsame, if_neg hsame, List.append_nil, ih hd hrest]

/-- A value whose key is new has a group of its own. -/
theorem addToGroup_of_fresh {members : Value → List Value} {k m : Value}
    (hk : ∀ a ∈ keys, a.same k = false) :
    addToGroup (keys.map fun a => (a, members a)) k m =
      (keys.map fun a => (a, members a)) ++ [(k, [m])] := by
  induction keys with
  | nil => rfl
  | cons first keys ih =>
    obtain ⟨hfirst, hk⟩ := List.forall_mem_cons.mp hk
    rw [List.map_cons, addToGroup, hfirst, if_neg Bool.false_ne_true, ih hk, List.cons_append]

theorem membersOf_concat (k : Value) : membersOf key (entries ++ [entry]) k =
    membersOf key entries k ++ if k.same (key entry.1) then [member entry] else [] := by
  rw [membersOf, List.filter_append, List.map_append, membersOf]
  by_cases hk : k.same (key entry.1) = true <;> simp [hk]

/-- **One more value.** With another entry, its group gets one more member, or a new group
begins. -/
theorem IsGrouped.step (h : IsGrouped key entries keys) (entry : Value × Int) :
    ∃ keys', IsGrouped key (entries ++ [entry]) keys' ∧
      addToGroup (keys.map fun k => (k, membersOf key entries k)) (key entry.1) (member entry) =
        keys'.map fun k => (k, membersOf key (entries ++ [entry]) k) := by
  by_cases hk : ∃ k ∈ keys, k.same (key entry.1) = true
  · -- the keys stay as they are
    refine ⟨keys, ⟨h.distinct, ?_, fun k hkey => ?_⟩, ?_⟩
    · exact List.forall_mem_append.mpr ⟨h.of_entry, List.forall_mem_singleton.mpr hk⟩
    · obtain ⟨other, hother, hkey⟩ := h.to_entry k hkey
      exact ⟨other, List.mem_append_left _ hother, hkey⟩
    · rw [addToGroup_of_mem h.distinct hk]
      exact List.map_congr_left fun k _ => by rw [membersOf_concat]
  · have hfresh (k : Value) (hkey : k ∈ keys) : k.same (key entry.1) = false :=
      Bool.eq_false_iff.mpr fun hsame => hk ⟨k, hkey, hsame⟩
    have hself : (key entry.1).same (key entry.1) = true := Value.same_equivalence.refl _
    refine ⟨keys ++ [key entry.1], ⟨?_, ?_, ?_⟩, ?_⟩
    · exact List.pairwise_append.mpr ⟨h.distinct, List.pairwise_singleton _ _,
        fun k hkey => List.forall_mem_singleton.mpr (hfresh k hkey)⟩
    · refine List.forall_mem_append.mpr ⟨fun other hother => ?_, ?_⟩
      · obtain ⟨k, hkey, hsame⟩ := h.of_entry other hother
        exact ⟨k, List.mem_append_left _ hkey, hsame⟩
      · exact List.forall_mem_singleton.mpr
          ⟨_, List.mem_append_right _ (List.mem_singleton_self _), hself⟩
    · refine List.forall_mem_append.mpr ⟨fun k hkey => ?_, ?_⟩
      · obtain ⟨other, hother, hkey⟩ := h.to_entry k hkey
        exact ⟨other, List.mem_append_left _ hother, hkey⟩
      · exact List.forall_mem_singleton.mpr
          ⟨entry, List.mem_append_right _ (List.mem_singleton_self _), rfl⟩
    · -- no earlier entry belongs to the new group
      have hnone : membersOf key entries (key entry.1) = [] := by
        rw [membersOf, List.map_eq_nil_iff, List.filter_eq_nil_iff]
        intro other hother hsame
        obtain ⟨k, hkey, hold⟩ := h.of_entry other hother
        have hboth : k.same (key entry.1) = true :=
          Value.same_equivalence.trans hold (Value.same_equivalence.symm hsame)
        rw [hfresh k hkey] at hboth
        cases hboth
      rw [addToGroup_of_fresh hfresh, List.map_append, List.map_singleton, membersOf_concat,
        hnone, if_pos hself, List.nil_append]
      refine congrArg (· ++ _) (List.map_congr_left fun k hkey => ?_)
      rw [membersOf_concat, hfresh k hkey, if_neg Bool.false_ne_true, List.append_nil]

/-! ### All groups -/

/-- **Groups.** Every entry of an indexed Z-set is a member of the one group of its key. -/
theorem groups_eq_ok {found : List (Value × List Value)}
    (h : ZSet.groups (keyed key entries) = .ok found) :
    ∃ keys, IsGrouped key entries keys ∧
      found = keys.map fun k => (k, membersOf key entries k) := by
  induction entries using List.reverseRecOn generalizing found with
  | nil =>
    obtain rfl := Except.ok.inj h
    exact ⟨[], ⟨.nil, nofun, nofun⟩, rfl⟩
  | append_singleton entries entry ih =>
    unfold groups at h
    rw [keyed, paired, List.map_append, List.foldlM_append, Except.bind_eq_ok] at h
    obtain ⟨before, hbefore, hlast⟩ := h
    obtain ⟨keys, hkeys, rfl⟩ := ih hbefore
    -- the last entry is a pair of its key and its value
    have hstep : addToGroup (keys.map fun k => (k, membersOf key entries k)) (key entry.1)
        (member entry) = found := Except.ok.inj hlast
    obtain ⟨keys', hkeys', hgroups⟩ := hkeys.step entry
    exact ⟨keys', hkeys', hstep.symm.trans hgroups⟩

/-- What a function gives on the group of a key. -/
def foldOf (f : Expr) (key : Value → Value) (entries : List (Value × Int)) (k : Value) : Value :=
  (f.applyTo [k, .vec (membersOf key entries k)]).toOption.getD .null

/-- **Aggregates.** An aggregate gives every key once, next to the fold of its group. -/
theorem aggregate_eq_ok {out : ZSet} {f : Expr}
    (h : ZSet.aggregate (keyed key entries) f = .ok out) :
    ∃ (keys : List Value) (result : Value → Value), IsGrouped key entries keys ∧
      (∀ k ∈ keys, f.applyTo [k, .vec (membersOf key entries k)] = .ok (result k)) ∧
      out = keys.map fun k => (.row [k, result k], 1) := by
  obtain ⟨found, hfound, h⟩ := Except.bind_eq_ok.mp h
  obtain ⟨keys, hkeys, rfl⟩ := groups_eq_ok hfound
  have hresult (k : Value) (hk : k ∈ keys) :
      f.applyTo [k, .vec (membersOf key entries k)] = .ok (foldOf f key entries k) := by
    obtain ⟨_, next, hnext⟩ := List.exists_of_foldlM_ok h (List.mem_map_of_mem hk)
    obtain ⟨v, hv, -⟩ := Except.bind_eq_ok.mp hnext
    rw [foldOf, hv]
    rfl
  refine ⟨keys, foldOf f key entries, hkeys, hresult, ?_⟩
  -- every step adds a key with its fold, and the keys are pairwise different
  have hstep (k : Value) (hk : k ∈ keys) (z next : ZSet) (hnext : (do
      z.add (.row [k, ← f.applyTo [k, .vec (membersOf key entries k)]]) 1) = .ok next) :
      z.addAll [(.row [k, foldOf f key entries k], 1)] = .ok next := by
    obtain ⟨v, hv, hadd⟩ := Except.bind_eq_ok.mp hnext
    obtain rfl := Except.ok.inj ((hresult k hk).symm.trans hv)
    exact addAll_cons_eq_ok.mpr ⟨next, hadd, rfl⟩
  rw [List.foldlM_map] at h
  have hadded := foldlM_eq_addAll hstep h
  rw [← List.map_eq_flatMap] at hadded
  refine addAll_once (hkeys.distinct.imp fun {a b} hab => ?_) hadded
  rw [Bool.eq_false_iff, ne_eq, Value.row_same_iff]
  rintro (_ | ⟨hsame, -⟩)
  rw [hab] at hsame
  cases hsame

/-! ### Aggregates of any indexed Z-set -/

/-- The keys of groups stay pairwise different when a value is added to a group. -/
theorem keys_addToGroup {groups : List (Value × List Value)} {k m : Value}
    (hd : (groups.map Prod.fst).Pairwise fun a b => a.same b = false) :
    ((addToGroup groups k m).map Prod.fst).Pairwise (fun a b => a.same b = false) ∧
      ∀ a ∈ (addToGroup groups k m).map Prod.fst, a = k ∨ a ∈ groups.map Prod.fst := by
  induction groups with
  | nil => exact ⟨List.pairwise_singleton _ _, fun a ha => .inl (List.mem_singleton.mp ha)⟩
  | cons first groups ih =>
    obtain ⟨first, members⟩ := first
    obtain ⟨hfirst, hd⟩ := List.pairwise_cons.mp hd
    obtain ⟨hpairwise, hmem⟩ := ih hd
    rw [addToGroup]
    split
    · exact ⟨List.pairwise_cons.mpr ⟨hfirst, hd⟩, fun a ha => .inr ha⟩
    · next hdiffer =>
      refine ⟨List.pairwise_cons.mpr ⟨fun a ha => ?_, hpairwise⟩, fun a ha => ?_⟩
      · rcases hmem a ha with rfl | hold
        · exact Bool.eq_false_iff.mpr hdiffer
        · exact hfirst a hold
      · rcases List.mem_cons.mp ha with rfl | hrest
        · exact .inr List.mem_cons_self
        · exact (hmem a hrest).imp_right (List.mem_cons_of_mem _)

/-- **Once.** Whatever an aggregate gives, it gives once. -/
theorem once_aggregate {z out : ZSet} {f : Expr} (h : z.aggregate f = .ok out) :
    ∀ entry ∈ out, entry.2 = 1 := by
  obtain ⟨found, hfound, h⟩ := Except.bind_eq_ok.mp h
  have hkeys : (found.map Prod.fst).Pairwise fun a b => a.same b = false := by
    refine List.foldlM_ok_induction
      (fun found : List (Value × List Value) =>
        (found.map Prod.fst).Pairwise fun a b => a.same b = false)
      (fun groups entry next hd hnext => ?_) List.Pairwise.nil hfound
    obtain ⟨pair, -, hnext⟩ := Except.bind_eq_ok.mp hnext
    exact Except.pure_eq_ok.mp hnext ▸ (keys_addToGroup hd).1
  -- every group adds a pair with a key of its own
  let result (group : Value × List Value) : Value :=
    (f.applyTo [group.1, .vec group.2]).toOption.getD .null
  have hstep (group : Value × List Value) (_ : group ∈ found) (z next : ZSet) (hnext : (do
      z.add (.row [group.1, ← f.applyTo [group.1, .vec group.2]]) 1) = .ok next) :
      z.addAll [(.row [group.1, result group], 1)] = .ok next := by
    obtain ⟨v, hv, hadd⟩ := Except.bind_eq_ok.mp hnext
    have hresult : result group = v := by
      show (f.applyTo [group.1, .vec group.2]).toOption.getD .null = v
      rw [hv]
      rfl
    exact addAll_cons_eq_ok.mpr ⟨next, hresult ▸ hadd, rfl⟩
  have hadded := foldlM_eq_addAll hstep h
  rw [← List.map_eq_flatMap] at hadded
  have hdiffer : found.Pairwise fun a b =>
      (Value.row [a.1, result a]).same (.row [b.1, result b]) = false := by
    refine (List.pairwise_map.mp hkeys).imp fun {a b} hab => ?_
    rw [Bool.eq_false_iff, ne_eq, Value.row_same_iff]
    rintro (_ | ⟨hsame, -⟩)
    exact Bool.false_ne_true (hab.symm.trans hsame)
  rw [addAll_once hdiffer hadded]
  intro entry hentry
  obtain ⟨group, -, rfl⟩ := List.mem_map.mp hentry
  rfl

/-! ### The row of no rows -/

section

variable {z p m out : ZSet} {f : Expr} {u v : Value}

theorem add_nil_one : ZSet.add [] v 1 = .ok [(v, 1)] := rfl

theorem merge_nil_left : ZSet.merge [] [(v, 1)] 1 = .ok [(v, 1)] := rfl

theorem merge_nil_right {sign : Int} : z.merge [] sign = .ok z := rfl

theorem map_single (h : f.applyTo [u] = .ok v) : ZSet.map [(u, 1)] f = .ok [(v, 1)] := by
  unfold ZSet.map
  rw [List.foldlM_cons]
  dsimp only
  rw [h]
  rfl

/-- A row that is taken away from itself leaves nothing. -/
theorem merge_self : ZSet.merge [(v, 1)] [(v, 1)] (-1) = .ok [] := by
  have hsame : v.same v = true := Value.same_equivalence.refl v
  have hadd : ZSet.add [(v, 1)] v (1 * -1) = .ok [] := by
    rw [add_eq_ok, Weighted.add?, Weighted.weight_cons, Weighted.erase, if_pos hsame, if_pos hsame]
    rfl
  unfold merge
  rw [mergeFrom, hadd]
  rfl

/-- **Or a row of its own.** A Z-set with the row `v` minus one copy of it for each of its rows: `v`
comes in where there is no row, and a single row stays alone. -/
theorem orDefault (hcopies : z.map f = .ok p) (hdifference : difference [(v, 1)] p = .ok m)
    (hsum : accumulate [z, m] = .ok out) :
    (z = [] → out = [(v, 1)]) ∧ ∀ u, z = [(u, 1)] → f.applyTo [u] = .ok v → out = [(u, 1)] := by
  rw [difference, merge_nil_left, Except.ok_bind] at hdifference
  constructor
  · rintro rfl
    -- there is no copy, so the row is missing
    obtain rfl : [] = p := Except.ok.inj hcopies
    rw [merge_nil_right] at hdifference
    obtain rfl := Except.ok.inj hdifference
    exact (Except.ok.inj hsum).symm
  · rintro u rfl hu
    -- there is one copy, and it cancels the row
    rw [map_single hu] at hcopies
    obtain rfl := Except.ok.inj hcopies
    rw [merge_self] at hdifference
    obtain rfl := Except.ok.inj hdifference
    exact (Except.ok.inj hsum).symm

end

end ZSet
end DeltaCircuit
