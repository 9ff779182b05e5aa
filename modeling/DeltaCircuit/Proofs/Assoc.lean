import DeltaCircuit.Assoc
import Mathlib.Data.List.Induction

/-!
# Look-ups in association lists

What a look-up finds after an update (`get?_set`), and after the updates of a list one after another
(`setAll`): the last one of a key counts (`get?_setAll`), and the order of the keys does not depend
on the values (`keys_setAll`).
-/

namespace DeltaCircuit.Assoc

variable {κ β : Type} [DecidableEq κ]

@[simp] theorem get?_nil (key : κ) : get? ([] : List (κ × β)) key = none := rfl

theorem get?_cons (k : κ) (b : β) (rest : List (κ × β)) (key : κ) :
    get? ((k, b) :: rest) key = if k = key then some b else get? rest key := rfl

theorem mem_of_get? {entries : List (κ × β)} {key : κ} {value : β}
    (h : get? entries key = some value) : (key, value) ∈ entries := by
  induction entries with
  | nil => cases h
  | cons entry entries ih =>
    rw [get?_cons] at h
    split at h
    · next hkey =>
      obtain rfl := Option.some.inj h
      exact hkey ▸ List.mem_cons_self
    · exact List.mem_cons_of_mem _ (ih h)

theorem isSome_get?_iff {entries : List (κ × β)} {key : κ} :
    (get? entries key).isSome ↔ key ∈ entries.map Prod.fst := by
  induction entries with
  | nil => simp
  | cons entry entries ih =>
    obtain ⟨k, b⟩ := entry
    rw [get?_cons, List.map_cons, List.mem_cons, ← ih]
    by_cases hk : k = key
    · simp [hk]
    · simp [hk, Ne.symm hk]

/-- A key that is set has its new value, and all others keep theirs. -/
theorem get?_set (entries : List (κ × β)) (key : κ) (value : β) (other : κ) :
    get? (set entries key value) other =
      if key = other then some value else get? entries other := by
  induction entries with
  | nil => rfl
  | cons entry entries ih =>
    obtain ⟨k, b⟩ := entry
    rw [set]
    -- the key is found here, and the entry gets its new value
    by_cases hk : k = key
    · subst hk
      rw [if_pos rfl, get?_cons, get?_cons]
      split <;> rfl
    · -- it is further down, and this entry stays
      rw [if_neg hk, get?_cons, get?_cons, ih]
      by_cases hother : k = other
      · subst hother
        rw [if_pos rfl, if_pos rfl, if_neg (Ne.symm hk)]
      · rw [if_neg hother, if_neg hother]

@[simp] theorem get?_set_self (entries : List (κ × β)) (key : κ) (value : β) :
    get? (set entries key value) key = some value := by
  rw [get?_set, if_pos rfl]

theorem get?_set_of_ne (entries : List (κ × β)) {key other : κ} (value : β) (h : key ≠ other) :
    get? (set entries key value) other = get? entries other := by
  rw [get?_set, if_neg h]

/-- The first entry of a key counts. -/
theorem get?_append_cons {front : List (κ × β)} {key : κ} (hkey : key ∉ front.map Prod.fst)
    (value : β) (rest : List (κ × β)) : get? (front ++ (key, value) :: rest) key = some value := by
  induction front with
  | nil => rw [List.nil_append, get?_cons, if_pos rfl]
  | cons entry front ih =>
    rw [List.map_cons, List.mem_cons, not_or] at hkey
    rw [List.cons_append, get?_cons, if_neg (Ne.symm hkey.1), ih hkey.2]

/-- An update keeps the place of the key. -/
theorem set_append_cons {front : List (κ × β)} {key : κ} (hkey : key ∉ front.map Prod.fst)
    (old value : β) (rest : List (κ × β)) :
    set (front ++ (key, old) :: rest) key value = front ++ (key, value) :: rest := by
  induction front with
  | nil => rw [List.nil_append, set, if_pos rfl, List.nil_append]
  | cons entry front ih =>
    rw [List.map_cons, List.mem_cons, not_or] at hkey
    rw [List.cons_append, set, if_neg (Ne.symm hkey.1), ih hkey.2, List.cons_append]

/-- A new key goes to the end. -/
theorem set_of_notMem {entries : List (κ × β)} {key : κ} (hkey : key ∉ entries.map Prod.fst)
    (value : β) : set entries key value = entries ++ [(key, value)] := by
  induction entries with
  | nil => rfl
  | cons entry entries ih =>
    rw [List.map_cons, List.mem_cons, not_or] at hkey
    rw [set, if_neg (Ne.symm hkey.1), ih hkey.2, List.cons_append]

/-- Values are looked up after they have been mapped as before. -/
theorem get?_map {γ : Type} (entries : List (κ × β)) (f : β → γ) (key : κ) :
    get? (entries.map fun entry => (entry.1, f entry.2)) key = (get? entries key).map f := by
  induction entries with
  | nil => rfl
  | cons entry entries ih =>
    obtain ⟨k, b⟩ := entry
    rw [List.map_cons, get?_cons, get?_cons, ih]
    split <;> rfl

theorem set_map {γ : Type} (entries : List (κ × β)) (f : β → γ) (key : κ) (value : β) :
    set (entries.map fun entry => (entry.1, f entry.2)) key (f value) =
      (set entries key value).map fun entry => (entry.1, f entry.2) := by
  induction entries with
  | nil => rfl
  | cons entry entries ih =>
    obtain ⟨k, b⟩ := entry
    rw [List.map_cons, set, set, ih]
    split <;> rfl

/-- After an update the entries are old or the new one. -/
theorem mem_set {entries : List (κ × β)} {key : κ} {value : β} {entry : κ × β}
    (h : entry ∈ set entries key value) : entry ∈ entries ∨ entry = (key, value) := by
  induction entries with
  | nil => exact .inr (List.mem_singleton.mp h)
  | cons first entries ih =>
    obtain ⟨k, b⟩ := first
    rw [set] at h
    split at h
    · next hk =>
      -- the entry of the key is exchanged
      rcases List.mem_cons.mp h with hfirst | hrest
      · exact .inr (hk ▸ hfirst)
      · exact .inl (List.mem_cons_of_mem _ hrest)
    · rcases List.mem_cons.mp h with hfirst | hrest
      · exact .inl (hfirst ▸ List.mem_cons_self)
      · exact (ih hrest).imp_left (List.mem_cons_of_mem _)

/-- A key that is not there is removed by doing nothing. -/
theorem erase_of_get?_eq_none {entries : List (κ × β)} {key : κ} (h : get? entries key = none) :
    erase entries key = entries := by
  induction entries with
  | nil => rfl
  | cons entry entries ih =>
    obtain ⟨k, b⟩ := entry
    rw [get?_cons] at h
    by_cases hk : k = key
    · rw [if_pos hk] at h
      cases h
    · rw [if_neg hk] at h
      rw [erase, if_neg hk, ih h]

/-! ### Many updates -/

/-- The updates of a list, one after another from nothing. -/
def setAll (entries : List (κ × β)) : List (κ × β) :=
  entries.foldl (fun found entry => set found entry.1 entry.2) []

theorem setAll_concat (entries : List (κ × β)) (key : κ) (value : β) :
    setAll (entries ++ [(key, value)]) = set (setAll entries) key value := by
  simp [setAll]

variable {ι : Type}

/-- Only updates come out. -/
theorem mem_of_mem_setAll {entries : List (κ × β)} {entry : κ × β} (h : entry ∈ setAll entries) :
    entry ∈ entries := by
  -- from the end, since the last update is the one that may undo an earlier one
  induction entries using List.reverseRecOn with
  | nil => exact h
  | append_singleton entries last ih =>
    rw [setAll_concat] at h
    rcases mem_set h with hold | rfl
    · exact List.mem_append_left _ (ih hold)
    · exact List.mem_append_right _ (List.mem_singleton_self _)

/-- The last update of a key counts. -/
theorem get?_setAll (items : List ι) (key : ι → κ) (value : ι → β) (k : κ) :
    get? (setAll (items.map fun i => (key i, value i))) k =
      (items.reverse.find? fun i => key i = k).map value := by
  induction items using List.reverseRecOn with
  | nil => rfl
  | append_singleton items i ih =>
    rw [List.map_append, List.map_singleton, setAll_concat, get?_set, List.reverse_append,
      List.reverse_singleton, List.singleton_append, List.find?_cons]
    -- the last item updates the key, or leaves it to those before
    by_cases hk : key i = k
    · simp [hk]
    · simp [hk, ih]

/-- The keys after an update depend on the keys alone. -/
theorem keys_set (entries : List (κ × β)) (key : κ) (value : β) :
    (set entries key value).map Prod.fst =
      if key ∈ entries.map Prod.fst then entries.map Prod.fst
      else entries.map Prod.fst ++ [key] := by
  induction entries with
  | nil => rfl
  | cons entry entries ih =>
    obtain ⟨k, b⟩ := entry
    rw [set]
    -- a key that is there keeps its place, and any other one goes to the end
    by_cases hk : k = key
    · simp [hk]
    · rw [if_neg hk, List.map_cons, List.map_cons, ih]
      by_cases hmem : key ∈ entries.map Prod.fst
      · simp [hmem]
      · rw [if_neg hmem, if_neg (by simpa [Ne.symm hk] using hmem), List.cons_append]

theorem keys_setAll {γ : Type} (items : List ι) (key : ι → κ) (value : ι → β)
    (value' : ι → γ) :
    (setAll (items.map fun i => (key i, value i))).map Prod.fst =
      (setAll (items.map fun i => (key i, value' i))).map Prod.fst := by
  induction items using List.reverseRecOn with
  | nil => rfl
  | append_singleton items i ih =>
    rw [List.map_append, List.map_append, List.map_singleton, List.map_singleton, setAll_concat,
      setAll_concat, keys_set, keys_set, ih]

end DeltaCircuit.Assoc
