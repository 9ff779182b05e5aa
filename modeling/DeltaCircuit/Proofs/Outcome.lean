import Mathlib.Data.List.Forall2

/-!
# Computations that may fail

What it means for a computation in `Except` to succeed, read off its last step. The lemmas take a
successful composite apart into its successful parts, so that no proof unfolds the monad.

* `Except.bind_eq_ok`, `StateT.bind_eq_ok` — one step after another, in a state or without one.
* `List.mapM_eq_ok`, `List.foldlM_ok_induction`, `List.foldlM_ok_mono` — a step for every item of a
  list.
* `Except.Ensures`, `Except.Ensures.bind` — what holds of whatever a computation gives, put together
  from its steps.
* `Except.Follows`, `Except.Follows.bind` — what one computation gives is related to what another
  one gives.
* `StateT.InStep`, `StateT.InStep.bind` — the same for computations with a state, which they change
  alike.
* `Except.RaisesOnly` — the same for the errors that a computation ends in.
* `ExceptT.Gives`, `ExceptT.gives_bind` — the same for computations that also change a state.
-/

namespace Except

variable {ε ε' α β : Type}

/-- **Sequencing.** A sequence succeeds iff both steps do, the second one on what the first one
gave. -/
@[simp] theorem bind_eq_ok {x : Except ε α} {f : α → Except ε β} {b : β} :
    (x >>= f) = .ok b ↔ ∃ a, x = .ok a ∧ f a = .ok b := by
  -- a failing first step leaves nothing to run
  cases x with
  | error e => simp [bind, Except.bind]
  | ok a => simp [bind, Except.bind]

/-- A sequence fails iff one of its steps does, the second one on what the first one gave. -/
theorem bind_eq_error {x : Except ε α} {f : α → Except ε β} {e : ε} :
    (x >>= f) = .error e ↔ x = .error e ∨ ∃ a, x = .ok a ∧ f a = .error e := by
  cases x with
  | error e => simp [bind, Except.bind]
  | ok a => simp [bind, Except.bind]

@[simp] theorem ok_bind {a : α} {f : α → Except ε β} : ((Except.ok a : Except ε α) >>= f) = f a :=
  rfl

@[simp] theorem pure_eq_ok {a b : α} : (pure a : Except ε α) = .ok b ↔ a = b := by
  simp [pure, Except.pure]

@[simp] theorem throw_eq_ok {e : ε} {b : α} : (throw e : Except ε α) = .ok b ↔ False := by
  simp [throw, throwThe, MonadExceptOf.throw]

@[simp] theorem map_eq_ok {x : Except ε α} {f : α → β} {b : β} :
    x.map f = .ok b ↔ ∃ a, x = .ok a ∧ f a = b := by
  cases x <;> simp [Except.map]

@[simp] theorem functor_map_eq_ok {x : Except ε α} {f : α → β} {b : β} :
    (f <$> x) = .ok b ↔ ∃ a, x = .ok a ∧ f a = b := by
  change x.map f = .ok b ↔ _
  exact map_eq_ok

@[simp] theorem discard_eq_ok {x : Except ε α} {u : Unit} :
    discard x = .ok u ↔ ∃ a, x = .ok a := by
  cases x <;> simp [discard, Functor.discard, Functor.mapConst, Except.map]

@[simp] theorem mapError_eq_ok {x : Except ε α} {f : ε → ε'} {a : α} :
    x.mapError f = .ok a ↔ x = .ok a := by
  cases x <;> simp [Except.mapError]

@[simp] theorem toOption_eq_some {x : Except ε α} {a : α} : x.toOption = some a ↔ x = .ok a := by
  cases x <;> simp [Except.toOption]

/-! ### What is ensured -/

/-- Whatever the computation gives has the property. -/
def Ensures (x : Except ε α) (P : α → Prop) : Prop := ∀ a, x = .ok a → P a

variable {P : α → Prop} {Q : β → Prop}

theorem ensures_ok {a : α} (h : P a) : (Except.ok a : Except ε α).Ensures P := by
  rintro _ ⟨⟩
  exact h

theorem ensures_pure {a : α} (h : P a) : (pure a : Except ε α).Ensures P := ensures_ok h

theorem ensures_error {e : ε} : (Except.error e : Except ε α).Ensures P := nofun

theorem ensures_throw {e : ε} : (throw e : Except ε α).Ensures P := nofun

theorem ensures_true (x : Except ε α) : x.Ensures fun _ => True := fun _ _ => trivial

theorem Ensures.bind {x : Except ε α} {f : α → Except ε β} (hx : x.Ensures P)
    (hf : ∀ a, P a → (f a).Ensures Q) : (x >>= f).Ensures Q := by
  intro b h
  obtain ⟨a, ha, hb⟩ := bind_eq_ok.mp h
  exact hf a (hx a ha) b hb

theorem Ensures.mapError {x : Except ε α} {f : ε → ε'} (hx : x.Ensures P) :
    (x.mapError f).Ensures P := fun a h => hx a (mapError_eq_ok.mp h)

/-! ### Two computations -/

section

variable {α' β' : Type} {R : α → α' → Prop} {S : β → β' → Prop}

/-- Whatever the first computation gives, the second one gives something related to it. -/
def Follows (R : α → α' → Prop) (x : Except ε α) (y : Except ε α') : Prop :=
  ∀ a, x = .ok a → ∃ b, y = .ok b ∧ R a b

theorem follows_ok {a : α} {b : α'} (h : R a b) :
    (Except.ok a : Except ε α).Follows R (Except.ok b : Except ε α') := by
  rintro _ ⟨⟩
  exact ⟨b, rfl, h⟩

theorem follows_pure {a : α} {b : α'} (h : R a b) :
    (pure a : Except ε α).Follows R (pure b : Except ε α') := follows_ok h

theorem follows_error {e : ε} {y : Except ε α'} : (Except.error e : Except ε α).Follows R y := nofun

theorem follows_throw {e : ε} {y : Except ε α'} : (throw e : Except ε α).Follows R y := nofun

theorem Follows.bind {x : Except ε α} {y : Except ε α'} {f : α → Except ε β}
    {g : α' → Except ε β'} (hxy : x.Follows R y) (hfg : ∀ a b, R a b → (f a).Follows S (g b)) :
    (x >>= f).Follows S (y >>= g) := by
  intro c hc
  obtain ⟨a, ha, hc⟩ := bind_eq_ok.mp hc
  obtain ⟨b, hb, hab⟩ := hxy a ha
  obtain ⟨d, hd, hcd⟩ := hfg a b hab c hc
  exact ⟨d, bind_eq_ok.mpr ⟨b, hb, hd⟩, hcd⟩

end

/-! ### What is raised -/

/-- Whatever error the computation ends in has the property. -/
def RaisesOnly (E : ε → Prop) (x : Except ε α) : Prop := ∀ e, x = .error e → E e

section

variable {E E' : ε → Prop} {x : Except ε α}

theorem raisesOnly_ok {a : α} : (Except.ok a : Except ε α).RaisesOnly E := nofun

theorem raisesOnly_error {e : ε} (h : E e) : (Except.error e : Except ε α).RaisesOnly E := by
  rintro _ ⟨⟩
  exact h

theorem RaisesOnly.imp (hx : x.RaisesOnly E) (h : ∀ e, E e → E' e) : x.RaisesOnly E' :=
  fun e he => h e (hx e he)

theorem RaisesOnly.bind {f : α → Except ε β} (hx : x.RaisesOnly E)
    (hf : ∀ a, (f a).RaisesOnly E) : (x >>= f).RaisesOnly E := by
  cases x with
  | error e => exact raisesOnly_error (hx e rfl)
  | ok a => exact hf a

theorem RaisesOnly.map (hx : x.RaisesOnly E) (f : α → β) : (x.map f).RaisesOnly E := by
  cases x with
  | error e => exact raisesOnly_error (hx e rfl)
  | ok a => exact raisesOnly_ok

theorem RaisesOnly.foldlM_of_mem {f : β → α → Except ε β} :
    ∀ {as : List α} (init : β), (∀ a ∈ as, ∀ b, (f b a).RaisesOnly E) →
      (as.foldlM f init).RaisesOnly E
  | [], _, _ => raisesOnly_ok
  | a :: as, init, hf => by
    obtain ⟨hfirst, hrest⟩ := List.forall_mem_cons.mp hf
    rw [List.foldlM_cons]
    exact (hfirst init).bind fun next => RaisesOnly.foldlM_of_mem next hrest

theorem RaisesOnly.foldlM {f : β → α → Except ε β} (hf : ∀ b a, (f b a).RaisesOnly E)
    (as : List α) (init : β) : (as.foldlM f init).RaisesOnly E :=
  .foldlM_of_mem init fun a _ b => hf b a

end

end Except

/-! ### Computations with a state -/

namespace StateT

variable {ε σ α β : Type} {x : StateT σ (Except ε) α} {f : α → StateT σ (Except ε) β} {s s'' : σ}

theorem bind_eq_ok {b : β} :
    (x >>= f) s = .ok (b, s'') ↔ ∃ a s', x s = .ok (a, s') ∧ f a s' = .ok (b, s'') := by
  show (x s >>= fun p => f p.1 p.2) = _ ↔ _
  rw [Except.bind_eq_ok]
  exact Prod.exists

theorem bind_eq_error {e : ε} :
    (x >>= f) s = .error e ↔ x s = .error e ∨ ∃ a s', x s = .ok (a, s') ∧ f a s' = .error e := by
  show (x s >>= fun p => f p.1 p.2) = _ ↔ _
  rw [Except.bind_eq_error]
  exact or_congr Iff.rfl Prod.exists

theorem map_eq_ok {g : α → β} {b : β} :
    (g <$> x) s = .ok (b, s'') ↔ ∃ a, x s = .ok (a, s'') ∧ g a = b := by
  rw [map_eq_pure_bind, bind_eq_ok]
  constructor
  · rintro ⟨a, _, ha, ⟨⟩⟩
    exact ⟨a, ha, rfl⟩
  · rintro ⟨a, ha, rfl⟩
    exact ⟨a, s'', ha, rfl⟩

theorem liftM_eq_ok {y : Except ε α} {a : α} :
    (liftM y : StateT σ (Except ε) α) s = .ok (a, s'') ↔ y = .ok a ∧ s'' = s := by
  show (y >>= fun b => pure (b, s)) = _ ↔ _
  cases y with
  | error e => exact ⟨nofun, nofun⟩
  | ok b => simp [eq_comm]

theorem liftM_eq_error {y : Except ε α} {e : ε} :
    (liftM y : StateT σ (Except ε) α) s = .error e ↔ y = .error e := by
  -- a pure result is no error
  show (y >>= fun b => pure (b, s)) = _ ↔ _
  rw [Except.bind_eq_error]
  constructor
  · rintro (h | ⟨_, _, hpure⟩)
    · exact h
    · cases hpure
  · exact .inl

/-! ### Two computations with a state -/

section

variable {α' β' : Type} {R : α → α' → Prop} {S : β → β' → Prop}

/-- Whatever the first computation gives from a state, the second one gives something related to it
from that state, and both leave one state behind. -/
def InStep (R : α → α' → Prop) (x : StateT σ (Except ε) α) (y : StateT σ (Except ε) α') : Prop :=
  ∀ s, (x s).Follows (fun p q => R p.1 q.1 ∧ p.2 = q.2) (y s)

theorem inStep_self (x : StateT σ (Except ε) α) : InStep Eq x x :=
  fun _ p hp => ⟨p, hp, rfl, rfl⟩

theorem inStep_pure {a : α} {b : α'} (h : R a b) :
    InStep R (pure a : StateT σ (Except ε) α) (pure b) :=
  fun _ => Except.follows_ok ⟨h, rfl⟩

theorem inStep_liftM {x : Except ε α} {y : Except ε α'} (h : x.Follows R y) :
    InStep R (liftM x : StateT σ (Except ε) α) (liftM y) := by
  rintro s ⟨a, s'⟩ hx
  obtain ⟨ha, rfl⟩ := liftM_eq_ok.mp hx
  obtain ⟨b, hb, hab⟩ := h a ha
  exact ⟨(b, s'), liftM_eq_ok.mpr ⟨hb, rfl⟩, hab, rfl⟩

theorem InStep.bind {x : StateT σ (Except ε) α} {y : StateT σ (Except ε) α'}
    {f : α → StateT σ (Except ε) β} {g : α' → StateT σ (Except ε) β'} (hxy : InStep R x y)
    (hfg : ∀ a b, R a b → InStep S (f a) (g b)) : InStep S (x >>= f) (y >>= g) := by
  intro s
  -- both are in one state after the first steps
  refine (hxy s).bind ?_
  rintro ⟨a, s'⟩ ⟨b, _⟩ ⟨hab, rfl⟩
  exact hfg a b hab s'

theorem InStep.map {x : StateT σ (Except ε) α} {y : StateT σ (Except ε) α'} (f : α → β)
    (g : α' → β') (hxy : InStep R x y) (hfg : ∀ a b, R a b → S (f a) (g b)) :
    InStep S (f <$> x) (g <$> y) := by
  rintro s ⟨_, s'⟩ hx
  obtain ⟨a, ha, rfl⟩ := map_eq_ok.mp hx
  obtain ⟨⟨b, _⟩, hb, hab, rfl⟩ := hxy s _ ha
  exact ⟨(g b, s'), map_eq_ok.mpr ⟨b, hb, rfl⟩, hfg a b hab, rfl⟩

end

end StateT

namespace ExceptT

variable {ε σ α β : Type} {x : ExceptT ε (StateM σ) α} {f : α → ExceptT ε (StateM σ) β}
  {s s' : σ} {a : α} {b : β}

theorem bind_run_ok {t : σ} (h : x s = (.ok a, t)) : (x >>= f) s = f a t := by
  change (ExceptT.bindCont f (x s).1) (x s).2 = _
  rw [h]
  rfl

theorem bind_run_error {e : ε} {t : σ} (h : x s = (.error e, t)) :
    (x >>= f) s = (.error e, t) := by
  change (ExceptT.bindCont f (x s).1) (x s).2 = _
  rw [h]
  rfl

theorem discard_run_ok {t : σ} (h : x s = (.ok a, t)) :
    (discard x : ExceptT ε (StateM σ) Unit) s = (.ok (), t) := by
  show ExceptT.map (fun _ => ()) x s = _
  simp only [ExceptT.map, ExceptT.mk, bind, StateT.bind, h]
  rfl

theorem discard_run_error {e : ε} {t : σ} (h : x s = (.error e, t)) :
    (discard x : ExceptT ε (StateM σ) Unit) s = (.error e, t) := by
  show ExceptT.map (fun _ => ()) x s = _
  simp only [ExceptT.map, ExceptT.mk, bind, StateT.bind, h]
  rfl

/-- The state that is left does not depend on what is done with the result. -/
theorem discard_run_snd (x : ExceptT ε (StateM σ) α) (s : σ) :
    -- the computation is run once, and the state comes out as it is
    ((discard x : ExceptT ε (StateM σ) Unit) s).2 = (x s).2 := by
  obtain ⟨result, t, hx⟩ : ∃ result t, x s = (result, t) := ⟨_, _, rfl⟩
  cases result with
  | error e => rw [discard_run_error hx, hx]
  | ok a => rw [discard_run_ok hx, hx]

/-- A computation that starts in the state `s` succeeds with `a` and ends in the state `s'`. -/
def Gives (x : ExceptT ε (StateM σ) α) (s : σ) (a : α) (s' : σ) : Prop := x s = (.ok a, s')

theorem gives_iff {result : Except ε α} {t : σ} (h : x s = (result, t)) :
    x.Gives s a s' ↔ result = .ok a ∧ t = s' := by
  unfold Gives
  rw [h]
  exact Prod.mk.injEq .. ▸ Iff.rfl

/-- **Sequencing.** A sequence succeeds iff both steps do, the second one from where the first one
ends. -/
theorem gives_bind : (x >>= f).Gives s b s' ↔ ∃ a t, x.Gives s a t ∧ (f a).Gives t b s' := by
  obtain ⟨result, t, hx⟩ : ∃ result t, x s = (result, t) := ⟨_, _, rfl⟩
  cases result with
  | error e => simp [gives_iff (bind_run_error hx), gives_iff hx]
  | ok a =>
    unfold Gives
    rw [bind_run_ok hx]
    constructor
    · intro h
      exact ⟨a, t, hx, h⟩
    · -- the first step is deterministic
      rintro ⟨a', t', hx', h⟩
      cases hx.symm.trans hx'
      exact h

theorem gives_pure {a' : α} :
    (pure a : ExceptT ε (StateM σ) α).Gives s a' s' ↔ a = a' ∧ s = s' := by
  have hrun : (pure a : ExceptT ε (StateM σ) α) s = (.ok a, s) := rfl
  rw [gives_iff hrun, Except.ok.injEq]

theorem gives_throw {e : ε} : (throw e : ExceptT ε (StateM σ) α).Gives s a s' ↔ False := by
  have hrun : (throw e : ExceptT ε (StateM σ) α) s = (.error e, s) := rfl
  simp [gives_iff hrun]

theorem gives_discard {u : Unit} : (discard x).Gives s u s' ↔ ∃ a, x.Gives s a s' := by
  obtain ⟨result, t, hx⟩ : ∃ result t, x s = (result, t) := ⟨_, _, rfl⟩
  cases result with
  | error e => simp [gives_iff (discard_run_error hx), gives_iff hx]
  | ok a => simp [gives_iff (discard_run_ok hx), gives_iff hx]

/-- A computation gives one thing only. -/
theorem Gives.unique {a' : α} {t t' : σ} (h : x.Gives s a t) (h' : x.Gives s a' t') :
    a = a' ∧ t = t' := by
  obtain ⟨ha, ht⟩ := Prod.mk.inj (Eq.trans (Eq.symm h) h')
  exact ⟨Except.ok.inj ha, ht⟩

end ExceptT

namespace List

variable {ε α β : Type}

/-- A step for every item succeeds iff every single step does. -/
theorem mapM_eq_ok {f : α → Except ε β} {as : List α} {bs : List β} :
    as.mapM f = .ok bs ↔ Forall₂ (fun a b => f a = .ok b) as bs := by
  induction as generalizing bs with
  | nil => cases bs <;> simp
  | cons a as ih =>
    rw [List.mapM_cons]
    simp only [Except.bind_eq_ok, Except.pure_eq_ok]
    constructor
    · rintro ⟨b, hb, rest, hrest, rfl⟩
      exact .cons hb (ih.mp hrest)
    · rintro (_ | ⟨hb, hrest⟩)
      exact ⟨_, hb, _, ih.mpr hrest, rfl⟩

/-- A checked step for every item succeeds iff every check does. -/
theorem mapM_checked_eq_ok {f : α → Except ε β} {check : α → Prop} {g : α → β}
    (hf : ∀ a b, f a = .ok b ↔ check a ∧ b = g a) {as : List α} {bs : List β} :
    as.mapM f = .ok bs ↔ (∀ a ∈ as, check a) ∧ bs = as.map g := by
  rw [mapM_eq_ok, eq_comm, ← forall₂_eq_eq_eq, forall₂_map_left_iff, ← forall₂_and_left]
  simp only [hf, eq_comm]

/-- What every step ensures holds of everything that the steps give. -/
-- each position of the result goes back to an item of the list
theorem ensures_mapM {f : α → Except ε β} {as : List α} {P : β → Prop}
    (h : ∀ a ∈ as, (f a).Ensures P) : (as.mapM f).Ensures fun bs => ∀ b ∈ bs, P b := by
  intro bs hbs b hb
  obtain ⟨n, hn⟩ := List.mem_iff_getElem?.mp hb
  obtain ⟨hlt, rfl⟩ := List.getElem?_eq_some_iff.mp hn
  have hall := mapM_eq_ok.mp hbs
  have hlt' : n < as.length := hall.length_eq ▸ hlt
  exact h _ (List.getElem_mem hlt') _ (hall.get hlt' hlt)

/-- Related lists are related place by place. -/
theorem Forall₂.getElem? {R : α → β → Prop} {as : List α} {bs : List β} (h : Forall₂ R as bs)
    (n : Nat) :
    (as[n]? = none ∧ bs[n]? = none) ∨ ∃ a b, as[n]? = some a ∧ bs[n]? = some b ∧ R a b := by
  induction h generalizing n with
  | nil => exact .inl ⟨rfl, rfl⟩
  | cons hab _ ih =>
    cases n with
    | zero => exact .inr ⟨_, _, rfl, rfl, hab⟩
    | succ n => simpa using ih n

/-- An item of the second list comes from one of the first. -/
theorem Forall₂.exists_of_mem_right {R : α → β → Prop} {as : List α} {bs : List β}
    (h : Forall₂ R as bs) {b : β} (hb : b ∈ bs) : ∃ a ∈ as, R a b := by
  induction h with
  | nil => exact absurd hb not_mem_nil
  | cons hab _ ih =>
    rcases mem_cons.mp hb with rfl | hb
    · exact ⟨_, mem_cons_self, hab⟩
    · obtain ⟨a, ha, hR⟩ := ih hb
      exact ⟨a, mem_cons_of_mem _ ha, hR⟩

theorem getElem?_concat_eq_some {l : List α} {a b : α} {i : Nat} :
    (l ++ [a])[i]? = some b ↔ l[i]? = some b ∨ (i = l.length ∧ a = b) := by
  -- before the end, at the end and behind it
  rcases Nat.lt_trichotomy i l.length with hlt | rfl | hgt
  · rw [List.getElem?_append_left hlt]
    simp [Nat.ne_of_lt hlt]
  · simp
  · rw [List.getElem?_eq_none (by simp; omega), List.getElem?_eq_none (by omega)]
    simp [Nat.ne_of_gt hgt]

/-- If every item is related to something, the list is related to a list. -/
theorem exists_forall₂ {R : α → β → Prop} {as : List α} (h : ∀ a ∈ as, ∃ b, R a b) :
    ∃ bs, Forall₂ R as bs := by
  induction as with
  | nil => exact ⟨[], .nil⟩
  | cons a as ih =>
    obtain ⟨b, hb⟩ := h a mem_cons_self
    obtain ⟨bs, hbs⟩ := ih fun a ha => h a (mem_cons_of_mem _ ha)
    exact ⟨b :: bs, .cons hb hbs⟩

/-- Two relations one after the other, item by item. -/
theorem forall₂_comp {γ : Type} {R : α → β → Prop} {S : β → γ → Prop} {as : List α}
    {cs : List γ} :
    Forall₂ (fun a c => ∃ b, R a b ∧ S b c) as cs ↔ ∃ bs, Forall₂ R as bs ∧ Forall₂ S bs cs := by
  constructor
  · intro h
    induction h with
    | nil => exact ⟨[], .nil, .nil⟩
    | cons hac _ ih =>
      obtain ⟨b, hab, hbc⟩ := hac
      obtain ⟨bs, hR, hS⟩ := ih
      exact ⟨b :: bs, .cons hab hR, .cons hbc hS⟩
  · rintro ⟨bs, hR, hS⟩
    induction hR generalizing cs with
    | nil =>
      cases hS
      exact .nil
    | cons hab _ ih =>
      cases hS with
      | cons hbc hS => exact .cons ⟨_, hab, hbc⟩ (ih hS)

/-- What holds at the start and is kept by the step for every item holds at the end. -/
theorem foldlM_ok_induction_of_mem {f : β → α → Except ε β} (P : β → Prop) {as : List α}
    (hstep : ∀ a ∈ as, ∀ b b', P b → f b a = .ok b' → P b') {init out : β}
    (hinit : P init) (h : as.foldlM f init = .ok out) : P out := by
  induction as generalizing init with
  | nil =>
    obtain rfl : init = out := by simpa using h
    exact hinit
  | cons a as ih =>
    rw [List.foldlM_cons, Except.bind_eq_ok] at h
    obtain ⟨next, hnext, hrest⟩ := h
    have hfirst : P next := hstep a mem_cons_self init next hinit hnext
    exact ih (fun a ha => hstep a (mem_cons_of_mem _ ha)) hfirst hrest

/-- What holds at the start and is kept by every step holds at the end. -/
theorem foldlM_ok_induction {f : β → α → Except ε β} (P : β → Prop)
    (hstep : ∀ b a b', P b → f b a = .ok b' → P b') {as : List α} {init out : β}
    (hinit : P init) (h : as.foldlM f init = .ok out) : P out :=
  foldlM_ok_induction_of_mem P (fun a _ b b' => hstep b a b') hinit h

/-- Steps that give what other steps give add up to what those add up to. -/
theorem foldlM_ok_mono {f g : β → α → Except ε β} {as : List α} {init out : β}
    (hstep : ∀ a ∈ as, ∀ b b', f b a = .ok b' → g b a = .ok b')
    (h : as.foldlM f init = .ok out) : as.foldlM g init = .ok out := by
  induction as generalizing init with
  | nil => exact h
  | cons a as ih =>
    rw [List.foldlM_cons, Except.bind_eq_ok] at h ⊢
    obtain ⟨next, hnext, hrest⟩ := h
    exact ⟨next, hstep a mem_cons_self _ _ hnext,
      ih (fun b hb => hstep b (mem_cons_of_mem _ hb)) hrest⟩

/-- A fold that succeeds has taken every step. -/
theorem exists_of_foldlM_ok {f : β → α → Except ε β} {as : List α} {init out : β}
    (h : as.foldlM f init = .ok out) {a : α} (ha : a ∈ as) : ∃ b b', f b a = .ok b' := by
  induction as generalizing init with
  | nil => exact absurd ha not_mem_nil
  | cons first as ih =>
    rw [List.foldlM_cons, Except.bind_eq_ok] at h
    obtain ⟨next, hnext, hrest⟩ := h
    rcases mem_cons.mp ha with rfl | ha
    · exact ⟨init, next, hnext⟩
    · exact ih hrest ha

/-- Keeping some items and mapping them is adding at most one item for each. -/
theorem flatMap_if (p : α → Bool) (g : α → β) (as : List α) :
    (as.flatMap fun a => if p a then [g a] else []) = (as.filter p).map g := by
  induction as with
  | nil => rfl
  | cons a as ih =>
    rw [flatMap_cons, ih, filter_cons]
    split <;> rfl

end List
