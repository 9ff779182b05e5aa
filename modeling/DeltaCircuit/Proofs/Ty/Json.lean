import DeltaCircuit.Proofs.Outcome
import DeltaCircuit.Ty.Json

/-!
# Types that are read back

Types are built by a few operations, and none of them makes a reference that admits NULL or a type
of the NULL literal that does not. The same holds at every depth of a type that is read from JSON,
and every type with this property is read back from what is written for it.

* `Kind.components`, `Ty.Valid` — the condition, at every depth.
* `Ty.Obtainable`, `Ty.obtainable_iff_valid` — the types that can be built are the valid ones.
* `Ty.ofJson_toJson` — a valid type is read back.
* `Ty.ensures_ofJson` — what is read is valid.
* `Ty.json_faithful` — both together.
-/

namespace DeltaCircuit

/-! ### Valid types -/

/-- The types that a kind is made of. -/
def Kind.components : Kind → List Ty
  | .base _ => []
  | .tuple fields | .rawTuple fields => fields
  | .struct _ fields => fields.map StructField.type
  | .vec element => [element]
  | .zset element weight => [element, weight]
  | .indexedZSet key value weight => [key, value, weight]
  | .function result params => result.toList ++ params
  | .reference inner _ => [inner]
  | .user _ args => args

namespace Ty

/-- A reference does not admit NULL, and the type of the NULL literal does. -/
structure NullsFit (t : Ty) : Prop where
  reference : t.isReference = true → t.nullable = false
  null : t.kind = .base .null → t.nullable = true

/-- A type whose nullability fits its kind at every depth. -/
inductive Valid : Ty → Prop where
  | intro {t : Ty} : t.NullsFit → (∀ c ∈ t.kind.components, Valid c) → Valid t

/-- The types that can be built: from a kind with such components, by a change of the nullability,
as a common type, as a component, and from JSON. -/
inductive Obtainable : Ty → Prop where
  | ofKind {kind : Kind} : (∀ c ∈ kind.components, Obtainable c) → Obtainable (.ofKind kind)
  | withNullable {t t' : Ty} {nullable : Bool} :
    Obtainable t → t.withNullable nullable = .ok t' → Obtainable t'
  | unify {a b t : Ty} : Obtainable a → Obtainable b → a.unify b = .ok t → Obtainable t
  | component {t c : Ty} : Obtainable t → c ∈ t.kind.components → Obtainable c
  | ofJson {json : Json} {t : Ty} : Ty.ofJson json = .ok t → Obtainable t

variable {t t' a b : Ty} {nullable : Bool}

theorem Valid.nullsFit (h : t.Valid) : t.NullsFit := by
  cases h with
  | intro h _ => exact h

theorem Valid.components (h : t.Valid) : ∀ c ∈ t.kind.components, c.Valid := by
  cases h with
  | intro _ h => exact h

theorem nullsFit_ofKind (kind : Kind) : (ofKind kind).NullsFit := by
  constructor
  · intro href
    by_contra hnull
    simp only [ofKind, Bool.not_eq_false, decide_eq_true_eq] at hnull
    rw [hnull] at href
    cases href
  · intro hnull
    exact decide_eq_true hnull

theorem valid_ofKind {kind : Kind} (h : ∀ c ∈ kind.components, c.Valid) : (ofKind kind).Valid :=
  .intro (nullsFit_ofKind kind) h

/-- A change of the nullability succeeds iff the result fits. -/
theorem withNullable_eq_ok (h : t.NullsFit) :
    t.withNullable nullable = .ok t' ↔ t' = ⟨t.kind, nullable⟩ ∧ t'.NullsFit := by
  obtain ⟨kind, own⟩ := t
  unfold withNullable
  split
  · next hsame =>
    -- nothing changes
    obtain rfl : own = nullable := hsame
    constructor
    · intro heq
      obtain rfl := Except.ok.inj heq
      exact ⟨rfl, h⟩
    · rintro ⟨rfl, -⟩
      rfl
  · split
    · next href =>
      -- a reference is refused
      rw [Bool.and_eq_true] at href
      constructor
      · intro heq
        cases heq
      · rintro ⟨rfl, hfit⟩
        exact absurd (href.2.symm.trans (hfit.reference href.1)) nofun
    · next href =>
      split
      · next hnull =>
        -- the type of the NULL literal keeps its NULL
        rw [Bool.and_eq_true, decide_eq_true_eq, Bool.not_eq_true'] at hnull
        constructor
        · intro heq
          cases heq
        · rintro ⟨rfl, hfit⟩
          exact absurd (hnull.2.symm.trans (hfit.null hnull.1)) nofun
      · next hnull =>
        simp only [Bool.and_eq_true, not_and, decide_eq_true_eq, Bool.not_eq_true'] at href hnull
        constructor
        · intro heq
          obtain rfl := Except.ok.inj heq
          exact ⟨rfl, fun hkind => Bool.eq_false_iff.mpr (href hkind),
            fun hkind => Bool.of_not_eq_false (hnull hkind)⟩
        · rintro ⟨rfl, -⟩
          rfl

theorem Valid.withNullable (h : t.Valid) (ht' : t.withNullable nullable = .ok t') : t'.Valid := by
  obtain ⟨rfl, hfit⟩ := (withNullable_eq_ok h.nullsFit).mp ht'
  exact .intro hfit h.components

/-- A common kind is the kind of an operand, or has no components. -/
theorem components_of_unify? {k k' kind : Kind} (h : k.unify? k' = some kind) :
    kind.components = [] ∨ kind = k ∨ kind = k' := by
  unfold Kind.unify? at h
  split at h
  case h_1 => exact .inr (.inr (Option.some.inj h).symm)
  case h_2 => exact .inr (.inl (Option.some.inj h).symm)
  case h_11 =>
    split at h
    · exact .inr (.inl (Option.some.inj h).symm)
    · cases h
  all_goals
    obtain rfl := Option.some.inj h
    exact .inl rfl

theorem Valid.unify (ha : a.Valid) (hb : b.Valid) (h : a.unify b = .ok t) : t.Valid := by
  unfold Ty.unify at h
  split at h
  · next kind hkind =>
    refine (valid_ofKind ?_).withNullable h
    rcases components_of_unify? hkind with hnone | rfl | rfl
    · simp [hnone]
    · exact ha.components
    · exact hb.components
  · cases h

end Ty

/-! ### Reading what is written -/

theorem checkedType_of_nullsFit {kind : Kind} {nullable : Bool}
    (h : Ty.NullsFit ⟨kind, nullable⟩) :
    checkedType (some kind) (some nullable) = .ok ⟨kind, nullable⟩ := by
  have hok := (Ty.withNullable_eq_ok (Ty.nullsFit_ofKind kind)).mpr ⟨rfl, h⟩
  unfold checkedType
  dsimp only
  rw [hok]
  rfl

theorem BaseKind.ofJson_toJson (b : BaseKind) : Kind.ofJson b.toJson = .ok (.base b) := by
  cases b with
  | integer width signed => cases width <;> rfl
  | float width => cases width <;> rfl
  | interval unit => cases unit <;> rfl
  | _ => rfl

/-- A value is read as the part that a shape asks for. -/
def Part.Reads (shape : PartShape) (value : Json) (part : Part) : Prop :=
  partOf shape value (fun _ => Ty.ofJson value) (fun _ => Ty.ofArray value)
    (fun _ => StructField.ofArray value) = .ok part

section

variable {name : String} {shape : PartShape} {layout : List (String × PartShape)}
  {content value : Json} {fields : List (String × Json)} {part : Part}
  {parts : List (String × Part)} {ordered : List Part} {kind : Kind} {t : Ty}

theorem Part.reads_type (h : Ty.ofJson value = .ok t) : Reads .type value (.type t) := by
  unfold Reads partOf
  dsimp only
  rw [h]
  rfl

theorem Part.reads_result (h : Ty.ofJson t.toJson = .ok t) :
    Reads .typeOrNull t.toJson (.type t) := by
  obtain ⟨kind, nullable⟩ := t
  unfold Reads partOf
  dsimp only
  rw [h]
  rfl

theorem Part.reads_types {ts : List Ty} (h : Ty.ofJsonAll (Ty.toJsonAll ts) = .ok ts) :
    Reads .types (.array (Ty.toJsonAll ts)) (.types ts) := by
  unfold Reads partOf
  dsimp only
  rw [Ty.ofArray, h]
  rfl

theorem Part.reads_structFields {fs : List StructField}
    (h : StructField.ofJsonAll (StructField.toJsonAll fs) = .ok fs) :
    Reads .structFields (.array (StructField.toJsonAll fs)) (.structFields fs) := by
  unfold Reads partOf
  dsimp only
  rw [StructField.ofArray, h]
  rfl

theorem Part.ofFields_cons (hshape : layout.lookup name = some shape)
    (hpart : Reads shape value part) (hparts : Part.ofFields fields layout = .ok parts) :
    Part.ofFields ((name, value) :: fields) layout = .ok ((name, part) :: parts) := by
  rw [Part.ofFields, hshape]
  dsimp only
  rw [hpart, hparts]
  rfl

/-- A kind of one part. -/
theorem Kind.ofJson_single (hbase : BaseKind.ofName? name = none)
    (hlayout : layout? name = some (.single shape)) (hpart : Part.Reads shape content part)
    (hkind : kindOfParts? name [part] = some kind) :
    Kind.ofJson (tagged name content) = .ok kind := by
  unfold tagged Kind.ofJson
  rw [hbase, hlayout]
  dsimp only
  rw [hpart, Except.bind_eq_ok]
  exact ⟨part, rfl, by rw [hkind]; rfl⟩

/-- A kind of named parts. -/
theorem Kind.ofJson_fields (hbase : BaseKind.ofName? name = none)
    (hlayout : layout? name = some (.fields layout))
    (hparts : Part.ofFields fields layout = .ok parts)
    (hordered : orderParts layout parts = .ok ordered)
    (hkind : kindOfParts? name ordered = some kind) :
    Kind.ofJson (tagged name (.object fields)) = .ok kind := by
  have hcontent : Part.ofContent (.object fields) layout = .ok ordered := by
    rw [Part.ofContent, hparts]
    exact hordered
  unfold tagged Kind.ofJson
  rw [hbase, hlayout]
  dsimp only
  rw [hcontent, Except.bind_eq_ok]
  exact ⟨ordered, rfl, by rw [hkind]; rfl⟩

end

-- By recursion over the type: a kind is read back part by part, and each part is a smaller type, a
-- list of smaller types, or a list of fields with smaller types.

mutual

theorem Ty.ofJson_toJson : ∀ t : Ty, t.Valid → Ty.ofJson t.toJson = .ok t
  | ⟨kind, nullable⟩, h => by
    have hkind := Kind.ofJson_toJson kind h.components
    simp [Ty.toJson, Ty.ofJson, Ty.ofFields, hkind, orShape, Json.asBool?,
      checkedType_of_nullsFit h.nullsFit]

theorem Kind.ofJson_toJson :
    ∀ kind : Kind, (∀ c ∈ kind.components, c.Valid) → Kind.ofJson kind.toJson = .ok kind
  | .base b, _ => BaseKind.ofJson_toJson b
  | .tuple fields, h =>
    Kind.ofJson_single rfl rfl (Part.reads_types (Ty.ofJsonAll_toJsonAll fields h)) rfl
  | .rawTuple fields, h =>
    Kind.ofJson_single rfl rfl (Part.reads_types (Ty.ofJsonAll_toJsonAll fields h)) rfl
  | .struct name fields, h => by
    have hfields := Part.reads_structFields (StructField.ofJsonAll_toJsonAll fields h)
    exact Kind.ofJson_fields rfl rfl
      (Part.ofFields_cons rfl rfl (Part.ofFields_cons rfl hfields rfl)) rfl rfl
  | .vec element, h =>
    Kind.ofJson_single rfl rfl
      (Part.reads_type (Ty.ofJson_toJson element (h element (by simp [Kind.components])))) rfl
  | .zset element weight, h => by
    have helement := Ty.ofJson_toJson element (h element (by simp [Kind.components]))
    have hweight := Part.reads_type (Ty.ofJson_toJson weight (h weight (by simp [Kind.components])))
    exact Kind.ofJson_fields rfl rfl
      (Part.ofFields_cons rfl (Part.reads_type helement) (Part.ofFields_cons rfl hweight rfl))
      rfl rfl
  | .indexedZSet key value weight, h => by
    have hkey := Part.reads_type (Ty.ofJson_toJson key (h key (by simp [Kind.components])))
    have hvalue := Part.reads_type (Ty.ofJson_toJson value (h value (by simp [Kind.components])))
    have hweight := Part.reads_type (Ty.ofJson_toJson weight (h weight (by simp [Kind.components])))
    exact Kind.ofJson_fields rfl rfl
      (Part.ofFields_cons rfl hkey
        (Part.ofFields_cons rfl hvalue (Part.ofFields_cons rfl hweight rfl))) rfl rfl
  | .function none params, h => by
    have hparams := Part.reads_types (Ty.ofJsonAll_toJsonAll params h)
    exact Kind.ofJson_fields rfl rfl
      (Part.ofFields_cons rfl rfl (Part.ofFields_cons rfl hparams rfl)) rfl rfl
  | .function (some result) params, h => by
    have hresult := Ty.ofJson_toJson result (h result (by simp [Kind.components]))
    have hparams := Part.reads_types
      (Ty.ofJsonAll_toJsonAll params fun c hc => h c (List.mem_cons_of_mem _ hc))
    exact Kind.ofJson_fields rfl rfl
      (Part.ofFields_cons rfl (Part.reads_result hresult) (Part.ofFields_cons rfl hparams rfl))
      rfl rfl
  | .reference inner mutable, h => by
    have hinner := Part.reads_type (Ty.ofJson_toJson inner (h inner (by simp [Kind.components])))
    exact Kind.ofJson_fields rfl rfl
      (Part.ofFields_cons rfl hinner (Part.ofFields_cons rfl rfl rfl)) rfl rfl
  | .user name args, h => by
    have hargs := Part.reads_types (Ty.ofJsonAll_toJsonAll args h)
    exact Kind.ofJson_fields rfl rfl
      (Part.ofFields_cons rfl rfl (Part.ofFields_cons rfl hargs rfl)) rfl rfl

theorem Ty.ofJsonAll_toJsonAll :
    ∀ ts : List Ty, (∀ t ∈ ts, t.Valid) → Ty.ofJsonAll (Ty.toJsonAll ts) = .ok ts
  | [], _ => rfl
  | t :: ts, h => by
    have ht := Ty.ofJson_toJson t (h t List.mem_cons_self)
    have hts := Ty.ofJsonAll_toJsonAll ts fun t ht => h t (List.mem_cons_of_mem _ ht)
    rw [Ty.toJsonAll, Ty.ofJsonAll, ht, hts]
    rfl

theorem StructField.ofJsonAll_toJsonAll :
    ∀ fields : List StructField, (∀ t ∈ fields.map StructField.type, t.Valid) →
      StructField.ofJsonAll (StructField.toJsonAll fields) = .ok fields
  | [], _ => rfl
  | ⟨name, type⟩ :: fields, h => by
    have htype := Ty.ofJson_toJson type (h type (by simp))
    have hfields := StructField.ofJsonAll_toJsonAll fields fun t ht =>
      h t (List.mem_cons_of_mem _ ht)
    simp [StructField.toJsonAll, StructField.ofJsonAll, StructField.ofJson, StructField.ofFields,
      htype, hfields, orShape, Json.asString?, checkedField]

end

/-! ### What is read is valid -/

/-- The types in a part. -/
def Part.components : Part → List Ty
  | .type value => [value]
  | .types value => value
  | .structFields value => value.map StructField.type
  | _ => []

/-- The components of a kind are those of its parts. -/
theorem components_of_kindOfParts? {name : String} {parts : List Part} {kind : Kind}
    (h : kindOfParts? name parts = some kind) :
    kind.components = parts.flatMap Part.components := by
  unfold kindOfParts? at h
  split at h
  case h_14 => cases h
  all_goals
    obtain rfl := Option.some.inj h
    simp [Kind.components, Part.components]

section

open Except

/-- Components that are valid types. -/
def Kind.Sound (kind : Kind) : Prop := ∀ c ∈ kind.components, c.Valid

def Part.Sound (part : Part) : Prop := ∀ c ∈ part.components, c.Valid

theorem ensures_orShape {α : Type} {P : α → Prop} {value : Option α}
    (h : ∀ a, value = some a → P a) : (orShape value).Ensures P := by
  cases value with
  | none => exact ensures_error
  | some a => exact ensures_ok (h a rfl)

theorem ensures_kindOfParts? {name : String} {parts : List Part} (h : ∀ p ∈ parts, p.Sound) :
    (orShape (kindOfParts? name parts)).Ensures Kind.Sound := by
  refine ensures_orShape fun kind hkind c hc => ?_
  rw [components_of_kindOfParts? hkind] at hc
  obtain ⟨p, hp, hc⟩ := List.mem_flatMap.mp hc
  exact h p hp c hc

theorem ensures_checkedType {kind : Option Kind} {nullable : Option Bool}
    (h : ∀ k, kind = some k → k.Sound) : (checkedType kind nullable).Ensures Ty.Valid := by
  unfold checkedType
  split
  · next k n =>
    intro t ht
    split at ht
    · next t' ht' =>
      obtain rfl := Except.ok.inj ht
      exact (Ty.valid_ofKind (h k rfl)).withNullable ht'
    · cases ht
  · exact ensures_error

theorem ensures_partOf {shape : PartShape} {value : Json}
    {type : Unit → Except TypeReadError Ty} {types : Unit → Except TypeReadError (List Ty)}
    {fields : Unit → Except TypeReadError (List StructField)} (htype : (type ()).Ensures Ty.Valid)
    (htypes : (types ()).Ensures fun ts => ∀ t ∈ ts, t.Valid)
    (hfields : (fields ()).Ensures fun fs => ∀ f ∈ fs, f.type.Valid) :
    (partOf shape value type types fields).Ensures Part.Sound := by
  intro part h
  unfold partOf at h
  split at h
  case h_3 =>
    obtain ⟨t, ht, rfl⟩ := map_eq_ok.mp h
    exact List.forall_mem_singleton.mpr (htype t ht)
  case h_4 =>
    split at h
    · obtain rfl := Except.ok.inj h
      exact List.forall_mem_nil _
    · obtain ⟨t, ht, rfl⟩ := map_eq_ok.mp h
      exact List.forall_mem_singleton.mpr (htype t ht)
  case h_5 =>
    obtain ⟨ts, hts, rfl⟩ := map_eq_ok.mp h
    exact htypes ts hts
  case h_6 =>
    obtain ⟨fs, hfs, rfl⟩ := map_eq_ok.mp h
    exact List.forall_mem_map.mpr (hfields fs hfs)
  -- names, flags, widths and units have no components
  all_goals
    obtain ⟨a, -, rfl⟩ := map_eq_ok.mp h
    exact List.forall_mem_nil _

theorem ensures_orderParts {layout : List (String × PartShape)} {parts : List (String × Part)}
    (h : ∀ p ∈ parts, p.2.Sound) :
    (orderParts layout parts).Ensures fun ordered => ∀ p ∈ ordered, p.Sound := by
  intro ordered hordered part hpart
  rw [orderParts, List.mapM_eq_ok] at hordered
  obtain ⟨⟨name, shape⟩, -, hfound⟩ := hordered.exists_of_mem_right hpart
  dsimp only at hfound
  split at hfound
  · next found hlookup =>
    obtain rfl := Except.ok.inj hfound
    obtain ⟨before, after, rfl, -⟩ := List.lookup_eq_some_iff.mp hlookup
    exact h (name, found) (by simp)
  · obtain rfl := Except.ok.inj hfound
    exact List.forall_mem_nil _
  · cases hfound

-- By recursion over the JSON value, with one theorem for every reading function: the types read
-- from the parts of a value are valid, and the nullability is checked at each of them.

mutual

theorem Ty.ensures_ofJson : ∀ json : Json, (Ty.ofJson json).Ensures Ty.Valid
  | .object fields => by
    rw [Ty.ofJson]
    exact Ty.ensures_ofFields fields none none nofun
  | .array (kind :: rest) => by
    rw [Ty.ofJson]
    refine (Kind.ensures_ofJson kind).bind fun k hk => ?_
    split
    · exact ensures_checkedType fun _ heq => Option.some.inj heq ▸ hk
    · exact ensures_error
  | .array [] | .null | .bool _ | .int _ | .real _ | .string _ => ensures_error
termination_by structural x => x

theorem Ty.ensures_ofFields :
    ∀ (fields : List (String × Json)) (kind : Option Kind) (nullable : Option Bool),
      (∀ k, kind = some k → k.Sound) → (Ty.ofFields fields kind nullable).Ensures Ty.Valid
  | [], kind, nullable, h => ensures_checkedType h
  | (name, value) :: fields, kind, nullable, h => by
    rw [Ty.ofFields]
    split
    · refine (Kind.ensures_ofJson value).bind fun k hk => ?_
      exact Ty.ensures_ofFields fields (some k) nullable fun _ heq => Option.some.inj heq ▸ hk
    · split
      · refine (ensures_true _).bind fun n _ => ?_
        exact Ty.ensures_ofFields fields kind (some n) h
      · exact ensures_error
termination_by structural x => x

theorem Kind.ensures_ofJson : ∀ json : Json, (Kind.ofJson json).Ensures Kind.Sound
  | .string name => by
    rw [Kind.ofJson]
    intro kind hkind
    obtain ⟨b, -, rfl⟩ := map_eq_ok.mp hkind
    exact List.forall_mem_nil _
  | .object [(name, content)] => by
    unfold Kind.ofJson
    split
    · split
      · exact ensures_ok (List.forall_mem_nil _)
      · exact ensures_error
    · next shape _ _ =>
      refine (ensures_partOf (Ty.ensures_ofJson content) (Ty.ensures_ofArray content)
        (StructField.ensures_ofArray content)).bind fun part hpart => ?_
      exact ensures_kindOfParts? (List.forall_mem_singleton.mpr hpart)
    · next layout _ _ =>
      refine (Part.ensures_ofContent content layout).bind fun parts hparts => ?_
      exact ensures_kindOfParts? hparts
    · exact ensures_error
  | .object [] | .object (_ :: _ :: _) => ensures_error
  | .array _ | .null | .bool _ | .int _ | .real _ => ensures_error
termination_by structural x => x

theorem Part.ensures_ofContent : ∀ (json : Json) (layout : List (String × PartShape)),
    (Part.ofContent json layout).Ensures fun parts => ∀ p ∈ parts, p.Sound
  | .object fields, layout => by
    rw [Part.ofContent]
    exact (Part.ensures_ofFields fields layout).bind fun parts hparts => ensures_orderParts hparts
  | .array _, _ | .null, _ | .bool _, _ | .int _, _ | .real _, _ | .string _, _ => ensures_error
termination_by structural x => x

theorem Part.ensures_ofFields :
    ∀ (fields : List (String × Json)) (layout : List (String × PartShape)),
      (Part.ofFields fields layout).Ensures fun parts => ∀ p ∈ parts, p.2.Sound
  | [], layout => ensures_ok (List.forall_mem_nil _)
  | (name, value) :: fields, layout => by
    rw [Part.ofFields]
    split
    · exact Part.ensures_ofFields fields layout
    · refine (ensures_partOf (Ty.ensures_ofJson value) (Ty.ensures_ofArray value)
        (StructField.ensures_ofArray value)).bind fun part hpart => ?_
      refine (Part.ensures_ofFields fields layout).bind fun parts hparts => ?_
      exact ensures_pure (List.forall_mem_cons.mpr ⟨hpart, hparts⟩)
termination_by structural x => x

theorem Ty.ensures_ofArray : ∀ json : Json,
    (Ty.ofArray json).Ensures fun ts => ∀ t ∈ ts, t.Valid
  | .array items => by
    rw [Ty.ofArray]
    exact Ty.ensures_ofJsonAll items
  | .object _ | .null | .bool _ | .int _ | .real _ | .string _ => ensures_error
termination_by structural x => x

theorem Ty.ensures_ofJsonAll : ∀ items : List Json,
    (Ty.ofJsonAll items).Ensures fun ts => ∀ t ∈ ts, t.Valid
  | [] => ensures_ok (List.forall_mem_nil _)
  | item :: items => by
    rw [Ty.ofJsonAll]
    refine (Ty.ensures_ofJson item).bind fun t ht => ?_
    refine (Ty.ensures_ofJsonAll items).bind fun ts hts => ?_
    exact ensures_pure (List.forall_mem_cons.mpr ⟨ht, hts⟩)
termination_by structural x => x

theorem StructField.ensures_ofArray : ∀ json : Json,
    (StructField.ofArray json).Ensures fun fs => ∀ f ∈ fs, f.type.Valid
  | .array items => by
    rw [StructField.ofArray]
    exact StructField.ensures_ofJsonAll items
  | .object _ | .null | .bool _ | .int _ | .real _ | .string _ => ensures_error
termination_by structural x => x

theorem StructField.ensures_ofJsonAll : ∀ items : List Json,
    (StructField.ofJsonAll items).Ensures fun fs => ∀ f ∈ fs, f.type.Valid
  | [] => ensures_ok (List.forall_mem_nil _)
  | item :: items => by
    rw [StructField.ofJsonAll]
    refine (StructField.ensures_ofJson item).bind fun f hf => ?_
    refine (StructField.ensures_ofJsonAll items).bind fun fs hfs => ?_
    exact ensures_pure (List.forall_mem_cons.mpr ⟨hf, hfs⟩)
termination_by structural x => x

theorem StructField.ensures_ofJson : ∀ json : Json,
    (StructField.ofJson json).Ensures fun f => f.type.Valid
  | .object fields => by
    rw [StructField.ofJson]
    exact StructField.ensures_ofFields fields none none nofun
  | .array (name :: type :: rest) => by
    rw [StructField.ofJson]
    refine (ensures_true _).bind fun n _ => (Ty.ensures_ofJson type).bind fun t ht => ?_
    split
    · exact ensures_pure ht
    · exact ensures_throw
  | .array [] | .array [_] => ensures_error
  | .null | .bool _ | .int _ | .real _ | .string _ => ensures_error
termination_by structural x => x

theorem StructField.ensures_ofFields :
    ∀ (fields : List (String × Json)) (name : Option String) (type : Option Ty),
      (∀ t, type = some t → t.Valid) →
        (StructField.ofFields fields name type).Ensures fun f => f.type.Valid
  | [], name, type, h => by
    rw [StructField.ofFields]
    unfold checkedField
    split
    · exact ensures_ok (h _ rfl)
    · exact ensures_error
  | (field, value) :: fields, name, type, h => by
    rw [StructField.ofFields]
    split
    · exact (ensures_true _).bind fun n _ => StructField.ensures_ofFields fields (some n) type h
    · split
      · refine (Ty.ensures_ofJson value).bind fun t ht => ?_
        exact StructField.ensures_ofFields fields name (some t) fun _ heq =>
          Option.some.inj heq ▸ ht
      · exact StructField.ensures_ofFields fields name type h
termination_by structural x => x

end

end

/-! ### Types that can be built -/

namespace Ty

theorem Obtainable.valid {t : Ty} (h : t.Obtainable) : t.Valid := by
  induction h with
  | ofKind _ ih => exact valid_ofKind ih
  | withNullable _ ht' ih => exact ih.withNullable ht'
  | unify _ _ ht iha ihb => exact iha.unify ihb ht
  | component _ hc ih => exact ih.components _ hc
  | ofJson ht => exact ensures_ofJson _ _ ht

/-- The types that can be built are the valid ones. -/
theorem obtainable_iff_valid {t : Ty} : t.Obtainable ↔ t.Valid := by
  refine ⟨Obtainable.valid, fun h => ?_⟩
  induction h with
  | @intro t hfit _ ih =>
    -- a valid type is made from its kind, and then its nullability is set
    obtain ⟨kind, nullable⟩ := t
    have ht : (ofKind kind).withNullable nullable = .ok ⟨kind, nullable⟩ := by
      rw [withNullable_eq_ok (nullsFit_ofKind _)]
      exact ⟨rfl, hfit⟩
    exact (Obtainable.ofKind ih).withNullable ht

/-- **The JSON form of types is faithful.** At every depth of a type that can be built, a reference
does not admit NULL and the type of the NULL literal does, and the type is read back from what is
written for it. The same holds of a type that is read from any JSON value. -/
theorem json_faithful :
    (∀ t : Ty, t.Obtainable → t.Valid ∧ ofJson t.toJson = .ok t) ∧
    ∀ (json : Json) (t : Ty), ofJson json = .ok t → t.Valid ∧ ofJson t.toJson = .ok t := by
  have hfaithful (t : Ty) (h : t.Obtainable) : t.Valid ∧ ofJson t.toJson = .ok t :=
    ⟨h.valid, ofJson_toJson t h.valid⟩
  exact ⟨hfaithful, fun json t h => hfaithful t (.ofJson h)⟩

/-- A function without a result. -/
def handler : Ty := ⟨.function none [⟨.base (.integer .w32 true), true⟩, byRef .string], true⟩

/-- The same type in an order of its own, with the result left out and a field that is skipped. -/
def handlerJson : Json :=
  .object [("may_be_null", .bool true),
    ("kind", tagged "Function" (.object [("name", .string "handler"),
      ("params", .array [Ty.toJson ⟨.base (.integer .w32 true), true⟩, (byRef .string).toJson])]))]

theorem json_faithful_handler :
    ofJson handlerJson = .ok handler ∧ handler.Valid ∧ ofJson handler.toJson = .ok handler := by
  have hread : ofJson handlerJson = .ok handler := by rfl
  have hobtainable : handler.Obtainable := .ofJson hread
  exact ⟨hread, (json_faithful.2 handlerJson handler hread).1,
    (json_faithful.1 handler hobtainable).2⟩

end Ty
end DeltaCircuit
