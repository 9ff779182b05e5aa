import DeltaCircuit.Circuit.Contents
import DeltaCircuit.Proofs.Eval.Steps
import DeltaCircuit.Proofs.Expr.Built
import DeltaCircuit.Proofs.Value
import DeltaCircuit.Proofs.ZSet
import DeltaCircuit.Proofs.ZSetLiteral

/-!
# Values as literals and back

A Z-set that is written as a literal has the same contents, entry by entry, and a literal of
constants is what its contents are written as.

Both need that writing keeps values apart: two expressions that values of one type are written as
are equal exactly if the values are the same (`Value.toExpr_equal_iff`). No two entries merge then,
on neither way, and what is added to a collection goes to its end.

* `Expr.Yields` — an expression that gives a value, whatever the variables.
* `Value.yields_toExpr` — what a value is written as gives the value.
* `Expr.Constant` — what literals and tuples of both kinds are made of.
* `Expr.Constant.exists_toExpr` — a constant has a value, which is written as the constant.
* `ZSet.literal_roundTrip` — both ways for whole collections.
-/

namespace DeltaCircuit

/-! ### Tuples of both kinds -/

/-- The kind of a tuple, raw or not. -/
def Kind.ofFields : (raw : Bool) → List Ty → Kind
  | false => .tuple
  | true => .rawTuple

/-- The form of a tuple, raw or not. -/
def Form.ofFields : (raw : Bool) → List Expr → Form
  | false => .tuple
  | true => .rawTuple

theorem Kind.ofFields_inj {raw raw' : Bool} {types types' : List Ty}
    (h : ofFields raw types = ofFields raw' types') : raw = raw' ∧ types = types' := by
  cases raw <;> cases raw' <;> cases h <;> exact ⟨rfl, rfl⟩

/-! ### Values as expressions -/

namespace Expr

/-- An expression that gives a value in all scopes, and changes none. -/
def Yields (e : Expr) (v : Value) : Prop := ∀ s, e.eval.Gives s v s

variable {e a b : Expr} {v : Value} {fields es : List Expr} {values : List Value}

theorem Yields.evaluate (h : e.Yields v) : e.evaluate = .ok v := by
  have hrun : e.eval [] = (.ok v, []) := h []
  unfold Expr.evaluate
  rw [hrun]

theorem Yields.keeps (h : e.Yields v) : e.eval.Keeps := fun s => by
  have hrun : e.eval s = (.ok v, s) := h s
  rw [hrun]

theorem gives_evalAll_of_yields (h : List.Forall₂ Yields fields values) (s : Scopes) :
    (evalAll fields).Gives s values s := by
  have hkeeps : ∀ e ∈ fields, e.eval.Keeps := by
    intro e he
    obtain ⟨v, -, hv⟩ := h.flip.exists_of_mem_right he
    exact Yields.keeps hv
  exact (gives_evalAll hkeeps).mpr ⟨h.imp fun _ _ hyields => hyields s, rfl⟩

/-- Tuples give rows. -/
theorem yields_ofFields {tag : Tag} {type : Option Ty} (raw : Bool)
    (h : List.Forall₂ Yields fields values) :
    Yields ⟨tag, type, .ofFields raw fields⟩ (.row values) := by
  intro s
  have hrun : (evalAll fields >>= fun values => pure (.row values)).Gives s (Value.row values) s :=
    ExceptT.gives_bind.mpr
      ⟨values, s, gives_evalAll_of_yields h s, ExceptT.gives_pure.mpr ⟨rfl, rfl⟩⟩
  cases raw with
  | false => exact hrun
  | true => exact hrun

theorem yields_literal {tag : Tag} {type : Option Ty} {value : Option Literal} :
    Yields ⟨tag, type, .literal value⟩ (value.elim .null .scalar) := by
  intro s
  cases value with
  | none => exact ExceptT.gives_pure.mpr ⟨rfl, rfl⟩
  | some l => exact ExceptT.gives_pure.mpr ⟨rfl, rfl⟩

theorem equal_iff_of_form {tag tag' : Tag} {type type' : Option Ty} {form form' : Form} :
    Expr.equal ⟨tag, type, form⟩ ⟨tag', type', form'⟩ = true ↔
      type = type' ∧ form.equal form' = true := by
  simp [Expr.equal]

theorem type_eq_of_equal (h : a.equal b = true) : a.type = b.type := by
  obtain ⟨tag, type, form⟩ := a
  obtain ⟨tag', type', form'⟩ := b
  exact (equal_iff_of_form.mp h).1

theorem equalAll_iff_forall₂ :
    equalAll fields es = true ↔ List.Forall₂ (fun a b => a.equal b = true) fields es := by
  induction fields generalizing es with
  | nil => cases es <;> simp [equalAll]
  | cons e fields ih => cases es <;> simp [equalAll, ih]

theorem equal_ofFields (raw : Bool) :
    (Form.ofFields raw fields).equal (.ofFields raw es) = true ↔
      List.Forall₂ (fun a b => a.equal b = true) fields es := by
  cases raw <;> simp only [Form.ofFields, Form.equal, equalAll_iff_forall₂]

/-- Equal fields have the same types. -/
theorem fieldTypes_eq_of_equal {raw : Bool}
    (h : List.Forall₂ (fun a b => a.equal b = true) fields es) :
    fieldTypes raw fields = fieldTypes raw es :=
  fieldTypes_eq (h.flip.imp fun _ _ hequal => type_eq_of_equal hequal)

end Expr

namespace Value

open DeltaCircuit.Expr (Yields)

/-- What a value is written as, by its form. -/
inductive Written : Value → Ty → Expr → Prop
  | null {type nullable : Ty} (hnullable : type.withNullable true = .ok nullable) :
    Written .null type (.ofForm (some nullable) (.literal none))
  | scalar {l : Literal} {type : Ty} :
    Written (.scalar l) type (.ofForm (some type) (.literal (some l)))
  | row {values : List Value} {type : Ty} {types found : List Ty} {fields : List Expr} (raw : Bool)
    (hkind : type.kind = .ofFields raw types) (hlength : values.length = types.length)
    (hfields : Value.toExprs values types = .ok fields)
    (hfound : fieldTypes raw fields = .ok found) :
    Written (.row values) type
      (.ofForm (some (.ofKind (.ofFields raw found))) (.ofFields raw fields))

variable {v v' : Value} {type : Ty} {e a b : Expr}

theorem written_of_toExpr (h : v.toExpr type = .ok e) : v.Written type e := by
  cases v with
  | null =>
    rw [toExpr, liftTerm, Except.mapError_eq_ok, Expr.null, Except.bind_eq_ok] at h
    obtain ⟨nullable, hnullable, hliteral⟩ := h
    rw [Expr.literal_eq_ok hliteral]
    exact .null hnullable
  | scalar l =>
    rw [toExpr, liftTerm, Except.mapError_eq_ok] at h
    rw [Expr.literal_eq_ok h]
    exact .scalar
  | vec values =>
    -- vectors cannot be written
    rw [toExpr] at h
    cases h
  | row values =>
    rw [toExpr] at h
    split at h
    · next types hkind =>
      split at h
      · next hlength =>
        obtain ⟨fields, hfields, htuple⟩ := Except.bind_eq_ok.mp h
        rw [liftTerm, Except.mapError_eq_ok] at htuple
        obtain ⟨found, hfound, rfl⟩ := Expr.tuple_eq_ok htuple
        exact .row false hkind hlength hfields hfound
      · cases h
    · next types hkind =>
      split at h
      · next hlength =>
        obtain ⟨fields, hfields, htuple⟩ := Except.bind_eq_ok.mp h
        rw [liftTerm, Except.mapError_eq_ok] at htuple
        obtain ⟨found, hfound, rfl⟩ := Expr.rawTuple_eq_ok htuple
        exact .row true hkind hlength hfields hfound
      · cases h
    · cases h

/-- Rows that fit a tuple type are written field by field. -/
theorem toExpr_row {raw : Bool} {values : List Value} {types found : List Ty} {fields : List Expr}
    (hlength : values.length = types.length) (hfields : Value.toExprs values types = .ok fields)
    (hfound : fieldTypes raw fields = .ok found) :
    (row values).toExpr (.ofKind (.ofFields raw types)) =
      .ok (.ofForm (some (.ofKind (.ofFields raw found))) (.ofFields raw fields)) := by
  rw [toExpr]
  cases raw with
  | false =>
    simp only [Ty.ofKind, Kind.ofFields, hlength, if_true, Except.bind_eq_ok]
    refine ⟨fields, hfields, ?_⟩
    rw [liftTerm, Except.mapError_eq_ok, Expr.tuple, hfound]
    rfl
  | true =>
    simp only [Ty.ofKind, Kind.ofFields, hlength, if_true, Except.bind_eq_ok]
    refine ⟨fields, hfields, ?_⟩
    rw [liftTerm, Except.mapError_eq_ok, Expr.rawTuple, hfound]
    rfl

theorem toExprs_cons_eq_ok {values : List Value} {types : List Ty} {es : List Expr} :
    Value.toExprs (v :: values) (type :: types) = .ok es ↔
      ∃ e rest, v.toExpr type = .ok e ∧ Value.toExprs values types = .ok rest ∧ es = e :: rest := by
  rw [toExprs, Except.bind_eq_ok]
  simp only [Except.bind_eq_ok, Except.pure_eq_ok]
  constructor
  · rintro ⟨e, he, rest, hrest, rfl⟩
    exact ⟨e, rest, he, hrest, rfl⟩
  · rintro ⟨e, rest, he, hrest, rfl⟩
    exact ⟨e, he, rest, hrest, rfl⟩

mutual

/-- **Writing keeps the value.** -/
theorem yields_toExpr : ∀ (v : Value) {type : Ty} {e : Expr}, v.toExpr type = .ok e → e.Yields v
  | .null, _, _, h => by
    cases written_of_toExpr h with
    | null _ => exact Expr.yields_literal
  | .scalar l, _, _, h => by
    cases written_of_toExpr h with
    | scalar => exact Expr.yields_literal
  | .vec _, _, _, h => by cases written_of_toExpr h
  | .row values, _, _, h => by
    cases written_of_toExpr h with
    | row raw _ hlength hfields _ =>
      exact Expr.yields_ofFields raw (yields_toExprs values hlength hfields)

theorem yields_toExprs : ∀ (values : List Value) {types : List Ty} {es : List Expr},
    values.length = types.length → Value.toExprs values types = .ok es →
      List.Forall₂ Yields es values
  | [], types, es, _, h => by
    obtain rfl : [] = es := by
      rw [toExprs] at h
      · exact Except.ok.inj h
      · exact fun _ _ _ _ hcons => by cases hcons
    exact .nil
  | _ :: _, [], _, hlength, _ => by cases hlength
  | v :: values, type :: types, es, hlength, h => by
    obtain ⟨e, rest, he, hrest, rfl⟩ := toExprs_cons_eq_ok.mp h
    exact .cons (yields_toExpr v he) (yields_toExprs values (Nat.succ.inj hlength) hrest)

end

mutual

/-- **Writing keeps values apart.** Values that are written at one type are the same exactly if they
are written as equal expressions. -/
theorem toExpr_equal_iff : ∀ (v v' : Value) {type : Ty} {a b : Expr}, v.toExpr type = .ok a →
    v'.toExpr type = .ok b → (a.equal b = true ↔ v.same v' = true)
  | .vec _, _, _, _, _, ha, _ => by cases written_of_toExpr ha
  | .null, v', _, _, _, ha, hb => by
    cases written_of_toExpr ha with
    | null hnullable =>
      cases written_of_toExpr hb with
      | null hnullable' =>
        -- both are NULL of the same column
        obtain rfl := Except.ok.inj (hnullable.symm.trans hnullable')
        exact iff_of_true (Expr.equal_equivalence.refl _) (same_equivalence.refl _)
      | scalar => simp [Expr.ofForm, Expr.equal_iff_of_form, Form.equal, sameLiteral, canonical]
      | row raw _ _ _ _ =>
        cases raw <;>
          simp [Expr.ofForm, Expr.equal_iff_of_form, Form.ofFields, Form.equal, canonical]
  | .scalar l, v', _, _, _, ha, hb => by
    cases written_of_toExpr ha with
    | scalar =>
      cases written_of_toExpr hb with
      | null _ => simp [Expr.ofForm, Expr.equal_iff_of_form, Form.equal, sameLiteral, canonical]
      | scalar =>
        simp [Expr.ofForm, Expr.equal_iff_of_form, Form.equal, sameLiteral, Literal.same, canonical]
      | row raw _ _ _ _ =>
        cases raw <;>
          simp [Expr.ofForm, Expr.equal_iff_of_form, Form.ofFields, Form.equal, canonical]
  | .row values, v', _, _, _, ha, hb => by
    cases written_of_toExpr ha with
    | row raw hkind hlength hfields hfound =>
      cases written_of_toExpr hb with
      | row raw' hkind' hlength' hfields' hfound' =>
        obtain ⟨rfl, rfl⟩ := Kind.ofFields_inj (hkind.symm.trans hkind')
        have hall := toExprs_equal_iff values _ hlength hlength' hfields hfields'
        rw [row_same_iff, ← hall, Expr.ofForm, Expr.ofForm, Expr.equal_iff_of_form,
          Expr.equal_ofFields]
        refine and_iff_right_of_imp fun hequal => ?_
        -- equal fields have the same types, and so have the tuples
        rw [Expr.fieldTypes_eq_of_equal hequal] at hfound
        rw [Except.ok.inj (hfound.symm.trans hfound')]
      | _ =>
        cases raw <;>
          simp [Expr.ofForm, Expr.equal_iff_of_form, Form.ofFields, Form.equal, canonical]

theorem toExprs_equal_iff : ∀ (values values' : List Value) {types : List Ty} {as bs : List Expr},
    values.length = types.length → values'.length = types.length →
      Value.toExprs values types = .ok as → Value.toExprs values' types = .ok bs →
        (List.Forall₂ (fun a b => a.equal b = true) as bs ↔
          List.Forall₂ (fun v v' => v.same v' = true) values values')
  | [], values', types, as, bs, hlength, hlength', ha, hb => by
    obtain rfl : types = [] := List.eq_nil_of_length_eq_zero hlength.symm
    obtain rfl : values' = [] := List.eq_nil_of_length_eq_zero hlength'
    cases yields_toExprs [] rfl ha
    cases yields_toExprs [] rfl hb
    exact iff_of_true .nil .nil
  | v :: values, values', [], _, _, hlength, _, _, _ => by cases hlength
  | v :: values, [], type :: types, _, _, _, hlength', _, _ => by cases hlength'
  | v :: values, v' :: values', type :: types, _, _, hlength, hlength', ha, hb => by
    obtain ⟨a, as, hva, has, rfl⟩ := toExprs_cons_eq_ok.mp ha
    obtain ⟨b, bs, hvb, hbs, rfl⟩ := toExprs_cons_eq_ok.mp hb
    rw [List.forall₂_cons, List.forall₂_cons, toExpr_equal_iff v v' hva hvb,
      toExprs_equal_iff values values' (Nat.succ.inj hlength) (Nat.succ.inj hlength') has hbs]

end

end Value

/-! ### Constants -/

/-- The forms of literals and of tuples of both kinds. -/
def Form.isData : Form → Bool
  | .literal _ | .tuple _ | .rawTuple _ => true
  | _ => false

namespace Expr

/-- **Constants.** What the constructors of literals and of tuples of both kinds give, at every
depth. -/
def Constant (e : Expr) : Prop := e.Everywhere fun node => node.IsBuilt ∧ node.form.isData = true

/-- An expression with a value that is written as it. -/
def Expressible (e : Expr) (v : Value) : Prop :=
  e.Yields v ∧ ∀ type, e.type = some type → ∃ e', v.toExpr type = .ok e' ∧ e'.equal e = true

variable {e : Expr} {fields : List Expr} {types : List Ty} {values : List Value}

/-- Fields with values are written field by field. -/
theorem exists_toExprs {raw : Bool} (h : List.Forall₂ Expressible fields values)
    (htypes : fieldTypes raw fields = .ok types) :
    ∃ es, Value.toExprs values types = .ok es ∧
      List.Forall₂ (fun a b => a.equal b = true) es fields := by
  induction h generalizing types with
  | nil =>
    obtain rfl : [] = types := Except.ok.inj htypes
    exact ⟨[], by simp [Value.toExprs], .nil⟩
  | @cons e v fields values hfirst hrest ih =>
    obtain ⟨type, rest, htype, hrestTypes, rfl⟩ :=
      List.forall₂_cons_left_iff.mp (List.mapM_eq_ok.mp htypes)
    have hfirstType : e.type = some type := by
      split at htype
      · next found hfound => rw [hfound, Except.ok.inj htype]
      · cases htype
    obtain ⟨e', he', hequal⟩ := hfirst.2 type hfirstType
    obtain ⟨es, hes, hall⟩ := ih (List.mapM_eq_ok.mpr hrestTypes)
    exact ⟨e' :: es, Value.toExprs_cons_eq_ok.mpr ⟨e', es, he', hes, rfl⟩, .cons hequal hall⟩

theorem length_of_fieldTypes {raw : Bool} (h : fieldTypes raw fields = .ok types) :
    fields.length = types.length :=
  (List.mapM_eq_ok.mp h).length_eq

theorem expressible_literal {tag : Tag} {type : Option Ty} {value : Option Literal}
    (hbuilt : IsBuilt ⟨tag, type, .literal value⟩) :
    Expressible ⟨tag, type, .literal value⟩ (value.elim .null .scalar) := by
  obtain ⟨declared, hliteral⟩ := hbuilt
  obtain rfl : type = some declared := congrArg Expr.type (literal_eq_ok hliteral)
  refine ⟨yields_literal, fun found hfound => ?_⟩
  obtain rfl : declared = found := Option.some.inj hfound
  have hequal : equal (.ofForm (some declared) (.literal value))
      ⟨tag, some declared, .literal value⟩ = true :=
    equal_iff_of_form.mpr ⟨rfl, by simp [Form.equal, sameLiteral_iff]⟩
  refine ⟨_, ?_, hequal⟩
  cases value with
  | none =>
    have hnullable : declared.nullable = true := by
      by_contra hnot
      simp [literal, hnot] at hliteral
    have hsame : declared.withNullable true = .ok declared := if_pos hnullable
    rw [Option.elim, Value.toExpr, liftTerm, Except.mapError_eq_ok, null, hsame]
    exact hliteral
  | some l =>
    rw [Option.elim, Value.toExpr, liftTerm, Except.mapError_eq_ok]
    exact hliteral

theorem expressible_ofFields {tag : Tag} {type : Option Ty} (raw : Bool)
    (hbuilt : IsBuilt ⟨tag, type, .ofFields raw fields⟩)
    (h : List.Forall₂ Expressible fields values) :
    Expressible ⟨tag, type, .ofFields raw fields⟩ (.row values) := by
  obtain ⟨types, htypes, rfl⟩ : ∃ types, fieldTypes raw fields = .ok types ∧
      type = some (.ofKind (.ofFields raw types)) := by
    cases raw with
    | false =>
      obtain ⟨types, htypes, hsame⟩ := tuple_eq_ok ((isBuilt_iff rfl).mp hbuilt)
      exact ⟨types, htypes, congrArg Expr.type hsame⟩
    | true =>
      obtain ⟨types, htypes, hsame⟩ := rawTuple_eq_ok ((isBuilt_iff rfl).mp hbuilt)
      exact ⟨types, htypes, congrArg Expr.type hsame⟩
  refine ⟨yields_ofFields raw (h.imp fun _ _ hfield => hfield.1), fun found hfound => ?_⟩
  obtain rfl : Ty.ofKind (.ofFields raw types) = found := Option.some.inj hfound
  obtain ⟨es, hes, hall⟩ := exists_toExprs h htypes
  have hlength : values.length = types.length := by
    rw [← h.length_eq, length_of_fieldTypes htypes]
  exact ⟨_, Value.toExpr_row hlength hes ((fieldTypes_eq_of_equal hall).trans htypes),
    equal_iff_of_form.mpr ⟨rfl, (equal_ofFields raw).mpr hall⟩⟩

/-- **Constants have values**, and their values are written as them. -/
theorem Constant.exists_toExpr (h : e.Constant) : ∃ v, e.Expressible v := by
  induction h with
  | @node e here _ ih =>
    obtain ⟨hbuilt, hdata⟩ := here
    obtain ⟨tag, type, form⟩ := e
    cases form with
    | literal value => exact ⟨_, expressible_literal hbuilt⟩
    | tuple fields =>
      obtain ⟨values, hvalues⟩ := List.exists_forall₂ ih
      exact ⟨_, expressible_ofFields false hbuilt hvalues⟩
    | rawTuple fields =>
      obtain ⟨values, hvalues⟩ := List.exists_forall₂ ih
      exact ⟨_, expressible_ofFields true hbuilt hvalues⟩
    | _ => cases hdata

end Expr

/-! ### Collections -/

namespace Weighted

variable {α β : Type} {same : α → α → Bool} {same' : β → β → Bool}

/-- What is not in a collection yet is added at its end. -/
theorem add?_of_fresh {entries : List (α × Int)} {x : α} {w : Int}
    (hfresh : ∀ entry ∈ entries, same entry.1 x = false) (hne : w ≠ 0) (hfits : isWeight w = true) :
    add? same entries x w = some (entries ++ [(x, w)]) := by
  unfold add?
  simp only [weight_eq_zero hfresh, Int.zero_add, if_neg hne, hfits, if_true, put_of_fresh hfresh]

/-- The last entry of a front of a stored collection can be added to what is before it. -/
theorem Normal.add?_last {entries rest : List (α × Int)} {entry : α × Int}
    (h : Normal same (entries ++ entry :: rest)) :
    Weighted.add? same entries entry.1 entry.2 = some (entries ++ [entry]) := by
  have hmem : entry ∈ entries ++ entry :: rest := List.mem_append_right _ List.mem_cons_self
  refine add?_of_fresh (fun other hother => ?_) (h.nonzero entry hmem) (h.fits entry hmem)
  exact (List.pairwise_append.mp h.distinct).2.2 other hother entry List.mem_cons_self

/-- Entries with the same weights and with elements that are kept apart make a stored collection. -/
theorem Normal.of_forall₂ {R : α × Int → β × Int → Prop} {as : List (α × Int)}
    {bs : List (β × Int)} (hn : Normal same as) (h : List.Forall₂ R as bs)
    (hweight : ∀ a b, R a b → b.2 = a.2)
    (hsame : ∀ a b a' b', R a b → R a' b' → same' b.1 b'.1 = true → same a.1 a'.1 = true) :
    Normal same' bs := by
  refine ⟨?_, fun b hb => ?_, fun b hb => ?_⟩
  · have hdistinct := hn.distinct
    clear hn
    induction h with
    | nil => exact distinct_nil
    | @cons a b as bs hab hrest ih =>
      obtain ⟨hfresh, hdistinct⟩ := distinct_cons.mp hdistinct
      refine distinct_cons.mpr ⟨fun b' hb' => ?_, ih hdistinct⟩
      obtain ⟨a', ha', hab'⟩ := hrest.exists_of_mem_right hb'
      rw [← Bool.not_eq_true]
      intro hequal
      exact Bool.eq_false_iff.mp (hfresh a' ha') (hsame a b a' b' hab hab' hequal)
  · obtain ⟨a, ha, hab⟩ := h.exists_of_mem_right hb
    rw [hweight a b hab]
    exact hn.nonzero a ha
  · obtain ⟨a, ha, hab⟩ := h.exists_of_mem_right hb
    rw [hweight a b hab]
    exact hn.fits a ha

/-- Equal elements with the same weights make the same weight function. -/
theorem weight_eq_of_forall₂ (hsame : Equivalence fun a b => same a b = true)
    {as bs : List (α × Int)}
    (h : List.Forall₂ (fun a b => same a.1 b.1 = true ∧ b.2 = a.2) as bs) (x : α) :
    weight same as x = weight same bs x := by
  induction h with
  | nil => rfl
  | @cons a b as bs hab _ ih =>
    obtain ⟨y, w⟩ := a
    obtain ⟨y', w'⟩ := b
    obtain ⟨hequal, rfl⟩ : same y y' = true ∧ w' = w := hab
    rw [weight_cons, weight_cons, ih, same_congr hsame hequal x]

end Weighted

/-- **Contents.** A literal whose elements give the values of a stored Z-set, each with its weight,
has that Z-set as its contents. -/
theorem ZSetLiteral.contents_of_yields {literal : ZSetLiteral} {z : ZSet}
    (h : List.Forall₂ (fun element entry => element.1.Yields entry.1 ∧ entry.2 = element.2)
      literal.entries z)
    (hz : Weighted.Normal Value.same z) : literal.contents = .ok z := by
  have hfold : ∀ (entries : List (Expr × Int)) (front rest : ZSet),
      List.Forall₂ (fun element entry => element.1.Yields entry.1 ∧ entry.2 = element.2)
        entries rest → Weighted.Normal Value.same (front ++ rest) →
      entries.foldlM (fun s entry => do ZSet.add s (← entry.1.evaluate) entry.2) front =
        .ok (front ++ rest) := by
    -- by induction on the elements to come; those that have been read are the entries in front
    intro entries
    induction entries with
    | nil =>
      rintro front rest ⟨⟩ -
      rw [List.append_nil]
      rfl
    | cons element entries ih =>
      intro front rest hall hnormal
      obtain ⟨entry, rest, ⟨hyields, hweight⟩, hrest, rfl⟩ := List.forall₂_cons_left_iff.mp hall
      -- the value is a new one, so its entry goes to the end
      have hadd : front.add entry.1 element.2 = .ok (front ++ [entry]) := by
        rw [ZSet.add_eq_ok, ← hweight]
        exact hnormal.add?_last
      have happend : front ++ entry :: rest = (front ++ [entry]) ++ rest := by simp
      rw [List.foldlM_cons, Except.bind_eq_ok]
      refine ⟨front ++ [entry], ?_, ?_⟩
      · rw [hyields.evaluate]
        exact hadd
      · rw [happend]
        exact ih _ _ hrest (happend ▸ hnormal)
  exact hfold literal.entries [] z h hz

namespace ZSet

variable {z : ZSet} {type : Ty} {literal : ZSetLiteral}

/-- An entry of a Z-set and the entry of a literal that it is written as. -/
structure Writes (type : Ty) (entry : Value × Int) (element : Expr × Int) : Prop where
  written : entry.1.toExpr type = .ok element.1
  typed : element.1.type = some type
  weight : element.2 = entry.2

/-- Every entry of a Z-set that is written is. -/
theorem exists_writes (h : z.toLiteral type = .ok literal) :
    ∃ elements, List.Forall₂ (Writes type) z elements := by
  refine List.exists_forall₂ ?_
  have hfold : ∀ (front : ZSetLiteral), front.elementType = type →
      List.foldlM (fun (literal : ZSetLiteral) (entry : Value × Int) => do
        let element ← entry.1.toExpr type
        liftTerm (literal.addElement element entry.2)) front z = .ok literal →
      ∀ entry ∈ z, ∃ element, Writes type entry element := by
    clear h
    induction z with
    | nil => exact fun _ _ _ entry hentry => absurd hentry List.not_mem_nil
    | cons first z ih =>
      intro front hfront hrun
      obtain ⟨next, hnext, hrest⟩ := Except.bind_eq_ok.mp ((List.foldlM_cons ..).symm.trans hrun)
      obtain ⟨element, helement, hadd⟩ := Except.bind_eq_ok.mp hnext
      rw [liftTerm, Except.mapError_eq_ok] at hadd
      obtain ⟨htype, hmerge⟩ := ZSetLiteral.addElement_eq_ok.mp hadd
      have hnextType := (ZSetLiteral.elementType_of_merge hmerge).trans hfront
      exact List.forall_mem_cons.mpr
        ⟨⟨(element, first.2), helement, hfront ▸ htype, rfl⟩, ih next hnextType hrest⟩
  exact hfold (.empty type) rfl h

/-- **Literals.** Entries that are written as the entries of a stored literal make that literal. -/
theorem toLiteral_of_writes {elements : List (Expr × Int)}
    (h : List.Forall₂ (Writes type) z elements) (hn : Weighted.Normal Expr.equal elements) :
    z.toLiteral type = .ok ⟨type, elements⟩ := by
  have hfold : ∀ (entries : ZSet) (front rest : List (Expr × Int)),
      List.Forall₂ (Writes type) entries rest → Weighted.Normal Expr.equal (front ++ rest) →
      entries.foldlM (fun (literal : ZSetLiteral) (entry : Value × Int) => do
        let element ← entry.1.toExpr type
        liftTerm (literal.addElement element entry.2)) ⟨type, front⟩ =
          .ok ⟨type, front ++ rest⟩ := by
    -- by induction on the entries to come; those that have been written are the elements in front
    intro entries
    induction entries with
    | nil =>
      rintro front rest ⟨⟩ -
      rw [List.append_nil]
      rfl
    | cons entry entries ih =>
      intro front rest hall hnormal
      obtain ⟨element, rest, hwrites, hrest, rfl⟩ := List.forall₂_cons_left_iff.mp hall
      have hadd : (⟨type, front⟩ : ZSetLiteral).addElement element.1 entry.2 =
          .ok ⟨type, front ++ [element]⟩ := by
        refine ZSetLiteral.addElement_eq_ok.mpr
          ⟨hwrites.typed, ZSetLiteral.merge_eq_ok.mpr ⟨?_, rfl⟩⟩
        rw [← hwrites.weight]
        exact hnormal.add?_last
      have happend : front ++ element :: rest = (front ++ [element]) ++ rest := by simp
      rw [List.foldlM_cons, Except.bind_eq_ok]
      refine ⟨⟨type, front ++ [element]⟩, ?_, ?_⟩
      · rw [hwrites.written]
        show liftTerm _ = _
        rw [hadd]
        rfl
      · rw [happend]
        exact ih _ _ hrest (happend ▸ hnormal)
  exact hfold z [] elements h hn

/-- **Written and read.** What a stored Z-set is written as has its entries, in its order, and its
contents. -/
theorem contents_toLiteral (hz : Weighted.Normal Value.same z)
    (h : z.toLiteral type = .ok literal) :
    literal.elementType = type ∧
      List.Forall₂ (fun entry element => entry.1.toExpr type = .ok element.1 ∧ element.2 = entry.2)
        z literal.entries ∧
      literal.contents = .ok z := by
  obtain ⟨elements, hwrites⟩ := exists_writes h
  have hnormal : Weighted.Normal Expr.equal elements :=
    hz.of_forall₂ hwrites (fun _ _ hentry => hentry.weight)
      fun a b a' b' hentry hentry' => (Value.toExpr_equal_iff _ _ hentry.written hentry'.written).mp
  obtain rfl := Except.ok.inj (h.symm.trans (toLiteral_of_writes hwrites hnormal))
  refine ⟨rfl, hwrites.imp fun _ _ hentry => ⟨hentry.written, hentry.weight⟩,
    ZSetLiteral.contents_of_yields (hwrites.flip.imp fun _ _ hentry => ?_) hz⟩
  exact ⟨Value.yields_toExpr _ hentry.written, hentry.weight.symm⟩

/-- The value of an element of a literal, and what the value is written as, with the weight. -/
structure Rewrites (type : Ty) (element : Expr × Int) (new : Value × Expr × Int) : Prop where
  yields : element.1.Yields new.1
  written : new.1.toExpr type = .ok new.2.1
  equal : new.2.1.equal element.1 = true
  weight : new.2.2 = element.2

/-- **Read and written.** A stored literal of constants has contents, and is what they are written
as. -/
theorem toLiteral_contents (hn : literal.Normal)
    (hconstant : ∀ entry ∈ literal.entries, entry.1.Constant) :
    ∃ z again, literal.contents = .ok z ∧ z.toLiteral literal.elementType = .ok again ∧
      again.equal literal = true := by
  obtain ⟨news, hnews⟩ : ∃ news,
      List.Forall₂ (Rewrites literal.elementType) literal.entries news := by
    refine List.exists_forall₂ fun element helement => ?_
    obtain ⟨v, hyields, hwritten⟩ := (hconstant element helement).exists_toExpr
    obtain ⟨e, he, hequal⟩ := hwritten _ (hn.typed element helement)
    exact ⟨(v, e, element.2), hyields, he, hequal, rfl⟩
  have hvalues : List.Forall₂ (fun element (entry : Value × Int) =>
      ∃ new, Rewrites literal.elementType element new ∧ entry = (new.1, new.2.2))
      literal.entries (news.map fun new => (new.1, new.2.2)) :=
    List.forall₂_map_right_iff.mpr (hnews.imp fun _ new hnew => ⟨new, hnew, rfl⟩)
  -- values that are the same would be written as equal elements
  have hz : Weighted.Normal Value.same (news.map fun new => (new.1, new.2.2)) := by
    refine hn.stored.of_forall₂ hvalues ?_ ?_
    · rintro element _ ⟨new, hnew, rfl⟩
      exact hnew.weight
    · rintro element _ element' _ ⟨new, hnew, rfl⟩ ⟨new', hnew', rfl⟩ hsame
      have hequal := (Value.toExpr_equal_iff _ _ hnew.written hnew'.written).mpr hsame
      exact Expr.equal_equivalence.trans (Expr.equal_equivalence.symm hnew.equal)
        (Expr.equal_equivalence.trans hequal hnew'.equal)
  have hcontents : literal.contents = .ok (news.map fun new => (new.1, new.2.2)) := by
    refine ZSetLiteral.contents_of_yields (hvalues.imp ?_) hz
    rintro element _ ⟨new, hnew, rfl⟩
    exact ⟨hnew.yields, hnew.weight⟩
  have hwrites : List.Forall₂ (Writes literal.elementType)
      (news.map fun new => (new.1, new.2.2)) (news.map Prod.snd) := by
    rw [List.forall₂_map_left_iff, List.forall₂_map_right_iff, List.forall₂_same]
    intro new hmem
    obtain ⟨element, helement, hnew⟩ := hnews.exists_of_mem_right hmem
    exact ⟨hnew.written,
      (Expr.type_eq_of_equal hnew.equal).trans (hn.typed element helement), rfl⟩
  have hstored : Weighted.Normal Expr.equal (news.map Prod.snd) :=
    hz.of_forall₂ hwrites (fun _ _ hentry => hentry.weight)
      fun a b a' b' hentry hentry' => (Value.toExpr_equal_iff _ _ hentry.written hentry'.written).mp
  have htyped : (⟨literal.elementType, news.map Prod.snd⟩ : ZSetLiteral).Normal := by
    refine ⟨hstored, fun element helement => ?_⟩
    obtain ⟨entry, -, hentry⟩ := hwrites.exists_of_mem_right helement
    exact hentry.typed
  refine ⟨_, _, hcontents, toLiteral_of_writes hwrites hstored,
    (ZSetLiteral.equal_iff_weight htyped hn).mpr ⟨rfl, fun e => ?_⟩⟩
  refine (Weighted.weight_eq_of_forall₂ Expr.equal_equivalence ?_ e).symm
  exact List.forall₂_map_right_iff.mpr (hnews.imp fun _ _ hnew =>
    ⟨Expr.equal_equivalence.symm hnew.equal, hnew.weight⟩)

/-- **There and back.** If a Z-set without zero weights can be written as a literal of a type, the
literal has that type and the entries of the Z-set, in their order, and its contents are the Z-set.
A literal whose elements are made of literals and tuples of both kinds has contents; these can be
written at its element type, and what they are written as equals the literal. -/
theorem literal_roundTrip :
    (∀ (z : ZSet) (type : Ty) (literal : ZSetLiteral), Weighted.Normal Value.same z →
      z.toLiteral type = .ok literal →
        literal.elementType = type ∧ literal.size = z.length ∧
        List.Forall₂ (fun entry element => element.1.evaluate = .ok entry.1 ∧ element.2 = entry.2)
          z literal.entries ∧
        literal.contents = .ok z) ∧
    ∀ literal : ZSetLiteral, literal.Constructed →
      (∀ entry ∈ literal.entries, entry.1.Constant) →
        ∃ z again, literal.contents = .ok z ∧ z.toLiteral literal.elementType = .ok again ∧
          again.equal literal = true := by
  refine ⟨fun z type literal hz h => ?_, fun literal hconstructed hconstant =>
    toLiteral_contents hconstructed.normal hconstant⟩
  obtain ⟨htype, hentries, hcontents⟩ := contents_toLiteral hz h
  refine ⟨htype, hentries.length_eq.symm, hentries.imp fun entry element hentry => ?_, hcontents⟩
  exact ⟨(Value.yields_toExpr _ hentry.1).evaluate, hentry.2⟩

/-- A pair of a number that may be missing and a flag, in a tuple of each kind. -/
def markType : Ty := .tuple [⟨.base (.integer .w32 true), true⟩, .rawTuple [.bool]]

def marks : ZSet := [(.row [.null, .row [.bool true]], 2), (.row [.int 7, .row [.bool true]], -1)]

/-- A mark as an expression. -/
def mark (number : Option Literal) : Expr :=
  .ofForm (some markType) (.tuple [.ofForm (some ⟨.base (.integer .w32 true), true⟩)
    (.literal number), .ofForm (some (.rawTuple [.bool])) (.rawTuple [Expr.boolLiteral true])])

def marksLiteral : ZSetLiteral := ⟨markType, [(mark none, 2), (mark (some (.int 7)), -1)]⟩

/-- A NULL inside a row comes back as the NULL of its column. -/
theorem literal_roundTrip_marks :
    marks.toLiteral markType = .ok marksLiteral ∧ marksLiteral.contents = .ok marks ∧
      ∃ again, marks.toLiteral marksLiteral.elementType = .ok again ∧
        again.equal marksLiteral = true := by
  have hwritten : marks.toLiteral markType = .ok marksLiteral := rfl
  have hmarks : Weighted.Normal Value.same marks := by
    refine ⟨?_, by decide, by decide⟩
    unfold Weighted.Distinct
    decide
  have hfirst : (ZSetLiteral.empty markType).addElement (mark none) 2 =
      .ok ⟨markType, [(mark none, 2)]⟩ := rfl
  have hsecond : (⟨markType, [(mark none, 2)]⟩ : ZSetLiteral).addElement
      (mark (some (.int 7))) (-1) = .ok marksLiteral := rfl
  have hconstructed : marksLiteral.Constructed :=
    .addElement (.addElement (.empty _) hfirst) hsecond
  have hconstant : ∀ entry ∈ marksLiteral.entries, entry.1.Constant := by
    have hmark : ∀ number : Option Literal,
        (∃ type, Expr.literal number type =
          .ok (.ofForm (some ⟨.base (.integer .w32 true), true⟩) (.literal number))) →
        (mark number).Constant := fun number hnumber =>
      .of_parts ⟨rfl, rfl⟩ ⟨.leaf ⟨hnumber, rfl⟩ rfl,
        .of_parts ⟨rfl, rfl⟩ (.leaf ⟨⟨.bool, rfl⟩, rfl⟩ rfl)⟩
    exact List.forall_mem_cons.mpr ⟨hmark none ⟨⟨.base (.integer .w32 true), true⟩, rfl⟩,
      List.forall_mem_singleton.mpr
        (hmark (some (.int 7)) ⟨⟨.base (.integer .w32 true), true⟩, rfl⟩)⟩
  obtain ⟨-, -, -, hcontents⟩ := literal_roundTrip.1 marks markType marksLiteral hmarks hwritten
  obtain ⟨z, again, hz, hagain, hequal⟩ :=
    literal_roundTrip.2 marksLiteral hconstructed hconstant
  obtain rfl := Except.ok.inj (hcontents.symm.trans hz)
  exact ⟨hwritten, hcontents, again, hagain, hequal⟩

end ZSet
end DeltaCircuit
