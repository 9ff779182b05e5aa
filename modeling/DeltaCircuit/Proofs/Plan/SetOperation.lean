import DeltaCircuit.Proofs.Circuit.Distinct
import DeltaCircuit.Proofs.Plan.RowFunction
import DeltaCircuit.Proofs.Plan.Streams
import DeltaCircuit.Proofs.ZSetOperation
import Mathlib.Algebra.Order.BigOperators.Group.List

/-!
# What lowered set operations give

A union of all rows is a sum, and a union is the distinct values of one. The other two set
operations are loops over their inputs that start from the distinct values of the first one: a
difference subtracts the distinct values of every further input, and an intersection joins with
them, row by row. On the way the weights of a difference may become negative, but none exceeds one,
and a weight is positive iff the row has passed every input so far. This invariant (`ZSet.Marks`) is
kept by both loops, and after the last distinct it says that the rows that have passed are there
once.

* `ZSet.IsSet` — Z-sets that hold certain rows once each, and no other row.
* `Lower.keepsMarks_exceptOne`, `Lower.keepsMarks_intersectOne` — one step of a loop.
* `Lower.marks_foldlM`, `Lower.isSet_loop` — a whole loop, and what is distinct after it.
* `Plan.lower_setOp` — the whole node.
-/

namespace DeltaCircuit

open ExceptT (gives_bind gives_pure gives_throw)

variable {tables : Tables} {row : Row} {t t' : Lowering} {i j id : OperatorId} {schema : Schema}
  {z z' : ZSet} {p q : Value → Prop}

/-! ### Sets and marks -/

namespace ZSet

/-- A Z-set that holds the rows with a property, each once, and no other row. -/
structure IsSet (z : ZSet) (p : Value → Prop) : Prop where
  distinct : z.Distinct
  of_mem : ∀ entry ∈ z, entry.2 = 1 ∧ p entry.1
  weight_eq_one_iff : ∀ v, z.weight v = 1 ↔ p v

/-- A Z-set that marks the rows with a property by a positive weight. No weight exceeds one; the
rows without the property may have any other weight, also a negative one. -/
structure Marks (z : ZSet) (p : Value → Prop) : Prop where
  distinct : z.Distinct
  le_one : ∀ v, z.weight v ≤ 1
  pos_iff : ∀ v, 0 < z.weight v ↔ p v

theorem IsSet.congr (h : z.IsSet p) (hpq : ∀ v, p v ↔ q v) : z.IsSet q where
  distinct := h.distinct
  of_mem entry hentry := (h.of_mem entry hentry).imp_right (hpq entry.1).mp
  weight_eq_one_iff v := (h.weight_eq_one_iff v).trans (hpq v)

theorem Marks.congr (h : z.Marks p) (hpq : ∀ v, p v ↔ q v) : z.Marks q where
  distinct := h.distinct
  le_one := h.le_one
  pos_iff v := (h.pos_iff v).trans (hpq v)

/-- The distinct values of a Z-set are its values of positive weight. -/
theorem isSet_distinct (hd : z.Distinct) : z.distinct.IsSet fun v => 0 < z.weight v := by
  have hone (v : Value) : z.distinct.weight v = 1 ↔ 0 < z.weight v := by
    rw [weight_distinct hd]
    split <;> simp [*]
  refine ⟨distinct_distinct z, fun entry hentry => ?_, hone⟩
  have hweight : z.distinct.weight entry.1 = entry.2 :=
    (distinct_distinct z).weight_of_mem Value.same_equivalence hentry
  have honce : entry.2 = 1 := once_distinct entry hentry
  exact ⟨honce, (hone entry.1).mp (hweight.trans honce)⟩

theorem marks_distinct (hd : z.Distinct) : z.distinct.Marks fun v => 0 < z.weight v := by
  refine ⟨distinct_distinct z, fun v => ?_, fun v => ?_⟩ <;> rw [weight_distinct hd]
  · split <;> decide
  · split <;> simp [*]

/-- Marked rows are what is distinct. -/
theorem Marks.isSet (h : z.Marks p) : z.distinct.IsSet p :=
  (isSet_distinct h.distinct).congr h.pos_iff

end ZSet

/-! ### Steps of the loops -/

namespace Lower

theorem extending_exceptOne : Extending (exceptOne i j) :=
  extending_append.bind fun _ => extending_append

theorem extending_indexByRow : Extending (indexByRow i schema) := extending_withFunction

theorem extending_intersectOne : Extending (intersectOne schema i j) :=
  extending_append.bind fun _ => extending_indexByRow.bind fun _ =>
    extending_indexByRow.bind fun _ => extending_withFunction

/-- A step of a loop that keeps the marks of the rows whose weight in the input is a certain one. -/
def KeepsMarks (step : OperatorId → OperatorId → Lower OperatorId) (keeps : Int → Prop) : Prop :=
  ∀ ⦃t t' : Lowering⦄ ⦃i j id : OperatorId⦄ ⦃z z' : ZSet⦄ ⦃p : Value → Prop⦄ ⦃tables : Tables⦄
    ⦃row : Row⦄, t'.circuit.Fills t.circuit.size tables row → (step i j).Gives t id t' →
    row[i]? = some z → row[j]? = some z' → z.Marks p → z'.Distinct →
    ∃ out, row[id]? = some out ∧ out.Marks fun v => p v ∧ keeps (z'.weight v)

/-- **One input less.** A row stays marked iff it does not occur in the input. -/
theorem keepsMarks_exceptOne : KeepsMarks exceptOne fun w => ¬ 0 < w := by
  intro t t' i j id z z' p tables row hrow h hi hj hz hz'
  obtain ⟨removed, t₁, hremoved, hsubtract⟩ := gives_bind.mp h
  have e₁ : t₁.circuit.Extends t.circuit := extending_append t removed t₁ hremoved
  have e₂ : t'.circuit.Extends t₁.circuit := extending_append t₁ id t' hsubtract
  have hdistinct := stream_distinct (hrow.mono le_rfl e₂) hremoved hj
  obtain ⟨out, hout, hdifference⟩ :=
    stream_subtract (hrow.mono e₁.size_le (.refl _)) hsubtract hi hdistinct
  have hweight (v : Value) : out.weight v = z.weight v - if 0 < z'.weight v then 1 else 0 := by
    rw [ZSet.weight_of_difference hz.distinct (ZSet.distinct_distinct z') hdifference,
      ZSet.weight_distinct hz']
  refine ⟨out, hout, ZSet.distinct_of_difference hdifference, fun v => ?_, fun v => ?_⟩
  · have hle := hz.le_one v
    rw [hweight]
    split <;> omega
  · -- a mark is a one, and the subtraction takes it away
    have hle := hz.le_one v
    rw [hweight, ← hz.pos_iff v]
    split <;> omega

/-- The stream of an index of rows by themselves. -/
theorem stream_indexByRow (hrow : t'.circuit.Fills t.circuit.size tables row)
    (h : (indexByRow i schema).Gives t id t') (hz : z.Distinct) (hi : row[i]? = some z) :
    row[id]? = some (ZSet.paired (fun v => v) (fun _ => .unit) (ZSet.support z)) := by
  obtain ⟨f, hf, happend⟩ := gives_ofExcept_bind.mp h
  obtain ⟨out, hout, hindex⟩ := stream_transform rfl hrow happend hi
  have hpaired : ZSet.Distinct (ZSet.paired (fun v => v) (fun _ => .unit) z) :=
    ZSet.distinct_paired hz fun _ _ _ _ hkey _ => hkey
  rw [hout, ZSet.index_eq_ok hpaired (fun entry _ v hv => ?_) hindex, ZSet.support_paired]
  rw [wholeRowFunction_applyTo hf] at hv
  exact (Except.ok.inj hv).symm

/-- The join of two inputs that are indexed by the whole row multiplies weights. -/
theorem stream_joinByRow {f : Expr} {keyType output : Ty}
    (hrow : t'.circuit.Fills t.circuit.size tables row)
    (h : (append (·.addJoin i j f keyType output)).Gives t id t')
    (hf : keyOnlyFunction schema = .ok f) (hz : z.Distinct) (hz' : z'.Distinct)
    (hi : row[i]? = some (ZSet.paired (fun v => v) (fun _ => .unit) (ZSet.support z)))
    (hj : row[j]? = some (ZSet.paired (fun v => v) (fun _ => .unit) (ZSet.support z'))) :
    ∃ out, row[id]? = some out ∧ out.Distinct ∧
      ∀ v, out.weight v = z.weight v * z'.weight v := by
  obtain ⟨out, hout, hjoin⟩ := stream_join hrow h hi hj
  refine ⟨out, hout, ZSet.distinct_of_join hjoin, fun v => ?_⟩
  -- the key of a pair is the row, and the join gives it back
  have hadded : ZSet.addAll [] (ZSet.pairs (fun l r => r.same l) (fun l _ => l)
      (ZSet.support z) (ZSet.support z')) = .ok out :=
    ZSet.join_eq_ok (fun l _ r _ _ v hv =>
      Except.ok.inj (hv.symm.trans (keyOnlyFunction_applyTo hf))) hjoin
  calc out.weight v
      = 0 + ZSet.weightWhere (·.same v) (ZSet.pairs (fun l r => r.same l) (fun l _ => l)
          (ZSet.support z) (ZSet.support z')) :=
        ZSet.weight_of_addAll Weighted.distinct_nil hadded v
    _ = ZSet.pairWeight (fun l r => r.same l && l.same v) z z' := by
        rw [Int.zero_add, ZSet.weightWhere_pairs, ZSet.pairWeight_support]
    _ = z.weight v * z'.weight v := ZSet.pairWeight_same hz hz' v

/-- **One input more.** A row stays marked iff it occurs in the input. -/
theorem keepsMarks_intersectOne : KeepsMarks (intersectOne schema) fun w => 0 < w := by
  intro t t' i j id z z' p tables row hrow h hi hj hz hz'
  obtain ⟨other, t₁, hother, h⟩ := gives_bind.mp h
  obtain ⟨left, t₂, hleft, h⟩ := gives_bind.mp h
  obtain ⟨right, t₃, hright, h⟩ := gives_bind.mp h
  obtain ⟨f, hf, hjoin⟩ := gives_ofExcept_bind.mp h
  have e₁ : t₁.circuit.Extends t.circuit := extending_append t other t₁ hother
  have e₂ : t₂.circuit.Extends t₁.circuit := extending_indexByRow t₁ left t₂ hleft
  have e₃ : t₃.circuit.Extends t₂.circuit := extending_indexByRow t₂ right t₃ hright
  have e₄ : t'.circuit.Extends t₃.circuit := extending_append t₃ id t' hjoin
  -- the streams, stage by stage
  have hdistinct := stream_distinct (hrow.mono le_rfl ((e₄.trans e₃).trans e₂)) hother hj
  have hleftIndex := stream_indexByRow (hrow.mono e₁.size_le (e₄.trans e₃)) hleft hz.distinct hi
  have hrightIndex := stream_indexByRow (hrow.mono (e₂.trans e₁).size_le e₄) hright
    (ZSet.distinct_distinct z') hdistinct
  obtain ⟨out, hout, hd, hweight⟩ := stream_joinByRow
    (hrow.mono ((e₃.trans e₂).trans e₁).size_le (.refl _)) hjoin hf hz.distinct
    (ZSet.distinct_distinct z') hleftIndex hrightIndex
  have hkept (v : Value) : out.weight v = if 0 < z'.weight v then z.weight v else 0 := by
    rw [hweight, ZSet.weight_distinct hz', mul_ite, Int.mul_one, Int.mul_zero]
  refine ⟨out, hout, hd, fun v => ?_, fun v => ?_⟩
  · have hle := hz.le_one v
    rw [hkept]
    split <;> omega
  · rw [hkept, ← hz.pos_iff v]
    split <;> simp [*]

/-! ### Loops -/

variable {step : OperatorId → OperatorId → Lower OperatorId} {keeps : Int → Prop}
  {inputs : List OperatorId} {zs : List ZSet} {first : OperatorId}

/-- **Loops.** After a loop, the rows that every input keeps are still marked. -/
theorem marks_foldlM (hkeeps : KeepsMarks step keeps) (hstep : ∀ i j, Extending (step i j))
    (hrow : t'.circuit.Fills t.circuit.size tables row)
    (h : (inputs.foldlM step i).Gives t id t') (hi : row[i]? = some z)
    (hinputs : List.Forall₂ (fun (j : OperatorId) z' => row[j]? = some z') inputs zs)
    (hz : z.Marks p) (hzs : ∀ z ∈ zs, z.Distinct) :
    ∃ out, row[id]? = some out ∧
      out.Marks fun v => p v ∧ ∀ z ∈ zs, keeps (z.weight v) := by
  induction hinputs generalizing t i z p with
  | nil =>
    obtain ⟨rfl, rfl⟩ := gives_pure.mp h
    exact ⟨z, hi, hz.congr fun v => by simp⟩
  | @cons j z' inputs zs hj _ ih =>
    rw [List.foldlM_cons] at h
    obtain ⟨k, t₁, hk, h⟩ := gives_bind.mp h
    obtain ⟨hz', hzs⟩ := List.forall_mem_cons.mp hzs
    have e₁ : t₁.circuit.Extends t.circuit := hstep i j t k t₁ hk
    have e₂ : t'.circuit.Extends t₁.circuit := extending_foldlM hstep inputs k t₁ id t' h
    -- one step, and the rest from the marks after it
    obtain ⟨next, hnext, hmarks⟩ := hkeeps (hrow.mono le_rfl e₂) hk hi hj hz hz'
    obtain ⟨out, hout, hmarked⟩ := ih (hrow.mono e₁.size_le (.refl _)) h hnext hmarks hzs
    refine ⟨out, hout, hmarked.congr fun v => ?_⟩
    rw [List.forall_mem_cons, and_assoc]

/-- A loop over inputs between two operators that make rows distinct. -/
theorem isSet_loop (hkeeps : KeepsMarks step keeps) (hstep : ∀ i j, Extending (step i j))
    (hrow : t'.circuit.Fills t.circuit.size tables row)
    (h : (do
      let result ← inputs.foldlM step (← append (·.addUnary .distinct first))
      append (·.addUnary .distinct result) : Lower OperatorId).Gives t id t')
    (hfirst : row[first]? = some z)
    (hinputs : List.Forall₂ (fun (j : OperatorId) z' => row[j]? = some z') inputs zs)
    (hz : z.Distinct) (hzs : ∀ z ∈ zs, z.Distinct) :
    ∃ out, row[id]? = some out ∧
      out.IsSet fun v => 0 < z.weight v ∧ ∀ z ∈ zs, keeps (z.weight v) := by
  obtain ⟨start, t₁, hstart, h⟩ := gives_bind.mp h
  obtain ⟨result, t₂, hloop, hend⟩ := gives_bind.mp h
  have e₁ : t₁.circuit.Extends t.circuit := extending_append t start t₁ hstart
  have e₂ : t₂.circuit.Extends t₁.circuit := extending_foldlM hstep inputs start t₁ result t₂ hloop
  have e₃ : t'.circuit.Extends t₂.circuit := extending_append t₂ id t' hend
  have hstarted := stream_distinct (hrow.mono le_rfl (e₃.trans e₂)) hstart hfirst
  obtain ⟨looped, hlooped, hmarks⟩ := marks_foldlM hkeeps hstep (hrow.mono e₁.size_le e₃) hloop
    hstarted hinputs (ZSet.marks_distinct hz) hzs
  exact ⟨_, stream_distinct (hrow.mono (e₂.trans e₁).size_le (.refl _)) hend hlooped,
    hmarks.isSet⟩

end Lower

/-! ### The whole node -/

/-- What a set operation makes of its inputs. A row is told by its columns, and NULL is one
value. -/
def SetOperation.Result (operation : SetOperation) (inputs : List ZSet) (out : ZSet) : Prop :=
  match operation, inputs with
  | _, [] => False
  | .unionAll, inputs =>
    out.Distinct ∧ ∀ v, out.weight v = (inputs.map fun z => z.weight v).sum
  | .union, inputs => out.IsSet fun v => 0 < (inputs.map fun z => z.weight v).sum
  | .except, first :: rest =>
    out.IsSet fun v => 0 < first.weight v ∧ ∀ z ∈ rest, ¬ 0 < z.weight v
  | .intersect, inputs => out.IsSet fun v => ∀ z ∈ inputs, 0 < z.weight v

/-- A sum of weights that are not negative is positive iff one of them is. -/
theorem sum_weights_pos_iff {zs : List ZSet} {v : Value} (h : ∀ z ∈ zs, 0 ≤ z.weight v) :
    0 < (zs.map fun z => z.weight v).sum ↔ ∃ z ∈ zs, 0 < z.weight v := by
  induction zs with
  | nil => simp
  | cons z zs ih =>
    obtain ⟨hz, hzs⟩ := List.forall_mem_cons.mp h
    have hsum : 0 ≤ (zs.map fun z => z.weight v).sum :=
      List.sum_nonneg (by simpa using hzs)
    have hex : (∃ z' ∈ z :: zs, 0 < z'.weight v) ↔
        0 < z.weight v ∨ ∃ z' ∈ zs, 0 < z'.weight v := by simp
    rw [List.map_cons, List.sum_cons, hex, ← ih hzs]
    omega

/-- Of inputs without negative weights, a union has the rows that occur in one of them. -/
theorem SetOperation.Result.union_of_nonneg {zs : List ZSet} {out : ZSet}
    (h : SetOperation.union.Result zs out) (hzs : ∀ z ∈ zs, ∀ v, 0 ≤ z.weight v) :
    out.IsSet fun v => ∃ z ∈ zs, 0 < z.weight v := by
  cases zs with
  | nil => exact h.elim
  | cons z zs =>
    have hset : out.IsSet fun v => 0 < ((z :: zs).map fun z => z.weight v).sum := h
    exact hset.congr fun v => sum_weights_pos_iff fun z hz => hzs z hz v

/-- **Set operations.** The operators of a set operation give what the operation makes of the
inputs. -/
theorem Lower.stream_setOp {operation : SetOperation} {inputs : List OperatorId} {zs : List ZSet}
    (hrow : t'.circuit.Fills t.circuit.size tables row)
    (h : (setOp operation inputs schema).Gives t id t')
    (hinputs : List.Forall₂ (fun (i : OperatorId) z => row[i]? = some z) inputs zs)
    (hzs : ∀ z ∈ zs, z.Distinct) :
    ∃ out, row[id]? = some out ∧ operation.Result zs out := by
  cases hinputs with
  | nil => cases operation <;> exact (gives_throw.mp h).elim
  | @cons first z rest zs hfirst hrest =>
    obtain ⟨hz, hrest'⟩ := List.forall_mem_cons.mp hzs
    cases operation with
    | unionAll =>
      obtain ⟨out, hout, hsum⟩ := stream_sum hrow h (.cons hfirst hrest)
      exact ⟨out, hout, ZSet.distinct_of_accumulate hsum, ZSet.weight_of_accumulate hzs hsum⟩
    | union =>
      obtain ⟨sum, t₁, hsum, hend⟩ := gives_bind.mp h
      have e₁ : t₁.circuit.Extends t.circuit := extending_append t sum t₁ hsum
      have e₂ : t'.circuit.Extends t₁.circuit := extending_append t₁ id t' hend
      obtain ⟨found, hfound, hadded⟩ :=
        stream_sum (hrow.mono le_rfl e₂) hsum (.cons hfirst hrest)
      refine ⟨_, stream_distinct (hrow.mono e₁.size_le (.refl _)) hend hfound, ?_⟩
      refine (ZSet.isSet_distinct (ZSet.distinct_of_accumulate hadded)).congr fun v => ?_
      rw [ZSet.weight_of_accumulate hzs hadded]
    | except =>
      exact isSet_loop keepsMarks_exceptOne (fun _ _ => extending_exceptOne) hrow h hfirst hrest
        hz hrest'
    | intersect =>
      obtain ⟨out, hout, hset⟩ := isSet_loop keepsMarks_intersectOne
        (fun _ _ => extending_intersectOne) hrow h hfirst hrest hz hrest'
      refine ⟨out, hout, hset.congr fun v => ?_⟩
      rw [List.forall_mem_cons]

/-- Inputs of one row type are lowered one after another, without conversions. -/
theorem Plan.lowerAll_eq_mapM {inputs : List Plan}
    (h : ∀ input ∈ inputs, input.schema.rowType = schema.rowType) :
    lowerAll schema inputs = inputs.mapM lower := by
  induction inputs with
  | nil => rfl
  | cons input inputs ih =>
    obtain ⟨hinput, hinputs⟩ := List.forall_mem_cons.mp h
    have hconform (source : OperatorId) :
        Lower.conform source input.schema schema = pure source := if_pos hinput
    rw [lowerAll, List.mapM_cons, ih hinputs]
    simp only [hconform, pure_bind]

/-- **Set operations mean what they say.** A set operation that is lowered, over inputs with its row
type, has operators of its own behind those of its inputs. Whenever these run, the stream of the
node is what the operation makes of the streams of all inputs, whatever the signs of their weights
are. A union of inputs without negative weights has the rows that occur in one of them. -/
theorem Plan.lower_setOp {operation : SetOperation} {inputs : List Plan}
    (h : (Plan.setOp operation inputs schema).lower.Gives t id t')
    (hschemas : ∀ input ∈ inputs, input.schema.rowType = schema.rowType) :
    ∃ (t₁ : Lowering) (sources : List OperatorId), (inputs.mapM lower).Gives t sources t₁ ∧
      ∀ (tables : Tables) (outputs row : Row) (state state' : RunState) (zs : List ZSet),
        outputs.length = t₁.circuit.size →
        List.Forall₂ (fun (i : OperatorId) z => outputs[i]? = some z) sources zs →
        (∀ z ∈ zs, z.Distinct) →
        runOperators tables (t'.circuit.numbered.drop t₁.circuit.size) outputs state =
          (.ok row, state') →
        ∃ out, row[id]? = some out ∧ operation.Result zs out ∧
          (operation = .union → (∀ z ∈ zs, ∀ v, 0 ≤ z.weight v) →
            out.IsSet fun v => ∃ z ∈ zs, 0 < z.weight v) := by
  rw [Plan.lower, lowerAll_eq_mapM hschemas] at h
  obtain ⟨sources, t₁, hsources, hsetOp⟩ := gives_bind.mp h
  refine ⟨t₁, sources, hsources, ?_⟩
  intro tables outputs row state state' zs hlength hstreams hzs hrun
  obtain ⟨hfront, hrow⟩ := fills_of_runOperators hlength hrun
  -- the streams of the inputs are at the front of the row
  have hinputs : List.Forall₂ (fun (i : OperatorId) z => row[i]? = some z) sources zs :=
    hstreams.imp fun i z hi => getElem?_of_front hfront hi
  obtain ⟨out, hout, hresult⟩ := Lower.stream_setOp hrow hsetOp hinputs hzs
  refine ⟨out, hout, hresult, ?_⟩
  rintro rfl hnonneg
  exact hresult.union_of_nonneg hnonneg

namespace Plan

/-! #### A difference of three tables -/

def people : Schema := ⟨[⟨"ID", { Ty.i32 with nullable := true }⟩]⟩

/-- The members who have neither left nor been banned. -/
def activeMembers : Plan :=
  .setOp .except [.scan "MEMBERS" people, .scan "LEFT" people, .scan "BANNED" people] people

/-- A circuit with the three tables. -/
def club : Lowering where
  circuit := ⟨"club", [⟨.source "MEMBERS" people.rowType, [], none, .zset people.rowType, true⟩,
    ⟨.source "LEFT" people.rowType, [], none, .zset people.rowType, true⟩,
    ⟨.source "BANNED" people.rowType, [], none, .zset people.rowType, true⟩]⟩
  tables := [("MEMBERS", ⟨0, people⟩), ("LEFT", ⟨1, people⟩), ("BANNED", ⟨2, people⟩)]
  diagnostics := []

def members : ZSet :=
  [(.row [.int 1], 2), (.row [.null], 1), (.row [.int 2], 1), (.row [.int 3], -1)]

def leavers : ZSet := [(.row [.null], 1), (.row [.int 2], -1), (.row [.int 3], 1)]

/-- The member without an id has left, a leaver of negative weight has not, and who is no member at
all gets a negative weight on the way. -/
theorem lower_setOp_activeMembers :
    ∃ row, runOperators [] ((activeMembers.lower club).2.circuit.numbered.drop 3)
        [members, leavers, []] .start = (.ok row, .start) ∧
      row[8]? = some [(.row [.int 1], 1), (.row [.int 2], 1)] ∧
      ZSet.IsSet [(.row [.int 1], 1), (.row [.int 2], 1)] fun v =>
        0 < members.weight v ∧ ∀ z ∈ [leavers, []], ¬ 0 < z.weight v := by
  have hlower : activeMembers.lower.Gives club 8 (activeMembers.lower club).2 := rfl
  obtain ⟨t₁, sources, hsources, hsetOp⟩ := lower_setOp hlower (by decide)
  -- the inputs are the three tables
  have hscans : ([.scan "MEMBERS" people, .scan "LEFT" people, .scan "BANNED" people].mapM
      Plan.lower).Gives club [0, 1, 2] club := rfl
  obtain ⟨rfl, rfl⟩ := hsources.unique hscans
  have hdistinct : ∀ z ∈ [members, leavers, []], z.Distinct := by
    unfold ZSet.Distinct Weighted.Distinct
    decide
  obtain ⟨out, hout, hresult, -⟩ := hsetOp [] [members, leavers, []] _ .start .start _ rfl
    (.cons rfl (.cons rfl (.cons rfl .nil))) hdistinct rfl
  obtain rfl : [(.row [.int 1], 1), (.row [.int 2], 1)] = out := Option.some.inj hout
  exact ⟨_, rfl, rfl, hresult⟩

end Plan
end DeltaCircuit
