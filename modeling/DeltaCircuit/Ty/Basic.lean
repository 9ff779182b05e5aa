/-!
# Types of values and streams

A type (`Ty`) is a kind together with a flag that tells whether its values may be NULL. Kinds
without component types are gathered in `BaseKind`.

* `Ty.ofKind` — the type of a kind as it is usually meant: only the kind of the NULL literal
  admits NULL by itself.
* `Ty.deref` — the type behind one reference; most checks look through a reference.
* `Ty.elementType` — the rows of a collection. An indexed Z-set holds pairs of a key and a value.

Equality of types is decidable, nullability included, at every depth.
-/

namespace DeltaCircuit

/-! ### Kinds and types -/

/-- Widths of integers. -/
inductive IntWidth where
  | w8 | w16 | w32 | w64
deriving DecidableEq

/-- Widths of floating point numbers. -/
inductive FloatWidth where
  | w32 | w64
deriving DecidableEq

/-- What an interval counts. -/
inductive IntervalUnit where
  | millis | months
deriving DecidableEq

/-- Kinds without component types. -/
inductive BaseKind where
  | bool
  | integer (width : IntWidth) (signed : Bool)
  | float (width : FloatWidth)
  | decimal
  /-- An owned text. -/
  | string
  /-- A borrowed text. -/
  | str
  | date
  | timestamp
  | interval (unit : IntervalUnit)
  | geoPoint
  /-- The kind of the NULL literal. -/
  | null
  /-- A place that is filled in later. -/
  | any
deriving DecidableEq

mutual

/-- A type: a kind, and whether its values may be NULL. -/
structure Ty where
  kind : Kind
  nullable : Bool

/-- The shape of a type. -/
inductive Kind where
  | base (kind : BaseKind)
  /-- A row with a named tuple type. -/
  | tuple (fields : List Ty)
  /-- An anonymous tuple; without fields it is the unit. -/
  | rawTuple (fields : List Ty)
  | struct (name : String) (fields : List StructField)
  | vec (element : Ty)
  | zset (element weight : Ty)
  | indexedZSet (key value weight : Ty)
  /-- A function; one without a result gives no value. -/
  | function (result : Option Ty) (params : List Ty)
  | reference (inner : Ty) (mutable : Bool)
  /-- A type known by its name only. -/
  | user (name : String) (args : List Ty)

/-- A named field of a struct. -/
structure StructField where
  name : String
  type : Ty

end

/-! ### Equality -/

mutual

/-- Compares two types, nullability included. -/
def Ty.beq : Ty → Ty → Bool
  | ⟨k, n⟩, ⟨k', n'⟩ => n == n' && Kind.beq k k'
termination_by structural x => x

/-- Compares two kinds. -/
def Kind.beq : Kind → Kind → Bool
  | .base b, .base b' => b == b'
  | .tuple ts, .tuple ts' => Ty.beqAll ts ts'
  | .rawTuple ts, .rawTuple ts' => Ty.beqAll ts ts'
  | .struct n fs, .struct n' fs' => n == n' && StructField.beqAll fs fs'
  | .vec t, .vec t' => Ty.beq t t'
  | .zset e w, .zset e' w' => Ty.beq e e' && Ty.beq w w'
  | .indexedZSet k v w, .indexedZSet k' v' w' => Ty.beq k k' && Ty.beq v v' && Ty.beq w w'
  | .function none ps, .function none ps' => Ty.beqAll ps ps'
  | .function (some r) ps, .function (some r') ps' => Ty.beq r r' && Ty.beqAll ps ps'
  | .reference t m, .reference t' m' => m == m' && Ty.beq t t'
  | .user n ts, .user n' ts' => n == n' && Ty.beqAll ts ts'
  | _, _ => false
termination_by structural x => x

/-- Compares two lists of types. -/
def Ty.beqAll : List Ty → List Ty → Bool
  | [], [] => true
  | a :: as, b :: bs => Ty.beq a b && Ty.beqAll as bs
  | _, _ => false
termination_by structural x => x

/-- Compares two lists of struct fields. -/
def StructField.beqAll : List StructField → List StructField → Bool
  | [], [] => true
  | ⟨n, t⟩ :: as, ⟨n', t'⟩ :: bs => n == n' && Ty.beq t t' && StructField.beqAll as bs
  | _, _ => false
termination_by structural x => x

end

mutual

theorem Ty.beq_iff_eq : ∀ a b : Ty, a.beq b = true ↔ a = b
  | ⟨k, n⟩, ⟨k', n'⟩ => by simp [Ty.beq, Kind.beq_iff_eq k, and_comm]

theorem Kind.beq_iff_eq : ∀ a b : Kind, a.beq b = true ↔ a = b
  | .base _, b => by cases b <;> simp [Kind.beq]
  | .tuple ts, b => by cases b <;> simp [Kind.beq, Ty.beqAll_iff_eq ts]
  | .rawTuple ts, b => by cases b <;> simp [Kind.beq, Ty.beqAll_iff_eq ts]
  | .struct _ fs, b => by cases b <;> simp [Kind.beq, StructField.beqAll_iff_eq fs]
  | .vec t, b => by cases b <;> simp [Kind.beq, Ty.beq_iff_eq t]
  | .zset e w, b => by cases b <;> simp [Kind.beq, Ty.beq_iff_eq e, Ty.beq_iff_eq w]
  | .indexedZSet k v w, b => by
    cases b <;> simp [Kind.beq, Ty.beq_iff_eq k, Ty.beq_iff_eq v, Ty.beq_iff_eq w, and_assoc]
  | .function none ps, b => by
    rcases b with - | - | - | - | - | - | - | (- | -) <;> simp [Kind.beq, Ty.beqAll_iff_eq ps]
  | .function (some r) ps, b => by
    rcases b with - | - | - | - | - | - | - | (- | -) <;>
      simp [Kind.beq, Ty.beq_iff_eq r, Ty.beqAll_iff_eq ps]
  | .reference t _, b => by cases b <;> simp [Kind.beq, Ty.beq_iff_eq t, and_comm]
  | .user _ ts, b => by cases b <;> simp [Kind.beq, Ty.beqAll_iff_eq ts]

theorem Ty.beqAll_iff_eq : ∀ as bs : List Ty, Ty.beqAll as bs = true ↔ as = bs
  | [], bs => by cases bs <;> simp [Ty.beqAll]
  | a :: as, bs => by cases bs <;> simp [Ty.beqAll, Ty.beq_iff_eq a, Ty.beqAll_iff_eq as]

theorem StructField.beqAll_iff_eq :
    ∀ as bs : List StructField, StructField.beqAll as bs = true ↔ as = bs
  | [], bs => by cases bs <;> simp [StructField.beqAll]
  | ⟨n, t⟩ :: as, bs => by
    rcases bs with - | ⟨⟨n', t'⟩, bs⟩
    · simp [StructField.beqAll]
    · simp [StructField.beqAll, Ty.beq_iff_eq t, StructField.beqAll_iff_eq as]

end

instance : DecidableEq Ty := fun a b => decidable_of_iff (a.beq b = true) (Ty.beq_iff_eq a b)

instance : DecidableEq Kind := fun a b => decidable_of_iff (a.beq b = true) (Kind.beq_iff_eq a b)

/-! ### Common types -/

namespace Ty

/-- The type of a kind; the NULL literal is the only one that admits NULL by itself. -/
def ofKind (kind : Kind) : Ty := ⟨kind, kind = .base .null⟩

def ofBase (kind : BaseKind) : Ty := ofKind (.base kind)

def bool : Ty := ofBase .bool

def integer (width : IntWidth) (signed : Bool) : Ty := ofBase (.integer width signed)

def i32 : Ty := integer .w32 true

def i64 : Ty := integer .w64 true

def float (width : FloatWidth) : Ty := ofBase (.float width)

def f64 : Ty := float .w64

def string : Ty := ofBase .string

def null : Ty := ofBase .null

def any : Ty := ofBase .any

def tuple (fields : List Ty) : Ty := ofKind (.tuple fields)

def rawTuple (fields : List Ty) : Ty := ofKind (.rawTuple fields)

/-- The type of an expression that is evaluated for its effect. -/
def unit : Ty := rawTuple []

def vec (element : Ty) : Ty := ofKind (.vec element)

/-- The type of the weights of every Z-set. -/
def weight : Ty := i64

def zset (element : Ty) : Ty := ofKind (.zset element weight)

def indexedZSet (key value : Ty) : Ty := ofKind (.indexedZSet key value weight)

def function (result : Option Ty) (params : List Ty) : Ty := ofKind (.function result params)

def reference (inner : Ty) (mutable : Bool) : Ty := ofKind (.reference inner mutable)

/-- The type of a function parameter that is passed by reference. -/
def byRef (inner : Ty) : Ty := reference inner false

/-! ### Questions about a type -/

def isBool (t : Ty) : Bool := t.kind = .base .bool

def isInteger (t : Ty) : Bool :=
  match t.kind with
  | .base (.integer _ _) => true
  | _ => false

/-- Types of arithmetic operands. -/
def isNumeric (t : Ty) : Bool :=
  match t.kind with
  | .base (.integer _ _) | .base (.float _) | .base .decimal => true
  | _ => false

/-- Types of texts. -/
def isText (t : Ty) : Bool :=
  match t.kind with
  | .base .string | .base .str => true
  | _ => false

/-- Types that a cast converts between. -/
def isScalar (t : Ty) : Bool :=
  match t.kind with
  | .base .geoPoint | .base .null | .base .any => false
  | .base _ => true
  | _ => false

def isReference (t : Ty) : Bool :=
  match t.kind with
  | .reference _ _ => true
  | _ => false

def isUnit (t : Ty) : Bool := t.kind = .rawTuple []

/-- The type behind a reference, and any other type itself. -/
def deref (t : Ty) : Ty :=
  match t.kind with
  | .reference inner _ => inner
  | _ => t

/-- The field types of a tuple of either kind. -/
def tupleFields? (t : Ty) : Option (List Ty) :=
  match t.kind with
  | .tuple fields | .rawTuple fields => some fields
  | _ => none

/-- The type of the rows of a collection. -/
def elementType? (t : Ty) : Option Ty :=
  match t.kind with
  | .zset element _ => some element
  | .indexedZSet key value _ => some (rawTuple [key, value])
  | _ => none

end Ty

/-! ### Ranges of integers -/

/-- The number of bits of a width. -/
def IntWidth.bits : IntWidth → Nat
  | .w8 => 8
  | .w16 => 16
  | .w32 => 32
  | .w64 => 64

/-- The least and the greatest value of an integer type. -/
def IntWidth.range (width : IntWidth) (signed : Bool) : Int × Int :=
  if signed then (-(Nat.pow 2 (width.bits - 1) : Nat), (Nat.pow 2 (width.bits - 1) : Nat) - 1)
  else (0, (Nat.pow 2 width.bits : Nat) - 1)

end DeltaCircuit
