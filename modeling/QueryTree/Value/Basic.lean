import QueryTree.Decimal.Binary
import QueryTree.Time
import QueryTree.Type.Basic

/-!
# Values

The values that constants hold and evaluation yields. Every value but nil knows its own type, so
the type of a value is a function of the value. The elements of lists, the entries of maps and the
fields of records are values themselves; where the declared type admits every value, nil stands
for itself.

## Main definitions

* `Value`, `MapKey`
* `Value.type?`: the type of a value, none for nil
* `Value.under`: the value without its declared name
* `Value.isNil`: nil, or a nil pointer, list or map
* `Value.same`: equality of types and contents
* `Ty.zero`: the zero value of a type
-/

namespace QueryTree

/-- A key of a map. -/
inductive MapKey where
  | string (t : Text)
  | int (n : Int)
  deriving DecidableEq, Repr

/-- A value. -/
inductive Value where
  | nil
  | bool (b : Bool)
  | int (kind : IntKind) (n : Int)
  | float (single : Bool) (x : Double)
  | string (t : Text)
  | time (t : Instant)
  | nilPtr (elem : Ty)
  | ptr (elem : Ty) (target : Value)
  | nilSlice (elem : Ty)
  | slice (elem : Ty) (items : List Value)
  | array (elem : Ty) (items : List Value)
  | nilMap (key elem : Ty)
  /-- A map, its entries in the order of their keys. -/
  | map (key elem : Ty) (entries : List (MapKey × Value))
  | record (fields : List (Field Ty)) (values : List Value)
  | named (name : TypeName) (v : Value)
  deriving Inhabited

namespace Value

/-- The type of a value; nil has none. -/
def type? : Value → Option Ty
  | nil => none
  | bool _ => some .bool
  | int k _ => some (.int k)
  | float s _ => some (.float s)
  | string _ => some .string
  | time _ => some .time
  | nilPtr t | ptr t _ => some (.ptr t)
  | nilSlice t | slice t _ => some (.slice t)
  | array t items => some (.array items.length t)
  | nilMap k t | map k t _ => some (.map k t)
  | record fs _ => some (.record fs)
  | named n v => v.type?.map (.named n)

/-- The value without its declared name. -/
def under : Value → Value
  | named _ v => v.under
  | v => v

/-- Without its declared name, a value has the type of the value without it. -/
theorem type?_under : (v : Value) → v.type?.map Ty.under = v.under.type?.map Ty.under
  | nil => rfl
  | named n w => by
    have ih := type?_under w
    rw [type?, under, ← ih]
    cases w.type? <;> rfl
  | bool _ | int .. | float .. | string _ | time _ | nilPtr _ | ptr .. | nilSlice _ | slice ..
  | array .. | nilMap .. | map .. | record .. => rfl

/-- Whether the value is nil, or a nil pointer, list or map. -/
def isNil (v : Value) : Bool :=
  match v.under with
  | nil | nilPtr _ | nilSlice _ | nilMap .. => true
  | _ => false

/-- Follows pointers, those of declared pointer types included, until something else or a nil
pointer is reached. -/
def deref : Value → Value
  | ptr _ v => v.deref
  | named n v =>
    match v.under with
    | ptr .. => v.deref
    | _ => named n v
  | v => v

theorem deref_of_ne_ptr {v : Value} (h : ∀ t u, v.under ≠ ptr t u) : v.deref = v := by
  cases v with
  | ptr t u => exact absurd rfl (h t u)
  | named n v =>
    rw [deref]
    split
    · rename_i t u hu
      exact absurd hu (h t u)
    · rfl
  | _ => rfl

/-- The elements of a list or array. -/
def items? (v : Value) : Option (List Value) :=
  match v.under with
  | nilSlice _ => some []
  | slice _ items | array _ items => some items
  | _ => none

/-- The elements of a list or array that pointers may lead to, but not through a type of all
values. -/
def listed? : Value → Option (List Value)
  | ptr t v => if t.under = .any then none else v.listed?
  | named _ v => v.listed?
  | nilSlice _ => some []
  | slice _ items | array _ items => some items
  | _ => none

/-- Orders map keys: numbers by size, texts by their bytes. -/
def keyLe : MapKey → MapKey → Bool
  | .int m, .int n => m ≤ n
  | .string s, .string t => Text.byteLe s t
  | .int _, .string _ => true
  | .string _, .int _ => false

/-- The entries of a map with one more, which replaces an entry of the same key. -/
def insertEntry (k : MapKey) (v : Value) : List (MapKey × Value) → List (MapKey × Value)
  | [] => [(k, v)]
  | (k', v') :: rest =>
    if k = k' then (k, v) :: rest
    else if keyLe k k' then (k, v) :: (k', v') :: rest
    else (k', v') :: insertEntry k v rest

/-! ### Equality -/

mutual

/-- Whether two values have the same type and contents. No number that is not a number equals
itself, and the two zeros are equal. -/
def same : Value → Value → Bool
  | nil, nil => true
  | bool a, bool b => a == b
  | int k a, int k' b => k == k' && a == b
  | float s a, float s' b => s == s' && a.toFloat == b.toFloat
  | string a, string b => a == b
  | time a, time b => a == b
  | nilPtr t, nilPtr t' => t == t'
  | ptr t a, ptr t' b => t == t' && same a b
  | nilSlice t, nilSlice t' => t == t'
  | slice t a, slice t' b => t == t' && sameAll a b
  | array t a, array t' b => t == t' && sameAll a b
  | nilMap k t, nilMap k' t' => k == k' && t == t'
  | map k t a, map k' t' b => k == k' && t == t' && sameEntries a b
  | record fs a, record fs' b => Ty.record fs == Ty.record fs' && sameAll a b
  | named n a, named n' b => n == n' && same a b
  | _, _ => false

/-- Whether two lists hold the same values. -/
def sameAll : List Value → List Value → Bool
  | [], [] => true
  | a :: as, b :: bs => same a b && sameAll as bs
  | _, _ => false

/-- Whether two maps hold the same entries. -/
def sameEntries : List (MapKey × Value) → List (MapKey × Value) → Bool
  | [], [] => true
  | (k, a) :: as, (k', b) :: bs => k == k' && same a b && sameEntries as bs
  | _, _ => false

end

end Value

/-! ### Zero values -/

mutual

/-- The zero value of a type. -/
def Ty.zero : Ty → Value
  | .any => .nil
  | .bool => .bool false
  | .string => .string []
  | .int k => .int k 0
  | .float s => .float s ⟨0⟩
  | .time => .time .zero
  | .ptr t => .nilPtr t
  | .slice t => .nilSlice t
  | .array n t => .array t (List.replicate n t.zero)
  | .map k t => .nilMap k t
  | .record fs => .record fs (zeroFields fs)
  | .named n t =>
    -- nil has no type, a declared one neither
    match t.zero with
    | .nil => .nil
    | v => .named n v

/-- The zero values of the fields of a record. -/
def Ty.zeroFields : List (Field Ty) → List Value
  | [] => []
  | ⟨_, t, _, _, _⟩ :: fs => t.zero :: zeroFields fs

end

theorem Ty.zero_named {t : Ty} (n : TypeName) (h : t.zero ≠ .nil) :
    (Ty.named n t).zero = .named n t.zero := by
  rw [zero]
  split
  · exact absurd ‹_› h
  · rfl

end QueryTree
