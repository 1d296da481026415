import QueryTree.Text.Basic

/-!
# Types of values

The types that rows, constants and expressions have: scalars, times, pointers, slices, arrays,
maps, records and named types. Types are compared by structure, and a named type by its name and
what it stands for; a named type may also name the table its rows live in.

## Main definitions

* `IntKind`: the ten integer types
* `Ty`, `Field`, `TypeName`
* `Ty.under`, `Ty.indirect`: the type behind a name, and behind pointers
* `DecidableEq Ty`
-/

namespace QueryTree

/-- The integer types, by sign and width; `int` and `uint` have 64 bits. -/
inductive IntKind where
  | int | int8 | int16 | int32 | int64
  | uint | uint8 | uint16 | uint32 | uint64
  deriving DecidableEq, Repr

namespace IntKind

/-- Whether the kind has negative numbers. -/
def signed : IntKind → Bool
  | int | int8 | int16 | int32 | int64 => true
  | uint | uint8 | uint16 | uint32 | uint64 => false

/-- The number of bits. -/
def width : IntKind → Nat
  | int8 | uint8 => 8
  | int16 | uint16 => 16
  | int32 | uint32 => 32
  | int | int64 | uint | uint64 => 64

/-- The number of the kind that is congruent to `n` modulo two to the width. -/
def wrap (k : IntKind) (n : Int) : Int :=
  if k.signed then n.bmod (Nat.pow 2 k.width) else n % (Nat.pow 2 k.width : Nat)

/-- The name of the kind. -/
def name : IntKind → String
  | int => "int" | int8 => "int8" | int16 => "int16" | int32 => "int32" | int64 => "int64"
  | uint => "uint" | uint8 => "uint8" | uint16 => "uint16" | uint32 => "uint32"
  | uint64 => "uint64"

/-- Every kind, signed ones first. -/
def all : List IntKind :=
  [int, int8, int16, int32, int64, uint, uint8, uint16, uint32, uint64]

end IntKind

/-- A declared name: the package it is declared in, the name itself and, for record types that
say so, the table their rows live in. -/
structure TypeName where
  package : Text
  name : Text
  table : Option Text
  deriving DecidableEq, Repr

/-- One field of a record type. An embedded field lends its own fields to the record. -/
structure Field (τ : Type) where
  name : Text
  type : τ
  tag : Text
  embedded : Bool
  exported : Bool
  deriving Repr

/-- The type of a value. -/
inductive Ty where
  /-- Values of every type, and nil. -/
  | any
  | bool
  | string
  | int (kind : IntKind)
  /-- Floating point numbers, of single or double precision. -/
  | float (single : Bool)
  | time
  | ptr (elem : Ty)
  | slice (elem : Ty)
  | array (length : Nat) (elem : Ty)
  | map (key elem : Ty)
  | record (fields : List (Field Ty))
  | named (name : TypeName) (under : Ty)
  deriving Inhabited

namespace Ty

/-! ### Equality -/

mutual

/-- Whether two types are the same. -/
def beq : Ty → Ty → Bool
  | any, any => true
  | bool, bool => true
  | string, string => true
  | time, time => true
  | int k, int k' => decide (k = k')
  | float s, float s' => s == s'
  | ptr t, ptr t' => beq t t'
  | slice t, slice t' => beq t t'
  | array n t, array n' t' => n == n' && beq t t'
  | map k t, map k' t' => beq k k' && beq t t'
  | record fs, record fs' => beqFields fs fs'
  | named n t, named n' t' => decide (n = n') && beq t t'
  | _, _ => false

/-- Whether two field lists are the same. -/
def beqFields : List (Field Ty) → List (Field Ty) → Bool
  | [], [] => true
  | ⟨n, t, g, e, x⟩ :: fs, ⟨n', t', g', e', x'⟩ :: fs' =>
    n == n' && beq t t' && g == g' && e == e' && x == x' && beqFields fs fs'
  | _, _ => false

end

mutual

theorem eq_of_beq : ∀ {a b : Ty}, beq a b = true → a = b
  | any, b => by cases b <;> simp [beq]
  | bool, b => by cases b <;> simp [beq]
  | string, b => by cases b <;> simp [beq]
  | time, b => by cases b <;> simp [beq]
  | int _, b => by cases b <;> simp [beq]
  | float _, b => by cases b <;> simp [beq]
  | ptr t, b => by
    cases b <;> simp only [beq, reduceCtorEq, Bool.false_eq_true, false_imp_iff, ptr.injEq]
    exact eq_of_beq
  | slice t, b => by
    cases b <;> simp only [beq, reduceCtorEq, Bool.false_eq_true, false_imp_iff, slice.injEq]
    exact eq_of_beq
  | array n t, b => by
    cases b <;> simp only [beq, reduceCtorEq, Bool.false_eq_true, false_imp_iff, array.injEq,
      Bool.and_eq_true, beq_iff_eq]
    exact fun h => ⟨h.1, eq_of_beq h.2⟩
  | map k t, b => by
    cases b <;> simp only [beq, reduceCtorEq, Bool.false_eq_true, false_imp_iff, map.injEq,
      Bool.and_eq_true]
    exact fun h => ⟨eq_of_beq h.1, eq_of_beq h.2⟩
  | record fs, b => by
    cases b <;> simp only [beq, reduceCtorEq, Bool.false_eq_true, false_imp_iff, record.injEq]
    exact eq_of_beqFields
  | named n t, b => by
    cases b <;> simp only [beq, reduceCtorEq, Bool.false_eq_true, false_imp_iff, named.injEq,
      Bool.and_eq_true, decide_eq_true_eq]
    exact fun h => ⟨h.1, eq_of_beq h.2⟩

theorem eq_of_beqFields : ∀ {a b : List (Field Ty)}, beqFields a b = true → a = b
  | [], b => by cases b <;> simp [beqFields]
  | _ :: _, [] => by simp [beqFields]
  | ⟨n, t, g, e, x⟩ :: fs, ⟨n', t', g', e', x'⟩ :: fs' => by
    simp only [beqFields, Bool.and_eq_true, beq_iff_eq, List.cons.injEq, Field.mk.injEq, and_imp]
    exact fun hn ht hg he hx hs => ⟨⟨hn, eq_of_beq ht, hg, he, hx⟩, eq_of_beqFields hs⟩

end

mutual

theorem beq_refl : ∀ a : Ty, beq a a = true
  | any | bool | string | time => rfl
  | int _ => by simp [beq]
  | float _ => by simp [beq]
  | ptr t => by simp [beq, beq_refl t]
  | slice t => by simp [beq, beq_refl t]
  | array _ t => by simp [beq, beq_refl t]
  | map k t => by simp [beq, beq_refl k, beq_refl t]
  | record fs => by simp [beq, beqFields_refl fs]
  | named _ t => by simp [beq, beq_refl t]

theorem beqFields_refl : ∀ a : List (Field Ty), beqFields a a = true
  | [] => rfl
  | ⟨_, t, _, _, _⟩ :: fs => by simp [beqFields, beq_refl t, beqFields_refl fs]

end

theorem beq_iff_eq {a b : Ty} : beq a b = true ↔ a = b :=
  ⟨eq_of_beq, fun h => h ▸ beq_refl a⟩

instance : DecidableEq Ty := fun _ _ => decidable_of_iff _ beq_iff_eq

/-! ### Views -/

/-- The type without its name. -/
def under : Ty → Ty
  | named _ t => t.under
  | t => t

/-- The type behind all pointers, those of declared pointer types included. -/
def indirect : Ty → Ty
  | ptr t => t.indirect
  | named n t =>
    match t.under with
    | ptr _ => t.indirect
    | _ => named n t
  | t => t

theorem indirect_of_ne_ptr {t : Ty} (h : ∀ e, t.under ≠ ptr e) : t.indirect = t := by
  cases t with
  | ptr e => exact absurd rfl (h e)
  | named n t =>
    rw [indirect]
    split
    · rename_i e he
      exact absurd he (h e)
    · rfl
  | _ => rfl

theorem indirect_indirect (t : Ty) : t.indirect.indirect = t.indirect := by
  fun_induction indirect t with
  | case1 t ih => exact ih
  | case2 n t e h ih => exact ih
  | case3 n t h => exact indirect_of_ne_ptr fun e => h e
  | case4 t hptr hnamed =>
    cases t with
    | ptr t => exact absurd rfl (hptr t)
    | named n t => exact absurd rfl (hnamed n t)
    | _ => rfl

/-- The declared name of a type, if it has one. Scalars and times are declared too, but rows are
never mapped from them. -/
def name? : Ty → Option TypeName
  | named n _ => some n
  | _ => none

/-- Whether the type has a name of its own. -/
def hasName : Ty → Bool
  | any | bool | string | int _ | float _ | time | named .. => true
  | ptr _ | slice _ | array .. | map .. | record _ => false

/-- The fields of a record type. -/
def fields? (t : Ty) : Option (List (Field Ty)) :=
  match t.under with
  | record fs => some fs
  | _ => none

/-- Whether the values are texts. -/
def isString (t : Ty) : Bool := t.indirect.under = string

/-- Whether the values are truth values. -/
def isBool (t : Ty) : Bool := t.indirect.under = bool

/-- Whether the values are pointers. -/
def isPtr (t : Ty) : Bool :=
  match t.under with
  | ptr _ => true
  | _ => false

/-- The type of byte strings. -/
def bytes : Ty := slice (int .uint8)

/-- Whether the values behind pointers are lists of anything but bytes. -/
def isCollection (t : Ty) : Bool :=
  match t.indirect.under with
  | slice e | array _ e => e.under != int .uint8
  | _ => false

end Ty

end QueryTree
