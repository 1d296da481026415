import Mathlib.Algebra.Order.Ring.Int
import Mathlib.Data.Int.ModEq
import QueryTree.Proofs.Arithmetic
import QueryTree.Proofs.Hazards

/-!
# Integers that are evaluated

An operator on two integers first takes each of them into a signed word of 64 bits, computes there,
and cuts the result to the type of the left operand. Sums, differences and products do not notice:
each step keeps the residue modulo two to the width of that type, so the result is the exact one
reduced to the type.

Order, quotients, remainders and shifts are not determined by residues. They are computed from the
words, and a word is the integer itself only below half of its range: an unsigned integer from
`2 ^ 63` on is taken for a negative one.

## Main definitions

* `IntKind.Holds`: the numbers of a kind
* `Value.Reduces`: the value of a type that is congruent to a number
* `Expr.Combines`: sums, differences, products and opposites of integers
* `BinaryOp.compares`: the comparisons of integers
* `KeepsOrder`: two integers that are ordered as their words are

## Main results

* `Value.arith_int`: what an operator computes from two integers
* `Expr.Combines.eval`: a whole tree of sums, differences, products and opposites
* `eval_wraps`: one sum, difference, product or opposite
* `eval_order_iff`: comparisons, quotients, remainders and shifts
* `exists_disordered`: an unsigned integer that is not greater than one
-/

namespace QueryTree

/-! ### Kinds and words -/

namespace IntKind

variable {k : IntKind} {n : Int}

/-- The number is one of the kind. -/
def Holds (k : IntKind) (n : Int) : Prop :=
  if k.signed then -2 ^ (k.width - 1) ≤ n ∧ n < 2 ^ (k.width - 1) else 0 ≤ n ∧ n < 2 ^ k.width

instance : Decidable (k.Holds n) := inferInstanceAs (Decidable (ite _ _ _))

/-- A number of any kind lies between the least signed and the greatest unsigned word. -/
theorem Holds.bounds (h : k.Holds n) : -2 ^ 63 ≤ n ∧ n < 2 ^ 64 := by
  cases k <;> simp only [Holds, signed, width, if_true, if_false, reduceCtorEq] at h <;> omega

theorem holds_wrap (k : IntKind) (n : Int) : k.Holds (k.wrap n) := by
  cases k <;> simp only [Holds, wrap, signed, width, if_true, if_false, reduceCtorEq, Nat.pow_eq,
    Nat.reducePow, Int.bmod] <;> omega

theorem wrap_modEq (k : IntKind) (n : Int) : k.wrap n ≡ n [ZMOD 2 ^ k.width] := by
  rw [wrap]
  split
  · exact Int.bmod_emod
  · exact Int.mod_modEq _ _

theorem width_le (k : IntKind) : k.width ≤ 64 := by cases k <;> decide

end IntKind

namespace Value

variable {l r v : Value} {k k' : IntKind} {a b n m : Int} {op : BinaryOp}

theorem word_modEq (n : Int) : word n ≡ n [ZMOD 2 ^ 64] := Int.bmod_emod

theorem word_modEq_iff (n m : Int) : word n ≡ m [ZMOD 2 ^ 64] ↔ n ≡ m [ZMOD 2 ^ 64] :=
  ⟨(word_modEq n).symm.trans, (word_modEq n).trans⟩

/-- A word has the residues of the integer for every width. -/
theorem word_modEq_of_le {w : Nat} (hw : w ≤ 64) (n : Int) : word n ≡ n [ZMOD 2 ^ w] :=
  (word_modEq n).of_dvd (pow_dvd_pow 2 hw)

/-- The word of a number of any kind: the number itself below half of the range of words, and a
negative number from there on. -/
theorem word_of_holds (h : k.Holds n) : word n = if n < 2 ^ 63 then n else n - 2 ^ 64 := by
  have := h.bounds
  rw [word, Nat.pow_eq]
  simp only [Nat.reducePow, Int.bmod]
  split <;> omega

theorem word_of_lt (h : k.Holds n) (hn : n < 2 ^ 63) : word n = n := by
  rw [word_of_holds h, if_pos hn]

/-! ### Integer values -/

/-- The value has the type of the integer `like`, and is the number of this type that is congruent
to `n`. -/
def Reduces (v like : Value) (n : Int) : Prop :=
  v.type? = like.type? ∧ ∃ k a m, like.under = int k a ∧ v.under = int k m ∧ k.Holds m ∧
    m ≡ n [ZMOD 2 ^ k.width]

theorem type?_intLike (like : Value) (n : Int) : (intLike like n).type? = like.type? := by
  fun_induction intLike like n with
  | case1 name v ih => rw [type?, type?, ih]
  | _ => rfl

theorem under_intLike (h : l.under = int k a) (n : Int) :
    (intLike l n).under = int k (k.wrap n) := by
  fun_induction intLike l n with
  | case1 name v ih => exact ih h
  | case2 k' m =>
    cases h
    rfl
  | case3 v hnamed hint =>
    cases v with
    | named name v => exact absurd rfl (hnamed name v)
    | int k' m => exact absurd rfl (hint k' m)
    | _ => cases h

theorem intLike_intLike (like : Value) (n m : Int) :
    intLike (intLike like n) m = intLike like m := by
  fun_induction intLike like n with
  | case1 name v ih => exact congrArg (named name) ih
  | case2 k a => rfl
  | case3 v hnamed hint => rfl

/-- A result is cut to the type of the left operand. -/
theorem reduces_intLike (h : l.under = int k a) (hm : m ≡ n [ZMOD 2 ^ k.width]) :
    (intLike l m).Reduces l n :=
  ⟨type?_intLike l m, k, a, k.wrap m, h, under_intLike h m, k.holds_wrap m,
    (k.wrap_modEq m).trans hm⟩

theorem numeric?_int (h : l.under = int k a) : l.numeric? = some (.int a) := by rw [numeric?, h]

theorem text?_int (h : l.under = int k a) : l.text? = none := by rw [text?, h]

/-- The zero of an integer type. -/
theorem zero_int (h : l.under = int k a) :
    (l.type?.map Ty.zero).getD (.int .int 0) = intLike l 0 := by
  have htype : ∃ t, l.type? = some t := by
    have hunder := type?_under l
    rw [h] at hunder
    cases ht : l.type? with
    | none => rw [ht] at hunder; cases hunder
    | some t => exact ⟨t, rfl⟩
  obtain ⟨t, ht⟩ := htype
  rw [ht]
  fun_induction intLike l 0 generalizing t with
  | case1 name v ih =>
    obtain ⟨u, hu, rfl⟩ := Option.map_eq_some_iff.mp ht
    have hzero : u.zero = intLike v 0 := ih h u hu
    have hne : u.zero ≠ .nil := fun hnil => by
      have hunder : (intLike v 0).under = int k (k.wrap 0) := under_intLike h 0
      rw [← hzero, hnil] at hunder
      cases hunder
    exact (Ty.zero_named name hne).trans (congrArg (named name) hzero)
  | case2 k' m =>
    cases ht
    cases k' <;> rfl
  | case3 v hnamed hint =>
    cases v with
    | named name v => exact absurd rfl (hnamed name v)
    | int k' m => exact absurd rfl (hint k' m)
    | _ => cases h

/-- What an operator computes from two integers: the operation on their words, cut to the type of
the left one. -/
theorem arith_int (hl : l.under = int k a) (hr : r.under = int k' b)
    (hop : op ∉ [BinaryOp.coalesce, .arrayIndex, .power]) :
    arith op l r = match intOp op (word a) (word b) with
      | .ok n => .ok (intLike l (word n))
      | .error e => .fail e := by
  simp only [List.mem_cons, List.not_mem_nil, or_false, not_or] at hop
  rw [arith, if_neg hop.1, if_neg hop.2.1, numeric?_int hl, numeric?_int hr]
  · cases op with
    | power => exact absurd rfl hop.2.2
    | _ => rfl
  · intro s t _ hs
    rw [text?_int hl] at hs
    cases hs

theorem Reduces.under (hv : v.Reduces l n) (h : l.under = int k a) :
    ∃ m, v.under = int k m ∧ m ≡ n [ZMOD 2 ^ k.width] := by
  obtain ⟨-, k₁, a₁, m, hlike, hunder, -, hm⟩ := hv
  rw [h] at hlike
  cases hlike
  exact ⟨m, hunder, hm⟩

/-- A result is the exact one just when it is congruent to it before it is cut. -/
theorem reduces_intLike_iff (h : l.under = int k a) :
    (intLike l m).Reduces l n ↔ m ≡ n [ZMOD 2 ^ k.width] := by
  refine ⟨?_, reduces_intLike h⟩
  rintro ⟨-, k₁, a₁, m₁, hlike, hunder, -, hm⟩
  rw [h] at hlike
  cases hlike
  rw [under_intLike h] at hunder
  cases hunder
  exact (k.wrap_modEq m).symm.trans hm

end Value

open Value

/-! ### Sums, differences and products -/

/-- The operators on integers that keep residues. -/
def BinaryOp.ring? : BinaryOp → Option (Int → Int → Int)
  | .add => some (· + ·)
  | .subtract => some (· - ·)
  | .multiply => some (· * ·)
  | _ => none

section Ring

variable {op : BinaryOp} {f : Int → Int → Int} {l r : Value} {k k' : IntKind} {a b a' b' n : Int}

theorem ring?_modEq (hop : op.ring? = some f) (ha : a ≡ a' [ZMOD n]) (hb : b ≡ b' [ZMOD n]) :
    f a b ≡ f a' b' [ZMOD n] := by
  cases op <;> cases hop
  · exact ha.add hb
  · exact ha.sub hb
  · exact ha.mul hb

theorem intOp_ring (hop : op.ring? = some f) (a b : Int) : intOp op a b = .ok (f a b) := by
  cases op <;> cases hop <;> rfl

/-- The three operators give the exact result reduced to the type of the left operand: taking the
operands into words and the result out of one keeps the residue. -/
theorem arith_ring (hop : op.ring? = some f) (hl : l.under = .int k a) (hr : r.under = .int k' b) :
    ∃ v, arith op l r = .ok v ∧ v.Reduces l (f a b) := by
  have hmem : op ∉ [BinaryOp.coalesce, .arrayIndex, .power] := by
    cases op <;> first | cases hop; done | decide
  refine ⟨intLike l (word (f (word a) (word b))), ?_, reduces_intLike hl ?_⟩
  · rw [arith_int hl hr hmem, intOp_ring hop]
  · exact (word_modEq_of_le k.width_le _).trans
      (ring?_modEq hop (word_modEq_of_le k.width_le a) (word_modEq_of_le k.width_le b))

/-- The opposite of an integer is its difference from the zero of its type. -/
theorem unaryOp_negate (hl : l.under = .int k a) (t : Option Ty) :
    ∃ v, unaryOp .negate l t = .ok v ∧ v.Reduces l (-a) := by
  have hzero : (intLike l 0).under = .int k 0 := by
    rw [under_intLike hl]
    cases k <;> rfl
  refine ⟨intLike l (word (word 0 - word a)), ?_, reduces_intLike hl ?_⟩
  · rw [unaryOp, zero_int hl, arith_int hzero hl (by decide)]
    exact congrArg Except.ok (intLike_intLike l 0 _)
  · calc word (word 0 - word a) ≡ word 0 - word a [ZMOD 2 ^ k.width] :=
        word_modEq_of_le k.width_le _
      _ ≡ 0 - a [ZMOD 2 ^ k.width] :=
        (word_modEq_of_le k.width_le 0).sub (word_modEq_of_le k.width_le a)
      _ = -a := zero_sub a

end Ring

namespace Expr

variable {pre : Prelude} {x y : Expr} {l r : Value} {op : BinaryOp} {k k' : IntKind} {a b n : Int}
  {w : Nat}

/-- Both operands of an operator that does not choose between them are evaluated. -/
theorem eval_binary (hx : x.eval pre = .ok l) (hy : y.eval pre = .ok r)
    (hlogical : op.isLogical = false) (hcoalesce : op ≠ .coalesce) :
    (binary op x y).eval pre =
      if op.isComparison then
        match compareWith op l r with
        | .ok b => .ok (.bool b)
        | .error e => .fail e
      else arith op l r := by
  rw [eval, hx]
  cases op.isComparison <;> cases hc : compareWith op l r <;>
    simp only [hlogical, hcoalesce, hy, hc, bind, Except.bind, Bool.false_eq_true, if_false,
      if_true, decide_false, Bool.false_and]

theorem eval_ring {f : Int → Int → Int} (hx : x.eval pre = .ok l) (hy : y.eval pre = .ok r)
    (hop : op.ring? = some f) : (binary op x y).eval pre = arith op l r := by
  have hkind : op.isLogical = false ∧ op ≠ .coalesce ∧ op.isComparison = false := by
    cases op <;> first | cases hop; done | decide
  rw [eval_binary hx hy hkind.1 hkind.2.1, hkind.2.2]
  rfl

/-- Trees of sums, differences, products and opposites of integers that all have at least `w` bits.
The number is what the tree stands for exactly. -/
inductive Combines (w : Nat) : Expr → Int → Prop
  | number {v : Value} {k : IntKind} {n : Int} {t : Option Ty} (hv : v.under = .int k n)
    (hw : w ≤ k.width) : Combines w (const v t) n
  | ring {op : BinaryOp} {f : Int → Int → Int} {x y : Expr} {m n : Int} (hop : op.ring? = some f)
    (hx : Combines w x m) (hy : Combines w y n) : Combines w (binary op x y) (f m n)
  | opposite {x : Expr} {n : Int} {t : Option Ty} (hx : Combines w x n) :
    Combines w (unary .negate x t) (-n)

/-- However deep the tree, its value has the residue of the exact result for every number of bits
that all of its numbers have. -/
theorem Combines.eval (pre : Prelude) (h : Combines w x n) : ∃ v k m, x.eval pre = .ok v ∧
    v.under = .int k m ∧ w ≤ k.width ∧ m ≡ n [ZMOD 2 ^ w] := by
  induction h with
  | number hv hw => exact ⟨_, _, _, by rw [Expr.eval], hv, hw, rfl⟩
  | @ring op f x y m n hop _ _ ihx ihy =>
    obtain ⟨l, k, a, hx, hl, hw, ha⟩ := ihx
    obtain ⟨r, k', b, hy, hr, -, hb⟩ := ihy
    obtain ⟨v, hv, hreduces⟩ := arith_ring hop hl hr
    obtain ⟨c, hc, hmod⟩ := hreduces.under hl
    refine ⟨v, k, c, ?_, hc, hw, (hmod.of_dvd (pow_dvd_pow 2 hw)).trans (ring?_modEq hop ha hb)⟩
    rw [eval_ring hx hy hop, hv]
  | @opposite x n t _ ih =>
    obtain ⟨l, k, a, hx, hl, hw, ha⟩ := ih
    obtain ⟨v, hv, hreduces⟩ := unaryOp_negate hl t
    obtain ⟨c, hc, hmod⟩ := hreduces.under hl
    refine ⟨v, k, c, ?_, hc, hw, (hmod.of_dvd (pow_dvd_pow 2 hw)).trans ha.neg⟩
    rw [Expr.eval, hx]
    exact hv

end Expr

open QueryTree.Expr

variable {l r : Value} {k k' : IntKind} {a b : Int}

/-- Integer constants of any two types: a sum, a difference and a product evaluate to the exact
result reduced to the type of the left one, and an opposite to the exact one reduced to its own
type. -/
theorem eval_wraps (pre : Prelude) (s t : Option Ty) (hl : l.under = .int k a)
    (hr : r.under = .int k' b) :
    (∀ op f, op.ring? = some f → ∃ v, (binary op (.const l s) (.const r t)).eval pre = .ok v ∧
      v.Reduces l (f a b)) ∧
    ∃ v, (negateOf (.const l s)).eval pre = .ok v ∧ v.Reduces l (-a) := by
  refine ⟨fun op f hop => ?_, ?_⟩
  · obtain ⟨v, hv, hreduces⟩ := arith_ring hop hl hr
    exact ⟨v, by rw [eval_ring (by rw [Expr.eval]) (by rw [Expr.eval]) hop, hv], hreduces⟩
  · obtain ⟨v, hv, hreduces⟩ := unaryOp_negate hl none
    refine ⟨v, ?_, hreduces⟩
    rw [negateOf, Expr.eval, Expr.eval]
    exact hv

/-- The greatest unsigned word and a negative number of eight bits. -/
theorem eval_wraps_greatest :
    let l : Value := .int .uint64 18446744073709551615
    let r : Value := .int .int8 (-128)
    l.under = .int .uint64 18446744073709551615 ∧ r.under = .int .int8 (-128) ∧
    (∃ v, (binary .multiply (value l) (value r)).eval Sample.world = .ok v ∧
      v.Reduces l (18446744073709551615 * -128)) ∧
    ∃ v, (negateOf (value l)).eval Sample.world = .ok v ∧ v.Reduces l (-18446744073709551615) :=
  have h := eval_wraps Sample.world none none (l := .int .uint64 18446744073709551615)
    (r := .int .int8 (-128)) rfl rfl
  ⟨rfl, rfl, h.1 .multiply _ rfl, h.2⟩

/-! ### Order, quotients and shifts -/

/-- What a comparison says of two integers. -/
def BinaryOp.compares (op : BinaryOp) (a b : Int) : Bool :=
  match op with
  | .equal => a = b
  | .notEqual => a ≠ b
  | .greaterThan => a > b
  | .greaterThanOrEqual => a ≥ b
  | .lessThan => a < b
  | .lessThanOrEqual => a ≤ b
  | _ => false

/-- Two integers whose words are ordered as they are: both lie below half of the range of words or
both above, or the one above remains the greater when it is taken for a negative number. -/
def KeepsOrder (a b : Int) : Prop :=
  (2 ^ 63 ≤ a ↔ 2 ^ 63 ≤ b) ∨ (2 ^ 63 ≤ a ∧ b < a - 2 ^ 64) ∨ (2 ^ 63 ≤ b ∧ a < b - 2 ^ 64)

theorem keepsOrder_iff (ha : k.Holds a) (hb : k'.Holds b) :
    KeepsOrder a b ↔ (word a < word b ↔ a < b) ∧ (word b < word a ↔ b < a) := by
  have := ha.bounds
  have := hb.bounds
  rw [KeepsOrder, word_of_holds ha, word_of_holds hb]
  split <;> split <;> omega

theorem forall_compares_iff {x y : Int} :
    (∀ op, BinaryOp.isComparison op = true → op.compares x y = op.compares a b) ↔
      (x < y ↔ a < b) ∧ (y < x ↔ b < a) := by
  constructor
  · intro h
    have hlt := h .lessThan rfl
    have hgt := h .greaterThan rfl
    simp only [BinaryOp.compares, decide_eq_decide] at hlt hgt
    exact ⟨hlt, hgt⟩
  · intro h op hop
    cases op <;> cases hop <;> simp only [BinaryOp.compares, decide_eq_decide] <;> omega

theorem holdsFor_sign {op : BinaryOp} (hop : op.isComparison = true) (x y : Int) :
    holdsFor op (if x < y then -1 else if y < x then 1 else 0) = op.compares x y := by
  rcases lt_trichotomy x y with h | rfl | h
  · rw [if_pos h]
    cases op <;> cases hop <;> simp [holdsFor, BinaryOp.compares] <;> omega
  · rw [if_neg (lt_irrefl x), if_neg (lt_irrefl x)]
    cases op <;> cases hop <;> simp [holdsFor, BinaryOp.compares]
  · rw [if_neg (by omega), if_pos h]
    cases op <;> cases hop <;> simp [holdsFor, BinaryOp.compares] <;> omega

theorem compareWith_int {op : BinaryOp} (hop : op.isComparison = true) (hl : l.under = .int k a)
    (hr : r.under = .int k' b) : compareWith op l r = .ok (op.compares (word a) (word b)) := by
  rw [compareWith, numeric?_int hl, numeric?_int hr]
  exact congrArg Except.ok (holdsFor_sign hop _ _)

theorem width_of_le (ha : k.Holds a) (h : 2 ^ 63 ≤ a) : k.width = 64 := by
  cases k <;> first | rfl | exact absurd ha (by
    simp only [IntKind.Holds, IntKind.signed, IntKind.width, if_true, if_false, reduceCtorEq]
    omega)

theorem word_ne_zero (hb : k.Holds b) (h : b ≠ 0) : word b ≠ 0 := by
  have := hb.bounds
  rw [word_of_holds hb]
  split <;> omega

/-- The quotient and the remainder are those of the words. -/
theorem arith_quotient (hl : l.under = .int k a) (hr : r.under = .int k' b) (hb : k'.Holds b)
    (h : b ≠ 0) : ∃ q m, arith .divide l r = .ok q ∧ arith .modulo l r = .ok m ∧
      q.Reduces l ((word a).tdiv (word b)) ∧ m.Reduces l ((word a).tmod (word b)) := by
  have hword := word_ne_zero hb h
  refine ⟨intLike l (word ((word a).tdiv (word b))), intLike l (word ((word a).tmod (word b))),
    ?_, ?_, reduces_intLike hl (word_modEq_of_le k.width_le _),
    reduces_intLike hl (word_modEq_of_le k.width_le _)⟩
  · rw [arith_int hl hr (by decide)]
    simp only [intOp, if_neg hword]
  · rw [arith_int hl hr (by decide)]
    simp only [intOp, if_neg hword]

/-- Two integers a whole range of words apart have quotients by a power of two of the same residue
only if they are not divided at all. -/
theorem quotient_modEq_iff {c : Nat} (a : Int) (hc : c ≤ 64) :
    (a - 2 ^ 64) / 2 ^ c ≡ a / 2 ^ c [ZMOD 2 ^ 64] ↔ c = 0 := by
  have hpow : (2 : Int) ^ 64 = 2 ^ (64 - c) * 2 ^ c := by rw [← pow_add, Nat.sub_add_cancel hc]
  have hdiv : (a - 2 ^ 64) / 2 ^ c = a / 2 ^ c - 2 ^ (64 - c) := by
    rw [hpow, Int.sub_mul_ediv_right _ _ (pow_ne_zero c two_ne_zero)]
  rw [hdiv, Int.modEq_iff_dvd, sub_sub_cancel]
  constructor
  · intro h
    have hle := Int.le_of_dvd (pow_pos two_pos _) h
    by_contra hne
    exact absurd hle (not_le.mpr (pow_lt_pow_right₀ one_lt_two (by omega)))
  · rintro rfl
    exact dvd_refl _

/-- A shift by less than a word is the floor of the quotient, unless an integer in the upper half of
the range of words is shifted by something. -/
theorem arith_shift (hl : l.under = .int k a) (hr : r.under = .int k' b) (ha : k.Holds a)
    (hb : 0 ≤ b) (hb' : b ≤ 63) : ∃ v, arith .rightShift l r = .ok v ∧
      (v.Reduces l (a / 2 ^ b.toNat) ↔ a < 2 ^ 63 ∨ b = 0) := by
  have hword : word b = b := by
    rw [word, Nat.pow_eq]
    simp only [Nat.reducePow, Int.bmod]
    split <;> omega
  refine ⟨intLike l (word (word a / 2 ^ b.toNat)), ?_, ?_⟩
  · rw [arith_int hl hr (by decide), hword]
    simp only [intOp, Bool.and_eq_true, decide_eq_true_eq]
    rw [if_pos ⟨hb, by omega⟩]
    simp only [Nat.pow_eq, Nat.cast_pow, Nat.cast_ofNat]
  · rw [reduces_intLike_iff hl]
    by_cases hlow : a < 2 ^ 63
    · rw [word_of_lt ha hlow]
      exact ⟨fun _ => .inl hlow, fun _ => word_modEq_of_le k.width_le _⟩
    · obtain ⟨c, rfl⟩ := Int.eq_ofNat_of_zero_le hb
      rw [word_of_holds ha, if_neg hlow, width_of_le ha (not_lt.mp hlow), Int.toNat_natCast]
      exact (word_modEq_iff _ _).trans ((quotient_modEq_iff a (by omega)).trans
        ⟨fun h => .inr (by omega), fun h => by omega⟩)

/-- Comparisons of two integer constants are those of the integers just when their words are ordered
as they are. Quotients and remainders are those of the words, which are the integers themselves
below half of the range of words. A shift to the right by less than a word is the floor of the
quotient just when the integer lies below that half or is not shifted at all. -/
theorem eval_order_iff (pre : Prelude) (s t : Option Ty) (hl : l.under = .int k a)
    (hr : r.under = .int k' b) (ha : k.Holds a) (hb : k'.Holds b) :
    ((∀ op, BinaryOp.isComparison op = true →
      (binary op (.const l s) (.const r t)).eval pre = .ok (.bool (op.compares a b))) ↔
        KeepsOrder a b) ∧
    (b ≠ 0 → ∃ q m, (binary .divide (.const l s) (.const r t)).eval pre = .ok q ∧
      (binary .modulo (.const l s) (.const r t)).eval pre = .ok m ∧
      q.Reduces l ((word a).tdiv (word b)) ∧ m.Reduces l ((word a).tmod (word b)) ∧
      (a < 2 ^ 63 → b < 2 ^ 63 → q.Reduces l (a.tdiv b) ∧ m.Reduces l (a.tmod b))) ∧
    (0 ≤ b → b ≤ 63 → ∃ v, (binary .rightShift (.const l s) (.const r t)).eval pre = .ok v ∧
      (v.Reduces l (a / 2 ^ b.toNat) ↔ a < 2 ^ 63 ∨ b = 0)) := by
  have heval (op : BinaryOp) := @eval_binary pre (.const l s) (.const r t) l r op
    (by rw [Expr.eval]) (by rw [Expr.eval])
  refine ⟨?_, fun h => ?_, fun hb₀ hb₁ => ?_⟩
  · rw [keepsOrder_iff ha hb, ← forall_compares_iff]
    refine forall₂_congr fun op hop => ?_
    have hkind : op.isLogical = false ∧ op ≠ .coalesce := by
      cases op <;> first | cases hop; done | decide
    rw [heval op hkind.1 hkind.2, if_pos hop, compareWith_int hop hl hr]
    simp only [Except.ok.injEq, Value.bool.injEq]
  · obtain ⟨q, m, hq, hm, hq', hm'⟩ := arith_quotient hl hr hb h
    refine ⟨q, m, (heval .divide rfl (by decide)).trans hq,
      (heval .modulo rfl (by decide)).trans hm, hq', hm', fun hlow hlow' => ?_⟩
    rw [word_of_lt ha hlow, word_of_lt hb hlow'] at hq' hm'
    exact ⟨hq', hm'⟩
  · obtain ⟨v, hv, hiff⟩ := arith_shift hl hr ha hb₀ hb₁
    exact ⟨v, (heval .rightShift rfl (by decide)).trans hv, hiff⟩

/-- A negative number of sixteen bits and an unsigned one: both are their words, so that order,
quotient, remainder and shift are exact. -/
theorem eval_order_iff_small :
    let l : Value := .int .int16 (-7)
    let r : Value := .int .uint64 2
    l.under = .int .int16 (-7) ∧ r.under = .int .uint64 2 ∧ IntKind.int16.Holds (-7) ∧
    IntKind.uint64.Holds 2 ∧ KeepsOrder (-7) 2 ∧
    (binary .lessThan (value l) (value r)).eval Sample.world = .ok (.bool true) ∧
    (∃ q m, (binary .divide (value l) (value r)).eval Sample.world = .ok q ∧
      (binary .modulo (value l) (value r)).eval Sample.world = .ok m ∧
      q.Reduces l (-3) ∧ m.Reduces l (-1)) ∧
    ∃ v, (binary .rightShift (value l) (value r)).eval Sample.world = .ok v ∧ v.Reduces l (-2) := by
  have h := eval_order_iff Sample.world none none (l := .int .int16 (-7)) (r := .int .uint64 2)
    rfl rfl (by decide) (by decide)
  have hkeeps : KeepsOrder (-7) 2 := .inl (by decide)
  obtain ⟨q, m, hq, hm, -, -, hlow⟩ := h.2.1 (by decide)
  obtain ⟨v, hv, hiff⟩ := h.2.2 (by decide) (by decide)
  exact ⟨rfl, rfl, by decide, by decide, hkeeps, h.1.mpr hkeeps .lessThan rfl,
    ⟨q, m, hq, hm, hlow (by decide) (by decide)⟩, v, hv, hiff.mpr (.inl (by decide))⟩

/-- The unsigned integer in the middle of the range is taken for the least signed one: it is not
greater than one, its half is not a quarter of the range, and the greatest unsigned integer equals
minus one. -/
theorem exists_disordered :
    (binary .greaterThan (value (.int .uint64 9223372036854775808)) (value (.int .int 1))).eval
      Sample.world = .ok (.bool false) ∧
    (binary .equal (value (.int .uint64 18446744073709551615)) (value (.int .int (-1)))).eval
      Sample.world = .ok (.bool true) ∧
    (binary .divide (value (.int .uint64 9223372036854775808)) (value (.int .int 2))).eval
      Sample.world = .ok (.int .uint64 13835058055282163712) ∧
    (binary .rightShift (value (.int .uint64 9223372036854775808)) (value (.int .int 1))).eval
      Sample.world = .ok (.int .uint64 13835058055282163712) := by
  refine ⟨by rfl, by rfl, by rfl, by rfl⟩

end QueryTree
