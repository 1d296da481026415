import QueryTree.Proofs.Lexicon
import QueryTree.Proofs.Yield
import QueryTree.Sql.Negation

/-!
# The grammar of emitted texts

Every text that an expression emits is a value, a condition, or a list of items. The two predicates
below are the grammar of values and conditions, and `Emit.Emits` says of an emitter that it emits
nothing else.

The two numbers of `ValueText st L n m t` count the parameters that are bound before and after `t`
is emitted. A mark raises the count by one and shows the new count; a text put together from two
parts emits the left part first. So the grammar records that marks stand in the order in which
their values are bound, although parts of a text are emitted, kept, and joined later.

Negation is a rule of its own: `Sql.negate` rewrites a finished text, and what it makes of a
condition depends on the names in it.

## Main definitions

* `ValueText`, `ConditionText`
* `Emit.Emits`: what an emitter emits, whatever the state
-/

namespace QueryTree

/-- The constants that are written as words. -/
def valueWords : List Text := ["NULL", "TRUE", "0", "1", "*", "'%'", "''"]

/-- The functions, and parentheses alone. -/
def functionNames : List Text :=
  ["", "LEN", "LENGTH", "CONCAT", "UPPER", "LOWER", "LTRIM", "RTRIM", "TRIM", "MAX", "MIN", "AVG",
    "SUM", "COUNT"]

/-- What stands between two values of one value. -/
def valueSeparators : List Text := [" + ", " - ", " * ", " / ", " % ", " || ", ","]

/-- What stands between the two sides of a comparison. -/
def comparisonTokens : List Text :=
  [" = ", " <> ", " > ", " >= ", " < ", " <= ", " IS ", " IS NOT ", " LIKE ", " NOT LIKE ",
    " IN ", " NOT IN "]

/-- What stands between two conditions. -/
def logicalTokens : List Text := [" AND ", " OR "]

/-- The text is an item of a raw list of columns. -/
def Raw.IsItem (t : Text) : Prop :=
  ∃ list items, Raw.items list false = .ok items ∧ t ∈ items

mutual

/-- The texts of values. -/
inductive ValueText (st : Settings) (L : Lexicon) : Nat → Nat → Text → Prop
  | word {n : Nat} {t : Text} (h : t ∈ valueWords) : ValueText st L n n t
  | mark {n : Nat} : ValueText st L n (n + 1) (st.profile.placeholder (n + 1))
  | column {n : Nat} {a c : Text} (ha : L.Alias a) (hc : L.Name c) :
    ValueText st L n n (st.ident a ++ "." ++ st.ident c)
  | bare {n : Nat} {c : Text} (hc : L.Name c) : ValueText st L n n (st.ident c)
  | raw {n : Nat} {f t : Text} (hf : f ∈ functionNames) (hraw : Raw.IsItem t) (ht : L.Raw t) :
    ValueText st L n n (f ++ "(" ++ t ++ ")")
  | call {n m : Nat} {f t : Text} (hf : f ∈ functionNames) (h : ValueText st L n m t) :
    ValueText st L n m (f ++ "(" ++ t ++ ")")
  | op {n k m : Nat} {a sep b : Text} (hs : sep ∈ valueSeparators) (ha : ValueText st L n k a)
    (hb : ValueText st L k m b) : ValueText st L n m (a ++ sep ++ b)
  | minus {n m : Nat} {t : Text} (h : ValueText st L n m t) : ValueText st L n m ("-" ++ t)
  | choice {n i j m : Nat} {c a b : Text} (hc : ConditionText st L n i c)
    (ha : ValueText st L i j a) (hb : ValueText st L j m b) :
    ValueText st L n m ("CASE WHEN " ++ c ++ " THEN " ++ a ++ " ELSE " ++ b ++ " END")
  | counted {n m : Nat} {c : Text} (hc : ConditionText st L n m c) :
    ValueText st L n m ("CASE WHEN " ++ c ++ " THEN 1 END")

/-- The texts of conditions. -/
inductive ConditionText (st : Settings) (L : Lexicon) : Nat → Nat → Text → Prop
  | compare {n k m : Nat} {a token b : Text} (ht : token ∈ comparisonTokens)
    (ha : ValueText st L n k a) (hb : ValueText st L k m b) :
    ConditionText st L n m (a ++ token ++ b)
  | group {n m : Nat} {c : Text} (hc : ConditionText st L n m c) :
    ConditionText st L n m ("(" ++ c ++ ")")
  | join {n k m : Nat} {a token b : Text} (ht : token ∈ logicalTokens)
    (ha : ConditionText st L n k a) (hb : ConditionText st L k m b) :
    ConditionText st L n m (a ++ token ++ b)
  | negate {n m : Nat} {c : Text} (hc : ConditionText st L n m c) :
    ConditionText st L n m (Sql.negate c)

end

/-! ### Emitters -/

namespace Emit

variable {α β : Type} {st : Settings} {L : Lexicon}

/-- From every state whose aliases are permitted, the emitter leads to such a state, and what it
returns satisfies `Q` together with the numbers of bound values before and after. -/
def Emits (L : Lexicon) (Q : Nat → Nat → α → Prop) (m : Emit α) : Prop :=
  ∀ s a s', s.aliases.Within L → Yields m s a s' →
    s'.aliases.Within L ∧ Q s.params.length s'.params.length a

theorem Emits.mono {Q R : Nat → Nat → α → Prop} {m : Emit α} (h : Emits L Q m)
    (hQ : ∀ n k a, Q n k a → R n k a) : Emits L R m := by
  intro s a s' hs hy
  obtain ⟨hs', ha⟩ := h s a s' hs hy
  exact ⟨hs', hQ _ _ _ ha⟩

theorem emits_pure {Q : Nat → Nat → α → Prop} {a : α} (h : ∀ n, Q n n a) :
    Emits L Q (pure a) := by
  intro s b s' hs hy
  obtain ⟨rfl, rfl⟩ := yields_pure.mp hy
  exact ⟨hs, h _⟩

/-- What stops emits anything. -/
theorem emits_of_not_yields {Q : Nat → Nat → α → Prop} {m : Emit α}
    (h : ∀ s a s', ¬ Yields m s a s') : Emits L Q m :=
  fun s a s' _ hy => (h s a s' hy).elim

theorem emits_fail {Q : Nat → Nat → α → Prop} {e : CompileError} : Emits L Q (fail e) :=
  emits_of_not_yields fun _ _ _ => not_yields_fail

theorem emits_fault {Q : Nat → Nat → α → Prop} : Emits L Q fault :=
  emits_of_not_yields fun _ _ _ => not_yields_fault

theorem emits_unsupported {Q : Nat → Nat → α → Prop} {e : Expr} {c : Clause} :
    Emits L Q (unsupported e c) :=
  emits_of_not_yields fun _ _ _ => not_yields_unsupported

/-- Two emitters in a row: what the first returns, and the count it leaves, are known to the
second. -/
theorem Emits.bind {Q : Nat → Nat → α → Prop} {R : Nat → Nat → β → Prop} {m : Emit α}
    {f : α → Emit β} (h : Emits L Q m)
    (hf : ∀ n k a, Q n k a → Emits L (fun k' j b => k' = k → R n j b) (f a)) :
    Emits L R (m >>= f) := by
  intro s b s' hs hy
  obtain ⟨a, s₁, hm, hfa⟩ := yields_bind.mp hy
  obtain ⟨hs₁, hQ⟩ := h s a s₁ hs hm
  obtain ⟨hs', hR⟩ := hf _ _ a hQ s₁ b s' hs₁ hfa
  exact ⟨hs', hR rfl⟩

theorem Emits.enclose {Q R : Nat → Nat → Text → Prop} {m : Emit Text} (h : Emits L Q m)
    {x y : Text} (hR : ∀ n k t, Q n k t → R n k (x ++ t ++ y)) : Emits L R (enclose x m y) := by
  intro s t s' hs hy
  obtain ⟨a, hm, rfl⟩ := yields_enclose.mp hy
  obtain ⟨hs', hQ⟩ := h s a s' hs hm
  exact ⟨hs', hR _ _ _ hQ⟩

theorem Emits.join {P Q R : Nat → Nat → Text → Prop} {l r : Emit Text} (hl : Emits L P l)
    (hr : Emits L Q r) {sep : Text}
    (hR : ∀ n k m a b, P n k a → Q k m b → R n m (a ++ sep ++ b)) :
    Emits L R (join l sep r) := by
  intro s t s' hs hy
  obtain ⟨a, s₁, b, ha, hb, rfl⟩ := yields_join.mp hy
  obtain ⟨hs₁, hP⟩ := hl s a s₁ hs ha
  obtain ⟨hs', hQ⟩ := hr s₁ b s' hs₁ hb
  exact ⟨hs', hR _ _ _ _ _ hP hQ⟩

/-- Emitters one after the other, of texts that can be appended. -/
theorem emits_append {Q : Nat → Nat → Text → Prop} (hnil : ∀ n, Q n n [])
    (happend : ∀ {n k m a b}, Q n k a → Q k m b → Q n m (a ++ b)) {ms : List (Emit Text)}
    (h : ∀ x ∈ ms, Emits L Q x) : Emits L Q (concat ms) := by
  induction ms with
  | nil => exact emits_pure hnil
  | cons x ms ih =>
    refine (h x (by simp)).join (ih fun x hx => h x (by simp [hx])) fun n k j a b ha hb => ?_
    simpa using happend ha hb

end Emit

end QueryTree
