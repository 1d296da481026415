import QueryTree.Proofs.Grammar

/-!
# Kinds of texts

Renderings put texts together in a few ways only: words, marks and names are values, an operator
stands between two values, a function is called with some, and conditions are compared, grouped,
joined and negated. A `TextKinds` is a kind of values and a kind of conditions that are closed under
all of them. What holds of emitted texts is shown once for every `TextKinds`; the grammar is the
least of them, and a property of texts that is kept where texts are put together is another.

A minus sign is the one thing that is written in front of a text without anything in between, so
what it may stand in front of is part of a kind. Arithmetic puts most operands in parentheses there;
what it does not, an expression has to answer for.

## Main definitions

* `TextKinds`: the kinds of values and conditions that renderings keep
* `grammar`: the texts of the grammar
* `Optional`: a text, or nothing where a condition always holds
* `ArgumentText`, `ItemText`, `ListText`: what values make up in lists
-/

namespace QueryTree

/-- The operators that stand between two values. -/
def valueOperators : List Text := [" + ", " - ", " * ", " / ", " % ", " || "]

/-! ### Texts in a row -/

namespace Text

theorem join_cons_cons (sep t u : Text) (us : List Text) :
    join sep (t :: u :: us) = t ++ sep ++ join sep (u :: us) := by
  simp [join, List.intercalate_cons_cons]

theorem join_concat (sep u : Text) {ts : List Text} (hne : ts ≠ []) :
    join sep (ts ++ [u]) = join sep ts ++ sep ++ u := by
  induction ts with
  | nil => exact absurd rfl hne
  | cons t ts ih =>
    cases ts with
    | nil => simp [join]
    | cons x xs =>
      rw [List.cons_append, List.cons_append, join_cons_cons, ← List.cons_append,
        ih (List.cons_ne_nil x xs), join_cons_cons]
      simp only [List.append_assoc]

end Text

section Lists

variable {st : Settings} {L : Lexicon} {Q R : Nat → Nat → Text → Prop} {n k m : Nat} {a b t : Text}

/-- Texts of a kind in a row. -/
inductive Texts (Q : Nat → Nat → Text → Prop) : Nat → Nat → List Text → Prop
  | nil {n : Nat} : Texts Q n n []
  | cons {n k m : Nat} {t : Text} {ts : List Text} (h : Q n k t) (hs : Texts Q k m ts) :
    Texts Q n m (t :: ts)

namespace Texts

theorem single (h : Q n m t) : Texts Q n m [t] := .cons h .nil

theorem append {ts us : List Text} (ht : Texts Q n k ts) (hu : Texts Q k m us) :
    Texts Q n m (ts ++ us) := by
  induction ht with
  | nil => exact hu
  | cons h _ ih => exact .cons h (ih hu)

theorem mono {R : Nat → Nat → Text → Prop} (hQ : ∀ {n m t}, Q n m t → R n m t) {ts : List Text}
    (h : Texts Q n m ts) : Texts R n m ts := by
  induction h with
  | nil => exact .nil
  | cons h _ ih => exact .cons (hQ h) ih

/-- Texts of a kind can be joined when a separator may stand between two of them. -/
theorem join {sep : Text} (hjoin : ∀ {n k m a b}, Q n k a → Q k m b → Q n m (a ++ sep ++ b))
    {ts : List Text} (h : Texts Q n m ts) (hne : ts ≠ []) : Q n m (Text.join sep ts) := by
  induction h with
  | nil => exact absurd rfl hne
  | @cons n k m t ts ht hs ih =>
    cases ts with
    | nil =>
      cases hs
      simpa [Text.join] using ht
    | cons u us =>
      rw [Text.join_cons_cons]
      exact hjoin ht (ih (by simp))

end Texts

/-- A text of a kind, or nothing. -/
def Optional (Q : Nat → Nat → Text → Prop) (n m : Nat) (t : Text) : Prop :=
  (t = [] ∧ n = m) ∨ Q n m t

theorem Optional.of_ne_nil (h : Optional Q n m t) (hne : t ≠ []) : Q n m t :=
  h.resolve_left fun h' => hne h'.1

/-- The texts of the arguments of aggregate functions: values and raw items. -/
def ArgumentText (L : Lexicon) (Q : Nat → Nat → Text → Prop) (n m : Nat) (t : Text) : Prop :=
  Q n m t ∨ n = m ∧ Raw.IsItem t ∧ L.Raw t

/-- The texts of the items of select, group and order lists. -/
inductive ItemText (st : Settings) (L : Lexicon) (Q : Nat → Nat → Text → Prop) :
    Nat → Nat → Text → Prop
  | value {n m : Nat} {t : Text} (h : Q n m t) : ItemText st L Q n m t
  | named {n m : Nat} {t v : Text} (h : Q n m t) (hv : L.Label v) :
    ItemText st L Q n m (t ++ " AS " ++ st.ident v)
  | columns {n : Nat} {a : Text} (ha : L.Alias a) : ItemText st L Q n n (st.ident a ++ ".*")
  | raw {n : Nat} {t : Text} (h : Raw.isField t = true ∨ Raw.isOrder t = true) :
    ItemText st L Q n n t
  | directed {n m : Nat} {t : Text} (h : ItemText st L Q n m t) (d : Direction) :
    ItemText st L Q n m (t ++ " " ++ d.keyword)

/-- The texts of lists, every item followed by a separator. -/
inductive ListText (st : Settings) (L : Lexicon) (Q : Nat → Nat → Text → Prop) :
    Nat → Nat → Text → Prop
  | nil {n : Nat} : ListText st L Q n n []
  | cons {n k m : Nat} {a b : Text} (ha : ItemText st L Q n k a) (hb : ListText st L Q k m b) :
    ListText st L Q n m (a ++ itemSeparator ++ b)

namespace ListText

theorem single (h : ItemText st L Q n m a) : ListText st L Q n m (a ++ itemSeparator) := by
  simpa using cons h nil

theorem append (ha : ListText st L Q n k a) (hb : ListText st L Q k m b) :
    ListText st L Q n m (a ++ b) := by
  induction ha with
  | nil => exact hb
  | cons hi _ ih => simpa using cons hi (ih hb)

end ListText

end Lists

/-- A kind of values and a kind of conditions, and what a minus sign may stand in front of, that are
kept by all that renderings put together. -/
structure TextKinds (st : Settings) (L : Lexicon) where
  Value : Nat → Nat → Text → Prop
  Condition : Nat → Nat → Text → Prop
  /-- What a minus sign may stand in front of. -/
  Unsigned : Text → Prop
  word : ∀ {n t}, t ∈ valueWords → Value n n t
  mark : ∀ {n}, Value n (n + 1) (st.profile.placeholder (n + 1))
  column : ∀ {n a c}, L.Alias a → L.Name c → Value n n (st.ident a ++ "." ++ st.ident c)
  bare : ∀ {n c}, L.Name c → Value n n (st.ident c)
  raw : ∀ {n f t}, f ∈ functionNames → Raw.IsItem t → L.Raw t → Value n n (f ++ "(" ++ t ++ ")")
  apply : ∀ {n m f ts}, f ∈ functionNames → Texts Value n m ts → ts ≠ [] →
    Value n m (f ++ "(" ++ Text.join "," ts ++ ")")
  op : ∀ {n k m a sep b}, sep ∈ valueOperators → Value n k a → Value k m b →
    Value n m (a ++ sep ++ b)
  minus : ∀ {n m t}, Value n m t → Unsigned t → Value n m ("-" ++ t)
  unsigned_parens : ∀ t, Unsigned ("(" ++ t ++ ")")
  choice : ∀ {n i j m c a b}, Condition n i c → Value i j a → Value j m b →
    Value n m ("CASE WHEN " ++ c ++ " THEN " ++ a ++ " ELSE " ++ b ++ " END")
  counted : ∀ {n m c}, Condition n m c → Value n m ("CASE WHEN " ++ c ++ " THEN 1 END")
  compare : ∀ {n k m a token b}, token ∈ comparisonTokens → Value n k a → Value k m b →
    Condition n m (a ++ token ++ b)
  group : ∀ {n m c}, Condition n m c → Condition n m ("(" ++ c ++ ")")
  join : ∀ {n k m a token b}, token ∈ logicalTokens → Condition n k a → Condition k m b →
    Condition n m (a ++ token ++ b)
  negate : ∀ {n m c}, Condition n m c → Condition n m (Sql.negate c)
  ne_nil : ∀ {n m c}, Condition n m c → c ≠ []

namespace TextKinds

variable {st : Settings} {L : Lexicon} (K : TextKinds st L) {n m : Nat} {t : Text}

/-! ### Values -/

theorem null : K.Value n n "NULL" := K.word (by decide)

theorem one : K.Value n n "1" := K.word (by decide)

theorem zero : K.Value n n "0" := K.word (by decide)

theorem percent : K.Value n n "'%'" := K.word (by decide)

theorem call {f : Text} (hf : f ∈ functionNames) (h : K.Value n m t) :
    K.Value n m (f ++ "(" ++ t ++ ")") := by
  simpa [Text.join] using K.apply hf (.single h) (List.cons_ne_nil t [])

theorem parens (h : K.Value n m t) : K.Value n m ("(" ++ t ++ ")") :=
  K.call (f := []) (by decide) h

/-- Values with commas between them, in parentheses. -/
theorem tuple {ts : List Text} (h : Texts K.Value n m ts) (hne : ts ≠ []) :
    K.Value n m ("(" ++ Text.join "," ts ++ ")") :=
  K.apply (f := []) (by decide) h hne

theorem argument {f : Text} (hf : f ∈ functionNames) (h : ArgumentText L K.Value n m t) :
    K.Value n m (f ++ "(" ++ t ++ ")") := by
  rcases h with h | ⟨rfl, hraw, ht⟩
  · exact K.call hf h
  · exact K.raw hf hraw ht

/-- The concatenation of values is a value. -/
theorem concatAll {ts : List Text} (h : Texts K.Value n m ts) (hne : ts ≠ []) :
    K.Value n m (st.profile.concatAll ts) := by
  unfold Profile.concatAll
  cases st.profile.concat with
  | function => exact K.apply (f := "CONCAT") (by decide) h hne
  | pipes => exact h.join (K.op (by decide)) hne
  | plus => exact h.join (K.op (by decide)) hne

/-- The pattern of a value is a value. -/
theorem pattern (h : K.Value n m t) (p : Pattern) : K.Value n m (p.emit st.profile t) := by
  cases p with
  | anywhere =>
    exact K.concatAll (.cons K.percent (.cons h (.single K.percent))) (List.cons_ne_nil _ _)
  | start => exact K.concatAll (.cons h (.single K.percent)) (List.cons_ne_nil _ _)
  | finish => exact K.concatAll (.cons K.percent (.single h)) (List.cons_ne_nil _ _)

theorem trim (h : K.Value n m t) : K.Value n m (st.profile.trim t) := by
  unfold Profile.trim
  split
  · have h' : K.Value n m ("LTRIM" ++ "(" ++ ("RTRIM" ++ "(" ++ t ++ ")") ++ ")") :=
      K.call (by decide) (K.call (by decide) h)
    have hl : ("LTRIM(RTRIM(" : Text) = "LTRIM" ++ ("(" ++ ("RTRIM" ++ "(")) := by decide
    have hr : ("))" : Text) = ")" ++ ")" := by decide
    simpa only [hl, hr, List.append_assoc] using h'
  · exact K.call (f := "TRIM") (by decide) h

/-! ### Conditions -/

theorem never : K.Condition n n "1 = 0" := by
  show K.Condition n n (("1" : Text) ++ " = " ++ "0")
  exact K.compare (by decide) K.one K.zero

theorem always : K.Condition n n "1 = 1" := by
  show K.Condition n n (("1" : Text) ++ " = " ++ "1")
  exact K.compare (by decide) K.one K.one

theorem counts (h : Optional K.Condition n m []) : n = m :=
  h.elim (·.2) fun h' => absurd rfl (K.ne_nil h')

end TextKinds

/-! ### The grammar -/

/-- Negation empties no text. -/
theorem Sql.negate_ne_nil {t : Text} (h : t ≠ []) : Sql.negate t ≠ [] := by
  obtain ⟨b, rest, rfl⟩ := List.exists_cons_of_ne_nil h
  have hw : (negationStep none (b :: rest)).2 ≠ [] := by
    unfold negationStep
    split
    · simp
    · split
      · simp
      · split
        · rename_i token complement hn
          have hmem : (token, complement) ∈ negations := List.mem_of_find?_eq_some hn
          have hall : ∀ x ∈ negations, x.2 ≠ [] := by decide
          exact hall _ hmem
        · simp
  simp only [negate, negateFrom]
  simp [hw]

/-- What stands between two conditions, or between two values, leaves no text empty. -/
theorem ne_nil_of_tokens {a token b : Text} (h : token ∈ comparisonTokens ∨ token ∈ logicalTokens) :
    a ++ token ++ b ≠ [] := by
  have hall : ∀ x ∈ comparisonTokens ++ logicalTokens, x ≠ [] := by decide
  simp [hall _ (List.mem_append.mpr h)]

theorem ConditionText.ne_nil {st : Settings} {L : Lexicon} {n m : Nat} {t : Text} :
    ConditionText st L n m t → t ≠ []
  | .compare ht _ _ => ne_nil_of_tokens (.inl ht)
  | .group _ => by simp [show (")" : Text) ≠ [] by decide]
  | .join ht _ _ => ne_nil_of_tokens (.inr ht)
  | .negate hc => Sql.negate_ne_nil hc.ne_nil

/-- The texts of the grammar: a minus sign may stand in front of every one of them. -/
def grammar (st : Settings) (L : Lexicon) : TextKinds st L where
  Value := ValueText st L
  Condition := ConditionText st L
  Unsigned _ := True
  word := .word
  mark := .mark
  column := .column
  bare := .bare
  raw := .raw
  apply hf h hne := .call hf (h.join (.op (by decide)) hne)
  op {_ _ _ _ sep _} hs := by
    have hall : ∀ x ∈ valueOperators, x ∈ valueSeparators := by decide
    exact .op (hall sep hs)
  minus h _ := .minus h
  unsigned_parens _ := trivial
  choice := .choice
  counted := .counted
  compare := .compare
  group := .group
  join := .join
  negate := .negate
  ne_nil := ConditionText.ne_nil

namespace Emit

variable {st : Settings} {L : Lexicon}

theorem emits_placeholder {K : TextKinds st L} (v : Value) (dataType : Text) :
    Emits L K.Value (placeholder st v dataType) := by
  intro s t s' hs hy
  obtain ⟨rfl, rfl⟩ := yields_placeholder.mp hy
  refine ⟨hs, ?_⟩
  have hlen : (s.bindValue st.profile v dataType).2.params.length = s.params.length + 1 := by
    simp [Slate.bindValue]
  rw [hlen]
  exact K.mark

end Emit

end QueryTree
