import Mathlib.Algebra.Ring.Int.Defs
import Mathlib.Algebra.Ring.Nat
import QueryTree.Proofs.Scanned
import QueryTree.Shell.Grammar

/-!
# Phrases of the expression language

A phrase is an expression that can be written: constants, members of rows, operators, tests and
calls. It is written with every phrase inside it in brackets, constants and references apart. The
tokens of a phrase are read back as its expression: by the rule for operands if the phrase is in
brackets, and by the rule for whole expressions if it is not.

Only what follows can disturb the reading, so the reading of a phrase is stated for every rest that
does not: a rule of a level is left alone by every token that no rule up to this level continues
with.

## Main definitions

* `Infix`, `Applied`: operators and functions
* `Phrase`, `Phrase.expr`, `Phrase.tokens`
* `Grammar.reader`: the rules by their level, the tightest first

## Main results

* `Phrase.reads`: the tokens of a phrase are read as its expression
-/

namespace QueryTree.Shell

/-! ### Phrases -/

/-- The operators between two operands. -/
inductive Infix where
  | multiply | divide | modulo
  | add | subtract
  | equal | notEqual | greaterThan | greaterThanOrEqual | lessThan | lessThanOrEqual
  | and
  | or

namespace Infix

/-- How an operator is written. -/
def token : Infix → Token
  | multiply => "*" | divide => "/" | modulo => "%"
  | add => "+" | subtract => "-"
  | equal => "=" | notEqual => "<>" | greaterThan => ">" | greaterThanOrEqual => ">="
  | lessThan => "<" | lessThanOrEqual => "<="
  | and => "and"
  | or => "or"

/-- The operator in expressions. -/
def op : Infix → BinaryOp
  | multiply => .multiply | divide => .divide | modulo => .modulo
  | add => .add | subtract => .subtract
  | equal => .equal | notEqual => .notEqual
  | greaterThan => .greaterThan | greaterThanOrEqual => .greaterThanOrEqual
  | lessThan => .lessThan | lessThanOrEqual => .lessThanOrEqual
  | and => .andAlso
  | or => .orElse

/-- The level of the rule that an operator belongs to. -/
def level : Infix → Nat
  | multiply | divide | modulo => 0
  | add | subtract => 1
  | equal | notEqual | greaterThan | greaterThanOrEqual | lessThan | lessThanOrEqual => 2
  | and => 3
  | or => 4

end Infix

/-- The functions of one argument. -/
inductive Applied where
  | upper | lower | trim | count | sum | avg | min | max

namespace Applied

/-- The name of a function. -/
def name : Applied → Token
  | upper => "upper" | lower => "lower" | trim => "trim" | count => "count"
  | sum => "sum" | avg => "avg" | min => "min" | max => "max"

/-- The call of a function. -/
def expr : Applied → Expr → Expr
  | upper, e => .callOf e "ToUpper" []
  | lower, e => .callOf e "ToLower" []
  | trim, e => .callOf e "Trim" []
  | count, e => .staticOf "Count" [e]
  | sum, e => .staticOf "Sum" [e]
  | avg, e => .staticOf "Avg" [e]
  | min, e => .staticOf "Min" [e]
  | max, e => .staticOf "Max" [e]

end Applied

/-- An expression that can be written. -/
inductive Phrase where
  | int (n : Int)
  | text (t : Text)
  | truth (b : Bool)
  | null
  /-- A member of a row, which has an alias. -/
  | reference (row : Param) (rowName member : Text)
  | opposite (x : Phrase)
  | denial (x : Phrase)
  | joined (i : Infix) (left right : Phrase)
  /-- Membership in a list that is not empty. -/
  | among (x first : Phrase) (more : List Phrase)
  /-- The test that a text holds another one. -/
  | like (x : Phrase) (t : Text)
  | applied (f : Applied) (x : Phrase)
  /-- The number of rows. -/
  | countRows

namespace Phrase

/-- Whether a phrase is written without brackets. -/
def isAtom : Phrase → Bool
  | int _ | text _ | truth _ | null | reference .. => true
  | _ => false

mutual

/-- The expression that a phrase stands for. -/
def expr : Phrase → Expr
  | int n => .value (.int .int64 n)
  | text t => .value (.string t)
  | truth b => .value (.bool b)
  | null => .null
  | reference p _ m => .field p m
  | opposite x => .negateOf x.expr
  | denial x => .notOf x.expr
  | joined i l r => .binary i.op l.expr r.expr
  | among x first more => .staticOf "In" [x.expr, .arrayOf (first.expr :: exprs more)]
  | like x t => .staticOf "Like" [x.expr, .value (.string t)]
  | applied f x => f.expr x.expr
  | countRows => .staticOf "Count" []

/-- The expressions that phrases stand for. -/
def exprs : List Phrase → List Expr
  | [] => []
  | x :: xs => x.expr :: exprs xs

end

/-- Tokens in brackets, unless they are those of an atom. -/
def bracketed (x : Phrase) (ts : List Token) : List Token :=
  if x.isAtom then ts else ("(" : Text) :: ts ++ [(")" : Text)]

/-- The tokens of an integer. Its sign is one of its own. -/
def intTokens : Int → List Token
  | .ofNat n => [Text.ofNat n]
  | .negSucc n => ["-", Text.ofNat (n + 1)]

/-- The token of a member of a row. -/
def referenceToken (rowName member : Text) : Token := rowName ++ byte '.' :: member

/-- The token of the pattern of a text that may stand anywhere. -/
def patternToken (t : Text) : Token := Token.quotedText ("%" ++ t ++ "%")

mutual

/-- The tokens of a phrase without brackets around it. -/
def body : Phrase → List Token
  | int n => intTokens n
  | text t => [Token.quotedText t]
  | truth b => [if b then "true" else "false"]
  | null => ["null"]
  | reference _ rowName member => [referenceToken rowName member]
  | opposite x => ("-" : Text) :: bracketed x x.body
  | denial x => ("not" : Text) :: bracketed x x.body
  | joined i l r => bracketed l l.body ++ i.token :: bracketed r r.body
  | among x first more => bracketed x x.body ++ ("in" : Text) :: ("(" : Text) ::
    (bracketed first first.body ++ bodies more ++ [(")" : Text)])
  | like x t => bracketed x x.body ++ [("like" : Text), patternToken t]
  | applied f x => f.name :: ("(" : Text) :: (bracketed x x.body ++ [(")" : Text)])
  | countRows => ["count", "(", ")"]

/-- The tokens of further phrases of a list. -/
def bodies : List Phrase → List Token
  | [] => []
  | x :: xs => ("," : Text) :: (bracketed x x.body ++ bodies xs)

end

/-- The tokens of a phrase. -/
def tokens (x : Phrase) : List Token := bracketed x x.body

mutual

/-- What the parts of a phrase have to satisfy: integers are words with an opposite, the members of
rows are known, and an opposite is not that of an integer. -/
def Valid (known : Param → Text → Text → Prop) : Phrase → Prop
  | int n => -(2 ^ 63 : Int) < n ∧ n < 2 ^ 63
  | text _ | truth _ | null | countRows => True
  | reference p rowName member => known p rowName member
  | opposite x => x.Valid known ∧ ∀ n, x ≠ int n
  | denial x | like x _ | applied _ x => x.Valid known
  | joined _ l r => l.Valid known ∧ r.Valid known
  | among x first more => x.Valid known ∧ first.Valid known ∧ AllValid known more

/-- All phrases of a list are valid. -/
def AllValid (known : Param → Text → Text → Prop) : List Phrase → Prop
  | [] => True
  | x :: xs => x.Valid known ∧ AllValid known xs

end

attribute [local grind =] expr exprs bracketed intTokens body bodies tokens Valid AllValid isAtom

/-- A member of a row that is written as one word, which means this member. -/
structure Means (resolve : Resolver) (p : Param) (rowName member : Text) : Prop where
  isIdentifier : Raw.isIdentifier rowName = true
  isWord : ∀ b ∈ member, Token.isWordByte b = true
  reference_eq : Grammar.reference (some resolve) (referenceToken rowName member) =
    .ok (.field p member)

end Phrase

namespace Grammar

/-! ### Rules by their level -/

/-- The rule of a level for operands that are read by the rule before it. -/
def rule (inner : Parser Expr) : (level : Nat) → Parser Expr → Parser Expr
  | 0, operand => tableChain multiplicative operand
  | 1, operand => tableChain additive operand
  | 2, operand => negation (comparison inner operand)
  | 3, operand => wordChain "and" .andAlso operand
  | _, operand => wordChain "or" .orElse operand

/-- The first rules, the tightest first. Without any, an operand is read. -/
def reader (resolver : Option Resolver) (inner : Parser Expr) : (rules : Nat) → Parser Expr
  | 0 => unary (primary resolver inner)
  | k + 1 => rule inner k (reader resolver inner k)

theorem expression_succ (resolver : Option Resolver) (n : Nat) :
    expression resolver (n + 1) = reader resolver (expression resolver n) 5 := rfl

/-- Whether the rule of a level goes on with a token. -/
def goesOn : (level : Nat) → Token → Bool
  | 0, t => (multiplicative.lookup t).isSome
  | 1, t => (additive.lookup t).isSome
  | 2, t => (comparisons.lookup t).isSome ||
    (["is", "not", "like", "in"] : List Text).contains t.toLower
  | 3, t => t.toLower = ("and" : Text)
  | _, t => t.toLower = ("or" : Text)

/-- What follows is not gone on with by any of the first rules. -/
def Stops (k : Nat) (rest : List Token) : Prop :=
  ∀ t ∈ rest.head?, ∀ level < k, goesOn level t = false

theorem Stops.mono {j k : Nat} {rest : List Token} (h : Stops k rest) (hjk : j ≤ k) :
    Stops j rest :=
  fun t ht level hlevel => h t ht level (Nat.lt_of_lt_of_le hlevel hjk)

/-- What is read does not begin with a denial. -/
def Affirms (ts : List Token) : Prop := ∀ t ∈ ts.head?, Text.toLower t ≠ ("not" : Text)

variable {op? : Token → Option (Expr → Expr → Expr)} {operand inner : Parser Expr}
  {join : Expr → Expr → Expr} {ts us rest : List Token} {t : Token} {a b e : Expr}
  {resolver : Option Resolver}

/-! ### Chains -/

-- The equations of the rules, by which all proofs below go.
attribute [local grind =] chainFrom chain negation comparison unary primary goesOn rule reader
  itemsFrom items matchTail likeTest arguments call reference Infix.level Infix.token Infix.op
  negative

theorem chainFrom_stop (h : ∀ t ∈ rest.head?, op? t = none) (steps : Nat) (left : Expr) :
    chainFrom op? operand steps left rest = .ok (left, rest) := by
  cases rest with
  | nil => cases steps <;> rfl
  | cons t rest =>
    cases steps with
    | zero => rfl
    | succ steps => rw [chainFrom, h t rfl]

theorem chain_single (h : operand ts = .ok (a, rest)) (hrest : ∀ t ∈ rest.head?, op? t = none) :
    chain op? operand ts = .ok (a, rest) := by
  simp only [chain, h]
  exact chainFrom_stop hrest _ a

theorem chain_pair (hleft : operand ts = .ok (a, t :: us)) (hop : op? t = some join)
    (hright : operand us = .ok (b, rest)) (hrest : ∀ t ∈ rest.head?, op? t = none) :
    chain op? operand ts = .ok (join a b, rest) := by
  simp only [chain, hleft]
  change chainFrom op? operand (us.length + 1) a (t :: us) = _
  rw [chainFrom, hop]
  simp only [hright]
  exact chainFrom_stop hrest _ _

/-! ### Comparisons and denials -/

theorem negation_of_affirms (h : Affirms ts) : negation operand ts = operand ts := by
  cases ts with
  | nil => rfl
  | cons t ts => rw [negation, if_neg (h t rfl)]

theorem negation_not (h : negation operand ts = .ok (a, rest)) :
    negation operand (("not" : Text) :: ts) = .ok (.notOf a, rest) := by
  rw [negation, if_pos (by decide), h]
  rfl

/-- A comparison is what its first operand is, unless the rest goes on. -/
theorem comparison_single (h : operand ts = .ok (a, rest))
    (hrest : ∀ t ∈ rest.head?, goesOn 2 t = false) :
    comparison inner operand ts = .ok (a, rest) := by
  simp only [comparison, h]
  cases rest with
  | nil => rfl
  | cons t rest =>
    have ht := hrest t rfl
    simp only [goesOn, Bool.or_eq_false_iff, Option.isSome_eq_false_iff, Option.isNone_iff_eq_none,
      List.contains_eq_mem, decide_eq_false_iff_not, List.mem_cons, not_or] at ht
    obtain ⟨hnone, his, hnot, hlike, hin, -⟩ := ht
    simp only [bind, Except.bind, hnone]
    simp only [his, hnot, hlike, hin, if_false, decide_false, Bool.or_self, Bool.false_eq_true]
    rfl

theorem comparison_pair {op : BinaryOp} (hleft : operand ts = .ok (a, t :: us))
    (hop : comparisons.lookup t = some op) (hright : operand us = .ok (b, rest)) :
    comparison inner operand ts = .ok (.binary op a b, rest) := by
  simp only [comparison, hleft, bind, Except.bind, hop, hright]
  rfl

/-! ### Rules -/

/-- A rule reads what its operand is, unless the rest goes on. -/
theorem rule_single {k : Nat} (h : operand ts = .ok (a, rest))
    (hrest : ∀ t ∈ rest.head?, goesOn k t = false) (haffirms : k = 2 → Affirms ts) :
    rule inner k operand ts = .ok (a, rest) := by
  match k with
  | 0 =>
    refine chain_single h fun t ht => ?_
    have hnone := hrest t ht
    simp only [goesOn, Option.isSome_eq_false_iff, Option.isNone_iff_eq_none] at hnone
    rw [hnone]
    rfl
  | 1 =>
    refine chain_single h fun t ht => ?_
    have hnone := hrest t ht
    simp only [goesOn, Option.isSome_eq_false_iff, Option.isNone_iff_eq_none] at hnone
    rw [hnone]
    rfl
  | 2 =>
    rw [rule, negation_of_affirms (haffirms rfl)]
    exact comparison_single h hrest
  | 3 => exact chain_single h fun t ht => if_neg (of_decide_eq_false (hrest t ht))
  | k + 4 => exact chain_single h fun t ht => if_neg (of_decide_eq_false (hrest t ht))

/-- Rules read what an operand is, unless the rest goes on. -/
theorem reader_mono {j k : Nat} (hjk : j ≤ k) (h : reader resolver inner j ts = .ok (a, rest))
    (hrest : Stops k rest) (haffirms : j ≤ 2 → Affirms ts) :
    reader resolver inner k ts = .ok (a, rest) := by
  induction hjk with
  | refl => exact h
  | step hle ih =>
    exact rule_single (ih (hrest.mono (Nat.le_succ _)))
      (fun t ht => hrest t ht _ (Nat.lt_succ_self _)) fun heq => haffirms (heq ▸ hle)

/-- The rule of an operator reads two operands that it stands between. -/
theorem rule_infix (i : Infix) (hleft : operand ts = .ok (a, i.token :: us))
    (hright : operand us = .ok (b, rest)) (hrest : ∀ t ∈ rest.head?, goesOn i.level t = false)
    (haffirms : Affirms ts) :
    rule inner i.level operand ts = .ok (.binary i.op a b, rest) := by
  cases i with
  | multiply | divide | modulo | add | subtract =>
    refine chain_pair hleft rfl hright fun t ht => ?_
    have hnone := hrest t ht
    simp only [Infix.level, goesOn, Option.isSome_eq_false_iff,
      Option.isNone_iff_eq_none] at hnone
    rw [hnone]
    rfl
  | equal | notEqual | greaterThan | greaterThanOrEqual | lessThan | lessThanOrEqual =>
    rw [Infix.level, rule, negation_of_affirms haffirms]
    exact comparison_pair hleft rfl hright
  | and => exact chain_pair hleft rfl hright fun t ht => if_neg (of_decide_eq_false (hrest t ht))
  | or => exact chain_pair hleft rfl hright fun t ht => if_neg (of_decide_eq_false (hrest t ht))

/-! ### Operands -/

theorem unary_of_ne (h : t ≠ ("-" : Text)) : unary operand (t :: ts) = operand (t :: ts) := by
  rw [unary, if_neg h]

theorem unary_minus (h : unary operand ts = .ok (a, rest)) :
    unary operand (("-" : Text) :: ts) = .ok (negative a, rest) := by
  rw [unary, if_pos rfl, h]
  rfl

theorem primary_value {v : Value} (ht : t ≠ ("(" : Text)) (hv : t.value? = some v) :
    primary resolver inner (t :: rest) = .ok (.value v, rest) := by
  unfold primary
  dsimp only
  rw [if_neg ht, hv]

theorem primary_reference (ht : t ≠ ("(" : Text)) (hv : t.value? = none)
    (hname : t.isIdentifier = true) (hrest : rest.head? ≠ some ("(" : Text))
    (h : reference resolver t = .ok a) : primary resolver inner (t :: rest) = .ok (a, rest) := by
  unfold primary
  dsimp only
  rw [if_neg ht, hv]
  simp only [hname, if_true]
  cases rest with
  | nil =>
    rw [h]
    rfl
  | cons u rest =>
    have hu : u ≠ ("(" : Text) := fun heq => hrest (by rw [heq]; rfl)
    simp only [hu, if_false, h]
    rfl

theorem primary_brackets (h : inner ts = .ok (a, (")" : Text) :: rest)) :
    primary resolver inner (("(" : Text) :: ts) = .ok (a, rest) := by
  unfold primary
  dsimp only
  rw [if_pos rfl, h]
  rfl

theorem primary_call {f : Function} {args : List Expr} (ht : t ≠ ("(" : Text))
    (hv : t.value? = none) (hname : t.isIdentifier = true)
    (hf : functions.lookup t.toLower = some f)
    (hargs : arguments inner t.toLower ts = .ok (args, rest))
    (hbuild : build t.toLower f args = .ok a) :
    primary resolver inner (t :: ("(" : Text) :: ts) = .ok (a, rest) := by
  unfold primary
  dsimp only
  rw [if_neg ht, hv]
  simp only [hname, if_true, call, hf, hargs]
  change (do return (← build t.toLower f args, rest)) = _
  rw [hbuild]
  rfl

/-! ### Lists -/

theorem itemsFrom_last {steps : Nat} (h : operand ts = .ok (a, (")" : Text) :: rest)) :
    itemsFrom operand (steps + 1) ts = .ok ([a], rest) := by
  rw [itemsFrom, h]
  rfl

theorem itemsFrom_more {steps : Nat} {as : List Expr}
    (h : operand ts = .ok (a, ("," : Text) :: us))
    (hmore : itemsFrom operand steps us = .ok (as, rest)) :
    itemsFrom operand (steps + 1) ts = .ok (a :: as, rest) := by
  simp only [itemsFrom, h, bind, Except.bind, if_true, hmore]
  rfl

theorem comparison_in {es : List Expr}
    (h : operand ts = .ok (a, ("in" : Text) :: ("(" : Text) :: us))
    (hitems : items inner us = .ok (es, rest)) (hne : es ≠ []) :
    comparison inner operand ts = .ok (.staticOf "In" [a, .arrayOf es], rest) := by
  simp only [comparison, h]
  change matchTail inner a (("in" : Text) :: ("(" : Text) :: us) = _
  have hlower : ("in" : Text).toLower = "in" := by decide
  have hne' : ("in" : Text) ≠ "like" := by decide
  have hopen : expect "(" (("(" : Text) :: us) = .ok us := rfl
  simp only [matchTail, List.headD_cons, hlower, hne', if_false, if_true, List.drop_succ_cons,
    List.drop_zero, hopen, bind, Except.bind, hitems]
  cases es with
  | nil => exact absurd rfl hne
  | cons => rfl

theorem comparison_like {s : Text} (h : operand ts = .ok (a, ("like" : Text) :: t :: rest))
    (ht : t.value? = some (.string s)) :
    comparison inner operand ts = .ok (likeTest a s, rest) := by
  simp only [comparison, h]
  change matchTail inner a (("like" : Text) :: t :: rest) = _
  have hlower : ("like" : Text).toLower = "like" := by decide
  simp only [matchTail, List.headD_cons, hlower, if_true, List.drop_succ_cons, List.drop_zero, ht]

/-- A pattern that is open at both ends stands for the text between. -/
theorem likeTest_open (a : Expr) (t : Text) :
    likeTest a ("%" ++ t ++ "%") = .staticOf "Like" [a, .value (.string t)] := by
  have hlead : Text.hasPrefix ("%" ++ t ++ "%") "%" = true := by
    simp [Text.hasPrefix, List.append_assoc]
  have htrim : Text.trimPrefix ("%" ++ t ++ "%") "%" = t ++ "%" := by
    rw [Text.trimPrefix, if_pos hlead, List.append_assoc]
    rfl
  have hlength : decide (1 < ("%" ++ t ++ "%" : Text).length) = true := by
    have hone : ("%" : Text).length = 1 := by decide
    rw [List.length_append, List.length_append, hone]
    exact decide_eq_true (by omega)
  simp only [likeTest, hlead, htrim, hlength, Text.hasSuffix_append, Text.trimSuffix_append,
    Bool.and_self, Bool.not_true, Bool.and_false, Bool.false_eq_true, if_false]

end Grammar

namespace Phrase

open Grammar

variable {resolve : Resolver} {x y l r : Phrase}

/-! ### What follows a phrase -/

/-- What follows is the end of brackets or of an item, or nothing. -/
def Closing (rest : List Token) : Prop := ∀ t ∈ rest.head?, t = (")" : Text) ∨ t = ("," : Text)

theorem closing_nil : Closing [] := nofun

theorem closing_cons {t : Token} (h : t = (")" : Text) ∨ t = ("," : Text)) (rest : List Token) :
    Closing (t :: rest) := by
  rintro u hu
  cases hu
  exact h

theorem Closing.stops {rest : List Token} (h : Closing rest) : Stops 5 rest := by
  intro t ht level hlevel
  have hall : ∀ level < 5,
      goesOn level (")" : Text) = false ∧ goesOn level ("," : Text) = false := by
    decide
  rcases h t ht with rfl | rfl
  · exact (hall level hlevel).1
  · exact (hall level hlevel).2

theorem Closing.head_ne {rest : List Token} (h : Closing rest) :
    rest.head? ≠ some ("(" : Text) := by
  intro heq
  rcases h _ heq with h | h <;> exact absurd h (by decide)

theorem head_ne_of_ne {t : Token} (h : t ≠ ("(" : Text)) (ts : List Token) :
    (t :: ts).head? ≠ some ("(" : Text) := fun heq => h (Option.some.inj heq)

theorem infix_facts (i : Infix) : i.token ≠ ("(" : Text) ∧ i.level < 5 ∧
    (∀ level < i.level, goesOn level i.token = false) := by
  cases i <;> decide

/-! ### What a phrase begins with -/

/-- A token that begins an operand: no rule takes it for a denial, for the end of a list or for all
rows. -/
structure Opens (t : Token) : Prop where
  denial : Text.toLower t ≠ ("not" : Text)
  closing : t ≠ (")" : Text)
  star : t ≠ ("*" : Text)

/-- A token that is an operand of its own, without a sign or brackets. -/
structure IsPlain (t : Token) : Prop extends Opens t where
  bracket : t ≠ ("(" : Text)
  minus : t ≠ ("-" : Text)

theorem isPlain_of_front {b : UInt8} {t : Text}
    (hb : b ∉ ([byte '(', byte ')', byte '*', byte '-'] : List UInt8))
    (h : Text.toLower (b :: t) ∉ Token.words) : IsPlain (b :: t) := by
  have hne : ∀ c ∈ ([byte '(', byte ')', byte '*', byte '-'] : List UInt8), b :: t ≠ [c] := by
    intro c hc heq
    exact hb (List.head_eq_of_cons_eq heq ▸ hc)
  exact ⟨⟨fun heq => h (by rw [heq]; simp [Token.words]), hne (byte ')') (by simp),
    hne (byte '*') (by simp)⟩, hne (byte '(') (by simp), hne (byte '-') (by simp)⟩

theorem isPlain_quotedText (t : Text) : IsPlain (Token.quotedText t) :=
  isPlain_of_front (by decide) (Token.toLower_not_mem_words (by decide) (by decide) _)

theorem isPlain_ofNat (n : Nat) : IsPlain (Text.ofNat n) := by
  have hword := Token.toLower_ofNat_not_mem_words n
  obtain ⟨b, t, ht, hb⟩ := Token.exists_ofNat_eq_cons n
  rw [ht] at hword ⊢
  exact isPlain_of_front (Text.not_mem_of_test (by decide) hb) hword

theorem isPlain_reference {rowName : Text} (h : Raw.isIdentifier rowName = true) (member : Text) :
    IsPlain (referenceToken rowName member) := by
  have hword := Token.toLower_not_mem_words_of_point (Token.isAscii_of_isIdentifier h) member
  cases rowName with
  | nil => cases h
  | cons b u =>
    have hfront := Text.not_mem_of_test (f := fun c => Text.isLetterByte c || c == byte '_')
      (l := [byte '(', byte ')', byte '*', byte '-']) (by decide) (Bool.and_eq_true_iff.mp h).1
    exact isPlain_of_front hfront hword

/-- What every phrase begins with. -/
theorem opens_tokens (hx : x.Valid (Means resolve)) (rest : List Token) :
    ∀ t ∈ (x.tokens ++ rest).head?, Opens t := by
  have hbracket : Opens ("(" : Text) := ⟨by decide, by decide, by decide⟩
  rintro t ht
  cases x with
  | int n =>
    cases n with
    | ofNat n =>
      cases ht
      exact (isPlain_ofNat n).toOpens
    | negSucc n =>
      cases ht
      exact ⟨by decide, by decide, by decide⟩
  | text u =>
    cases ht
    exact (isPlain_quotedText u).toOpens
  | truth b =>
    cases ht
    cases b <;> exact ⟨by decide, by decide, by decide⟩
  | null =>
    cases ht
    exact ⟨by decide, by decide, by decide⟩
  | reference p rowName member =>
    cases ht
    exact (isPlain_reference hx.1 member).toOpens
  | opposite | denial | joined | among | like | applied | countRows =>
    cases ht
    exact hbracket

theorem affirms_tokens (hx : x.Valid (Means resolve)) (rest : List Token) :
    Affirms (x.tokens ++ rest) := fun t ht => (opens_tokens hx rest t ht).denial

/-! ### Reading -/

/-- The tokens of a phrase without brackets are read as its expression. The number of brackets that
may be nested is no matter. -/
def Reads (resolve : Resolver) (x : Phrase) : Prop :=
  ∀ n rest, x.body.length ≤ n + 1 → Closing rest →
    reader (some resolve) (expression (some resolve) n) 5 (x.body ++ rest) = .ok (x.expr, rest)

/-- The tokens of a phrase are read as its expression by the rule for operands. -/
def ReadsOperand (resolve : Resolver) (x : Phrase) : Prop :=
  ∀ n rest, x.tokens.length ≤ n + 2 → rest.head? ≠ some ("(" : Text) →
    reader (some resolve) (expression (some resolve) n) 0 (x.tokens ++ rest) = .ok (x.expr, rest)

theorem tokens_of_isAtom (h : x.isAtom = true) : x.tokens = x.body := by
  simp [tokens, bracketed, h]

theorem tokens_of_not_isAtom (h : x.isAtom = false) :
    x.tokens = ("(" : Text) :: (x.body ++ [(")" : Text)]) := by
  simp [tokens, bracketed, h]

/-- An operand is read by every rule. -/
theorem ReadsOperand.reader (h : ReadsOperand resolve x) (hx : x.Valid (Means resolve)) {n k : Nat}
    {rest : List Token} (hn : x.tokens.length ≤ n + 2) (hparen : rest.head? ≠ some ("(" : Text))
    (hrest : Stops k rest) :
    reader (some resolve) (expression (some resolve) n) k (x.tokens ++ rest) =
      .ok (x.expr, rest) :=
  reader_mono (Nat.zero_le k) (h n rest hn hparen) hrest fun _ => affirms_tokens hx rest

/-- An operand is read as a whole expression. -/
theorem ReadsOperand.expression (h : ReadsOperand resolve x) (hx : x.Valid (Means resolve))
    {n : Nat} {rest : List Token} (hn : x.tokens.length ≤ n) (hpos : 0 < n) (hrest : Closing rest) :
    expression (some resolve) n (x.tokens ++ rest) = .ok (x.expr, rest) := by
  obtain ⟨m, rfl⟩ : ∃ m, n = m + 1 := ⟨n - 1, by omega⟩
  rw [expression_succ]
  exact h.reader hx (by omega) hrest.head_ne hrest.stops

/-- A phrase that is read without brackets is read inside them. -/
theorem Reads.operand_of_not_isAtom (h : Reads resolve x) (hatom : x.isAtom = false)
    (hpos : 0 < x.body.length) : ReadsOperand resolve x := by
  intro n rest hn _
  rw [tokens_of_not_isAtom hatom] at hn ⊢
  simp only [List.length_cons, List.length_append, List.length_nil] at hn
  obtain ⟨m, rfl⟩ : ∃ m, n = m + 1 := ⟨n - 1, by omega⟩
  have hinner := h m ((")" : Text) :: rest) (by omega) (closing_cons (.inl rfl) rest)
  rw [← expression_succ] at hinner
  rw [List.cons_append, List.append_assoc, List.singleton_append]
  change unary _ _ = _
  rw [unary_of_ne (by decide)]
  exact primary_brackets hinner

/-! ### Atoms -/

theorem readsOperand_of_value {resolver : Option Resolver} {t : Token} {v : Value}
    (ht : IsPlain t) (hv : t.value? = some v) (n : Nat) (rest : List Token) :
    reader resolver (Grammar.expression resolver n) 0 (t :: rest) = .ok (.value v, rest) := by
  change unary _ (t :: rest) = _
  rw [unary_of_ne ht.minus]
  exact primary_value ht.bracket hv

theorem wrap_negSucc {n : Nat} (h : n + 1 < 2 ^ 63) :
    IntKind.int64.wrap (-((n + 1 : Nat) : Int)) = Int.negSucc n := by
  simp only [IntKind.wrap, IntKind.signed, IntKind.width, if_true, Nat.pow_eq]
  rw [Int.bmod_eq_of_le_mul_two (by omega) (by omega)]
  rfl

theorem readsOperand_int {n : Int} (h : (int n).Valid (Means resolve)) :
    ReadsOperand resolve (int n) := by
  intro depth rest _ _
  simp only [Valid] at h
  cases n with
  | ofNat n =>
    rw [Int.ofNat_eq_natCast] at h
    have hn : n < 2 ^ 63 := by omega
    exact readsOperand_of_value (isPlain_ofNat n) (Token.value?_ofNat hn) depth rest
  | negSucc n =>
    have hn : n + 1 < 2 ^ 63 := by omega
    have hread := unary_minus (readsOperand_of_value (isPlain_ofNat (n + 1))
      (Token.value?_ofNat hn) depth rest : reader (some resolve) _ 0 _ = _)
    simp only [negative, Expr.value, wrap_negSucc hn] at hread
    exact hread

theorem readsOperand_text (t : Text) : ReadsOperand resolve (text t) := fun n rest _ _ =>
  readsOperand_of_value (isPlain_quotedText t) (Token.value?_quotedText t) n rest

theorem readsOperand_truth (b : Bool) : ReadsOperand resolve (truth b) := by
  intro n rest _ _
  cases b
  · exact readsOperand_of_value ⟨⟨by decide, by decide, by decide⟩, by decide, by decide⟩ rfl n rest
  · exact readsOperand_of_value ⟨⟨by decide, by decide, by decide⟩, by decide, by decide⟩ rfl n rest

theorem readsOperand_null : ReadsOperand resolve null := fun n rest _ _ =>
  readsOperand_of_value ⟨⟨by decide, by decide, by decide⟩, by decide, by decide⟩ rfl n rest

theorem readsOperand_reference {p : Param} {rowName member : Text}
    (h : (reference p rowName member).Valid (Means resolve)) :
    ReadsOperand resolve (reference p rowName member) := by
  intro n rest _ hrest
  have hplain := isPlain_reference h.1 member
  have hname : Token.isIdentifier (referenceToken rowName member) = true := by
    cases rowName with
    | nil => cases h.1
    | cons b u => exact (Bool.and_eq_true_iff.mp h.1).1
  change unary _ (referenceToken rowName member :: rest) = _
  rw [unary_of_ne hplain.minus]
  exact primary_reference hplain.bracket (Token.value?_reference h.1 member) hname hrest
    h.reference_eq

/-- An atom without brackets is read as a whole expression. -/
theorem ReadsOperand.reads_of_isAtom (h : ReadsOperand resolve x) (hx : x.Valid (Means resolve))
    (hatom : x.isAtom = true) : Reads resolve x := by
  intro n rest hn hrest
  rw [← tokens_of_isAtom hatom] at hn ⊢
  exact h.reader hx (by omega) hrest.head_ne hrest.stops

/-! ### Lists -/

theorem closing_bodies (xs : List Phrase) (rest : List Token) :
    Closing (bodies xs ++ (")" : Text) :: rest) := by
  cases xs with
  | nil => exact closing_cons (.inl rfl) rest
  | cons y ys => exact closing_cons (.inr rfl) _

theorem length_le_bodies (xs : List Phrase) : xs.length ≤ (bodies xs).length := by
  induction xs with
  | nil => exact Nat.le_refl 0
  | cons y ys ih =>
    simp only [bodies, List.length_cons, List.length_append]
    omega

theorem bodies_cons_append (y : Phrase) (ys : List Phrase) (rest : List Token) :
    bodies (y :: ys) ++ rest = ("," : Text) :: (y.tokens ++ (bodies ys ++ rest)) := by
  rw [bodies, List.cons_append, List.append_assoc]
  rfl

/-- The items of a list are read one after the other. -/
theorem itemsFrom_tokens {n : Nat} {xs : List Phrase} (rest : List Token)
    (hx : ReadsOperand resolve x ∧ x.Valid (Means resolve))
    (hxs : ∀ y ∈ xs, ReadsOperand resolve y ∧ y.Valid (Means resolve)) (steps : Nat)
    (hsteps : xs.length < steps) (hn : x.tokens.length + (bodies xs).length < n) :
    itemsFrom (Grammar.expression (some resolve) n) steps
      (x.tokens ++ (bodies xs ++ (")" : Text) :: rest)) = .ok (x.expr :: exprs xs, rest) := by
  induction xs generalizing x steps with
  | nil =>
    obtain ⟨steps, rfl⟩ : ∃ m, steps = m + 1 := ⟨steps - 1, by omega⟩
    exact itemsFrom_last (hx.1.expression hx.2 (by omega) (by omega) (closing_cons (.inl rfl) rest))
  | cons y ys ih =>
    obtain ⟨steps, rfl⟩ : ∃ m, steps = m + 1 := ⟨steps - 1, by omega⟩
    have hlength : (bodies (y :: ys)).length = y.tokens.length + (bodies ys).length + 1 := by
      have := congrArg List.length (bodies_cons_append y ys [])
      simpa only [List.append_nil, List.length_cons, List.length_append] using this
    rw [List.length_cons] at hsteps
    have hmore := ih (hxs y List.mem_cons_self) (fun z hz => hxs z (List.mem_cons_of_mem y hz))
      steps (by omega) (by omega)
    have hfirst := hx.1.expression hx.2 (n := n) (by omega) (by omega)
      (closing_bodies (y :: ys) rest)
    rw [bodies_cons_append] at hfirst ⊢
    exact itemsFrom_more hfirst hmore

/-- A list in brackets, after the opening one. -/
theorem items_tokens {n : Nat} (xs : List Phrase) (rest : List Token)
    (hx : ReadsOperand resolve x ∧ x.Valid (Means resolve))
    (hxs : ∀ y ∈ xs, ReadsOperand resolve y ∧ y.Valid (Means resolve))
    (hn : x.tokens.length + (bodies xs).length < n) :
    items (Grammar.expression (some resolve) n)
      (x.tokens ++ (bodies xs ++ (")" : Text) :: rest)) = .ok (x.expr :: exprs xs, rest) := by
  have hsteps := length_le_bodies xs
  have hread := itemsFrom_tokens rest hx hxs
    (x.tokens ++ (bodies xs ++ (")" : Text) :: rest)).length
    (by simp only [List.length_append, List.length_cons]; omega) hn
  obtain ⟨t, ts, ht⟩ : ∃ t ts, x.tokens ++ (bodies xs ++ (")" : Text) :: rest) = t :: ts :=
    List.exists_cons_of_ne_nil (by simp)
  have hopen : t ≠ (")" : Text) :=
    (opens_tokens hx.2 (bodies xs ++ (")" : Text) :: rest) t (by rw [ht]; rfl)).closing
  rw [ht] at hread ⊢
  simp only [items, hopen, if_false]
  exact hread

/-! ### Compound phrases -/

theorem negative_expr (h : ∀ n, x ≠ int n) : negative x.expr = .negateOf x.expr := by
  cases x with
  | int n => exact absurd rfl (h n)
  | reference p rowName member =>
    simp only [expr, Expr.field, Expr.memberOf]
    split <;> rfl
  | applied f x => cases f <;> rfl
  | text | truth | null | opposite | denial | joined | among | like | countRows => rfl

theorem reads_opposite (hx : ReadsOperand resolve x) (h : (opposite x).Valid (Means resolve)) :
    Reads resolve (opposite x) := by
  intro n rest hn hrest
  simp only [body, List.length_cons] at hn
  have hread := unary_minus (hx n rest (by simp only [tokens]; omega) hrest.head_ne)
  rw [negative_expr h.2] at hread
  refine reader_mono (Nat.zero_le 5) hread hrest.stops fun _ t ht => ?_
  cases ht
  decide

theorem reads_denial (hx : ReadsOperand resolve x) (h : (denial x).Valid (Means resolve)) :
    Reads resolve (denial x) := by
  intro n rest hn hrest
  simp only [body, List.length_cons] at hn
  have hread := hx.reader h (n := n) (k := 3) (by simp only [tokens]; omega) hrest.head_ne
    (hrest.stops.mono (by omega))
  have hnot : reader (some resolve) (Grammar.expression (some resolve) n) 3
      (("not" : Text) :: (x.tokens ++ rest)) = .ok (.notOf x.expr, rest) := negation_not hread
  exact reader_mono (by omega) hnot hrest.stops fun h => absurd h (by omega)

theorem reads_joined (i : Infix) (hl : ReadsOperand resolve l) (hr : ReadsOperand resolve r)
    (h : (joined i l r).Valid (Means resolve)) : Reads resolve (joined i l r) := by
  intro n rest hn hrest
  simp only [body, List.length_append, List.length_cons] at hn
  obtain ⟨hparen, hlevel, hstops⟩ := infix_facts i
  have hstops' : Stops i.level (i.token :: (r.tokens ++ rest)) := by
    intro t ht
    cases ht
    exact hstops
  have hleft := hl.reader h.1 (n := n) (by simp only [tokens]; omega)
    (head_ne_of_ne hparen (r.tokens ++ rest)) hstops'
  have hright := hr.reader h.2 (n := n) (k := i.level) (by simp only [tokens]; omega)
    hrest.head_ne (hrest.stops.mono (Nat.le_of_lt hlevel))
  have haffirms := affirms_tokens h.1 (i.token :: (r.tokens ++ rest))
  have hread : reader (some resolve) (Grammar.expression (some resolve) n) (i.level + 1)
      (l.tokens ++ i.token :: (r.tokens ++ rest)) = .ok (.binary i.op l.expr r.expr, rest) :=
    rule_infix i hleft hright (fun t ht => hrest.stops t ht i.level hlevel) haffirms
  rw [body, List.append_assoc, List.cons_append]
  exact reader_mono hlevel hread hrest.stops fun _ => haffirms

theorem reads_like {t : Text} (hx : ReadsOperand resolve x) (h : (like x t).Valid (Means resolve)) :
    Reads resolve (like x t) := by
  intro n rest hn hrest
  simp only [body, List.length_append, List.length_cons] at hn
  have hstops : Stops 2 (("like" : Text) :: patternToken t :: rest) := by
    intro u hu
    cases hu
    decide
  have hleft := hx.reader h (n := n) (by simp only [tokens]; omega)
    (head_ne_of_ne (by decide) _) hstops
  have haffirms := affirms_tokens (x := x) h (("like" : Text) :: patternToken t :: rest)
  have hread : reader (some resolve) (Grammar.expression (some resolve) n) 3
      (x.tokens ++ ("like" : Text) :: patternToken t :: rest) = .ok ((like x t).expr, rest) := by
    change negation _ _ = _
    rw [negation_of_affirms haffirms, comparison_like hleft (Token.value?_quotedText _),
      likeTest_open]
    rfl
  rw [body, List.append_assoc]
  exact reader_mono (by omega) hread hrest.stops fun h => absurd h (by omega)

theorem reads_among {first : Phrase} {more : List Phrase} (hx : ReadsOperand resolve x)
    (hfirst : ReadsOperand resolve first) (hmore : ∀ y ∈ more, ReadsOperand resolve y ∧
      y.Valid (Means resolve)) (h : (among x first more).Valid (Means resolve)) :
    Reads resolve (among x first more) := by
  intro n rest hn hrest
  simp only [body, List.length_append, List.length_cons] at hn
  have hitems := items_tokens (n := n) more rest ⟨hfirst, h.2.1⟩ hmore
    (by simp only [tokens]; omega)
  generalize hlist : first.tokens ++ (bodies more ++ (")" : Text) :: rest) = list at hitems
  have hstops : Stops 2 (("in" : Text) :: ("(" : Text) :: list) := by
    intro u hu
    cases hu
    decide
  have hleft := hx.reader h.1 (n := n) (by simp only [tokens]; omega)
    (head_ne_of_ne (by decide) _) hstops
  have haffirms := affirms_tokens h.1 (("in" : Text) :: ("(" : Text) :: list)
  have hread : reader (some resolve) (Grammar.expression (some resolve) n) 3
      (x.tokens ++ ("in" : Text) :: ("(" : Text) :: list) =
        .ok ((among x first more).expr, rest) := by
    change negation _ _ = _
    rw [negation_of_affirms haffirms, comparison_in hleft hitems (List.cons_ne_nil _ _)]
    rfl
  have hbody : (among x first more).body ++ rest =
      x.tokens ++ ("in" : Text) :: ("(" : Text) :: list := by
    rw [← hlist, body]
    simp only [tokens, List.append_assoc, List.cons_append, List.nil_append]
  rw [hbody]
  exact reader_mono (by omega) hread hrest.stops fun h => absurd h (by omega)

theorem applied_facts (f : Applied) : Text.toLower f.name = f.name ∧ f.name ≠ ("(" : Text) ∧
    f.name ≠ ("-" : Text) ∧ f.name ≠ ("not" : Text) ∧ Token.isIdentifier f.name = true := by
  cases f <;> decide

theorem value?_name (f : Applied) : Token.value? f.name = none := by
  cases f <;> rfl

theorem build_name (f : Applied) (e : Expr) : ∃ fn, functions.lookup f.name = some fn ∧
    build f.name fn [e] = .ok (f.expr e) := by
  cases f <;> exact ⟨_, rfl, rfl⟩

theorem reads_applied {f : Applied} (hx : ReadsOperand resolve x)
    (h : (applied f x).Valid (Means resolve)) : Reads resolve (applied f x) := by
  intro n rest hn hrest
  simp only [body, List.length_append, List.length_cons] at hn
  obtain ⟨hlower, hparen, hminus, hnot, hname⟩ := applied_facts f
  obtain ⟨fn, hfn, hbuild⟩ := build_name f x.expr
  have hitems := items_tokens (n := n) [] rest ⟨hx, h⟩ nofun
    (by simp only [tokens, bodies, List.length_nil]; omega)
  have hargs : arguments (Grammar.expression (some resolve) n) f.name
      (x.tokens ++ (bodies [] ++ (")" : Text) :: rest)) = .ok ([x.expr], rest) := by
    have hopens := opens_tokens (x := x) h (bodies [] ++ (")" : Text) :: rest)
    generalize x.tokens ++ (bodies [] ++ (")" : Text) :: rest) = list at hitems hopens ⊢
    cases list with
    | nil => exact hitems
    | cons t ts =>
      have hstar := (hopens t rfl).star
      simp only [arguments, hstar, decide_false, Bool.false_and, Bool.false_eq_true, if_false]
      exact hitems
  have hread : reader (some resolve) (Grammar.expression (some resolve) n) 0
      (f.name :: ("(" : Text) :: (x.tokens ++ (bodies [] ++ (")" : Text) :: rest))) =
        .ok (f.expr x.expr, rest) := by
    change unary _ _ = _
    rw [unary_of_ne hminus]
    rw [← hlower] at hfn hargs hbuild
    exact primary_call hparen (value?_name f) hname hfn hargs hbuild
  rw [body, List.cons_append, List.cons_append, List.append_assoc]
  refine reader_mono (Nat.zero_le 5) hread hrest.stops fun _ t ht => ?_
  cases ht
  rwa [hlower]

theorem reads_countRows : Reads resolve countRows := by
  intro n rest hn hrest
  have hread : reader (some resolve) (Grammar.expression (some resolve) n) 0
      (("count" : Text) :: ("(" : Text) :: (")" : Text) :: rest) =
        .ok (.staticOf "Count" [], rest) := by
    change unary _ _ = _
    rw [unary_of_ne (by decide)]
    exact primary_call (by decide) rfl (by decide) rfl rfl rfl
  refine reader_mono (Nat.zero_le 5) hread hrest.stops fun _ t ht => ?_
  cases ht
  decide

/-! ### All phrases -/

theorem length_body_pos (x : Phrase) : 0 < x.body.length := by
  cases x with
  | int n => cases n <;> exact Nat.zero_lt_succ _
  | joined | among | like =>
    simp only [body, List.length_append, List.length_cons]
    omega
  | text | truth | null | reference | opposite | denial | applied | countRows =>
    exact Nat.zero_lt_succ _

/-- A phrase is read as an operand. -/
theorem Reads.operand (h : Reads resolve x) (hx : x.Valid (Means resolve)) :
    ReadsOperand resolve x := by
  cases x with
  | int n => exact readsOperand_int hx
  | text t => exact readsOperand_text t
  | truth b => exact readsOperand_truth b
  | null => exact readsOperand_null
  | reference p rowName member => exact readsOperand_reference hx
  | opposite | denial | joined | among | like | applied | countRows =>
    exact h.operand_of_not_isAtom rfl (length_body_pos _)

mutual

/-- **The tokens of a phrase are read as its expression.** -/
theorem reads : (x : Phrase) → x.Valid (Means resolve) → Reads resolve x
  | int _, h => (readsOperand_int h).reads_of_isAtom h rfl
  | text t, h => (readsOperand_text t).reads_of_isAtom h rfl
  | truth b, h => (readsOperand_truth b).reads_of_isAtom h rfl
  | null, h => readsOperand_null.reads_of_isAtom h rfl
  | reference .., h => (readsOperand_reference h).reads_of_isAtom h rfl
  | opposite x, h => reads_opposite ((reads x h.1).operand h.1) h
  | denial x, h => reads_denial ((reads x h).operand h) h
  | joined i l r, h => reads_joined i ((reads l h.1).operand h.1) ((reads r h.2).operand h.2) h
  | among x first more, h => reads_among ((reads x h.1).operand h.1)
    ((reads first h.2.1).operand h.2.1) (readsAll more h.2.2) h
  | like x _, h => reads_like ((reads x h).operand h) h
  | applied _ x, h => reads_applied ((reads x h).operand h) h
  | countRows, _ => reads_countRows

theorem readsAll : (xs : List Phrase) → AllValid (Means resolve) xs →
    ∀ y ∈ xs, ReadsOperand resolve y ∧ y.Valid (Means resolve)
  | [], _ => nofun
  | x :: xs, h => fun y hy => by
    rcases List.mem_cons.mp hy with heq | hy
    · rw [heq]
      exact ⟨(reads x h.1).operand h.1, h.1⟩
    · exact readsAll xs h.2 y hy

end

/-- The tokens of a phrase are parsed as its expression, with or without brackets around them. -/
theorem parse_tokens (h : x.Valid (Means resolve)) :
    parse (some resolve) x.tokens = .ok x.expr ∧ parse (some resolve) x.body = .ok x.expr := by
  have hpos := length_body_pos x
  have hreads := reads x h
  have hparse : ∀ ts, ts ≠ [] → Grammar.expression (some resolve) ts.length ts = .ok (x.expr, []) →
      parse (some resolve) ts = .ok x.expr := by
    intro ts hne hread
    rw [parse, if_neg (by simpa using hne), hread]
    rfl
  have htokens : 0 < x.tokens.length := by
    simp only [tokens, bracketed]
    split
    · exact hpos
    · exact Nat.zero_lt_succ _
  constructor
  · refine hparse _ (List.ne_nil_of_length_pos htokens) ?_
    have hread := (hreads.operand h).expression h (Nat.le_refl _) htokens closing_nil
    rwa [List.append_nil] at hread
  · refine hparse _ (List.ne_nil_of_length_pos hpos) ?_
    obtain ⟨n, hn⟩ : ∃ n, x.body.length = n + 1 := ⟨x.body.length - 1, by omega⟩
    have hread := hreads n [] (by omega) closing_nil
    rwa [← expression_succ, ← hn, List.append_nil] at hread

/-- A word that stands for a value is parsed as the value, and as its opposite behind a minus sign,
whatever names mean. -/
theorem parse_value (resolver : Option Resolver) {t : Token} {v : Value} (ht : IsPlain t)
    (hv : t.value? = some v) : parse resolver [t] = .ok (.value v) ∧
      parse resolver [("-" : Text), t] = .ok (negative (.value v)) := by
  have hread := fun n => @readsOperand_of_value resolver t v ht hv n []
  have hstops : Stops 5 [] := nofun
  constructor
  · have hall := reader_mono (Nat.zero_le 5) (hread 0) hstops fun _ u hu => by
      cases hu
      exact ht.denial
    rw [← expression_succ] at hall
    rw [parse, if_neg (by simp)]
    exact congrArg (· >>= _) hall
  · have hminus : reader resolver (Grammar.expression resolver 1) 0 [("-" : Text), t] = _ :=
      unary_minus (hread 1)
    have hall := reader_mono (Nat.zero_le 5) hminus hstops fun _ u hu => by
      cases hu
      decide
    rw [← expression_succ] at hall
    rw [parse, if_neg (by simp)]
    exact congrArg (· >>= _) hall

end Phrase

end QueryTree.Shell
