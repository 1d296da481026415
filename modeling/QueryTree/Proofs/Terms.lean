import QueryTree.Proofs.Marks
import QueryTree.Sql.Quoting

/-!
# Reading terms

A text of arithmetic is read the way SQL reads it. It is cut into words, operators and
parentheses, where blanks separate words and quoted segments are part of them. Then it is read from
left to right: `*`, `/` and `%` bind tighter than `+` and `-`, operators that bind equally group
from the left, and parentheses only group.

The reader keeps what waits for an operand on its right, at most one sum and one product for each
level of parentheses. So a part of a text can be read from any state, and what it does to the state
depends only on how tightly its outermost operator binds: a unit can be read everywhere, a product
where no product waits, and a sum where nothing does.

## Main definitions

* `Sql.Term`: trees of operators
* `Sql.symbols`, `Sql.readTerm?`: the reader
* `Sql.ReadsUnit`, `Sql.ReadsProduct`, `Sql.ReadsSum`: where symbols can be read
* `Sql.Lexes`: what a text is cut into

## Main results

* `Sql.ReadsSum.parens`, `Sql.ReadsProduct.operator`, `Sql.ReadsSum.operator`
* `Sql.readTerm?_of_lexes`: a text is read as its symbols are
-/

namespace QueryTree.Sql

/-- A tree of operators. -/
inductive Term (α : Type) where
  | leaf (a : α)
  | node (op : BinaryOp) (l r : Term α)
  deriving DecidableEq

namespace Term

variable {α β : Type}

/-- The tree with its leaves replaced. -/
def map (f : α → β) : Term α → Term β
  | leaf a => leaf (f a)
  | node op l r => node op (l.map f) (r.map f)

/-- The leaves of a tree from left to right. -/
def leaves : Term α → List α
  | leaf a => [a]
  | node _ l r => l.leaves ++ r.leaves

end Term

/-! ### Symbols -/

/-- What a text of arithmetic is cut into. -/
inductive Symbol where
  | word (t : Text)
  | operator (op : BinaryOp)
  | opening
  | closing
  deriving DecidableEq

/-- The symbol that a byte is alone. -/
def symbolOf? (b : UInt8) : Option Symbol :=
  if b = byte '(' then some .opening
  else if b = byte ')' then some .closing
  else if b = byte '+' then some (.operator .add)
  else if b = byte '-' then some (.operator .subtract)
  else if b = byte '*' then some (.operator .multiply)
  else if b = byte '/' then some (.operator .divide)
  else if b = byte '%' then some (.operator .modulo)
  else none

/-- The bytes that are symbols alone. -/
def symbolBytes : List UInt8 :=
  [byte '(', byte ')', byte '+', byte '-', byte '*', byte '/', byte '%']

theorem symbolOf?_eq_none_iff {b : UInt8} : symbolOf? b = none ↔ b ∉ symbolBytes := by
  constructor
  · intro h
    exact Text.not_mem_of_test (f := fun b => (symbolOf? b).isNone) (by decide) (by rw [h]; rfl)
  · intro hb
    simp only [symbolBytes, List.mem_cons, not_or] at hb
    simp only [symbolOf?, hb, if_false]

/-- A word in front of other symbols, if it is one. -/
def withWord (word : Text) (rest : List Symbol) : List Symbol :=
  if word.isEmpty then rest else .word word :: rest

/-- The symbols of a text behind the beginning of a word. The first `skip` bytes belong to a quoted
segment. -/
def symbolsFrom : (skip : Nat) → (word : Text) → Text → List Symbol
  | _, word, [] => withWord word []
  | skip + 1, word, b :: rest => symbolsFrom skip (word ++ [b]) rest
  | 0, word, b :: rest =>
    match quotedLength (b :: rest) with
    | n + 1 => symbolsFrom n (word ++ [b]) rest
    | 0 =>
      if b = byte ' ' then withWord word (symbolsFrom 0 [] rest)
      else match symbolOf? b with
        | some x => withWord word (x :: symbolsFrom 0 [] rest)
        | none => symbolsFrom 0 (word ++ [b]) rest

/-- The symbols of a text. -/
def symbols (t : Text) : List Symbol := symbolsFrom 0 [] t

/-! ### The reader -/

/-- Whether the operator binds tighter than a sum. -/
def bindsTightly : BinaryOp → Bool
  | .multiply | .divide | .modulo => true
  | _ => false

/-- What waits for an operand on its right: the left operand and the operator of a sum, and those of
a product. -/
structure Pending where
  sum : Option (Term Text × BinaryOp)
  product : Option (Term Text × BinaryOp)

/-- A state of the reader: what waits around open parentheses, what waits since then, and the
product that ends here, if one does. -/
structure TermState where
  around : List Pending
  here : Pending
  operand : Option (Term Text)

/-- The tree that ends with a right operand. -/
def complete (waiting : Option (Term Text × BinaryOp)) (r : Term Text) : Term Text :=
  match waiting with
  | some (l, op) => .node op l r
  | none => r

namespace TermState

/-- The state before anything is read. -/
def start : TermState := ⟨[], ⟨none, none⟩, none⟩

/-- The state after an operand. -/
def push (s : TermState) (x : Term Text) : TermState :=
  ⟨s.around, ⟨s.here.sum, none⟩, some (complete s.here.product x)⟩

/-- Reads one symbol. -/
def step (s : TermState) : Symbol → Option TermState
  | .word t => if s.operand.isSome then none else some (s.push (.leaf t))
  | .operator op =>
    match s.operand with
    | none => none
    | some x =>
      if bindsTightly op then some ⟨s.around, ⟨s.here.sum, some (x, op)⟩, none⟩
      else some ⟨s.around, ⟨some (complete s.here.sum x, op), none⟩, none⟩
  | .opening =>
    if s.operand.isSome then none else some ⟨s.here :: s.around, ⟨none, none⟩, none⟩
  | .closing =>
    match s.around, s.operand with
    | p :: ps, some x => some (push ⟨ps, p, none⟩ (complete s.here.sum x))
    | _, _ => none

/-- Reads symbols one after the other. -/
def run (s : TermState) : List Symbol → Option TermState
  | [] => some s
  | x :: xs => (s.step x).bind fun s => s.run xs

/-- The tree that has been read when nothing follows. -/
def finish? (s : TermState) : Option (Term Text) :=
  match s.around, s.operand with
  | [], some x => some (complete s.here.sum x)
  | _, _ => none

end TermState

open TermState

/-- The tree that a text of arithmetic is read as. -/
def readTerm? (t : Text) : Option (Term Text) := (start.run (symbols t)).bind finish?

example : readTerm? "[a + b].c - ? * (x - y) / ? - ?" =
    some (.node .subtract
      (.node .subtract (.leaf "[a + b].c")
        (.node .divide (.node .multiply (.leaf "?") (.node .subtract (.leaf "x") (.leaf "y")))
          (.leaf "?")))
      (.leaf "?")) := by
  decide

/-! ### Where symbols can be read -/

variable {xs ys : List Symbol} {x y : Term Text}

/-- The symbols are read as an operand from every state that has none. -/
def ReadsUnit (xs : List Symbol) (x : Term Text) : Prop :=
  ∀ around here, run ⟨around, here, none⟩ xs = some (push ⟨around, here, none⟩ x)

/-- The symbols are read as an operand from every state where no product waits. -/
def ReadsProduct (xs : List Symbol) (x : Term Text) : Prop :=
  ∀ around sum, run ⟨around, ⟨sum, none⟩, none⟩ xs = some ⟨around, ⟨sum, none⟩, some x⟩

/-- The symbols are read as a tree from every state where nothing waits. -/
def ReadsSum (xs : List Symbol) (x : Term Text) : Prop :=
  ∀ around, ∃ sum y, run ⟨around, ⟨none, none⟩, none⟩ xs = some ⟨around, ⟨sum, none⟩, some y⟩ ∧
    complete sum y = x

theorem run_append (s : TermState) (xs ys : List Symbol) :
    s.run (xs ++ ys) = (s.run xs).bind fun s => s.run ys := by
  induction xs generalizing s with
  | nil => rfl
  | cons x xs ih =>
    rw [List.cons_append, run, run]
    cases s.step x with
    | none => rfl
    | some s => exact ih s

theorem ReadsUnit.product (h : ReadsUnit xs x) : ReadsProduct xs x :=
  fun around sum => h around ⟨sum, none⟩

theorem ReadsProduct.sum (h : ReadsProduct xs x) : ReadsSum xs x :=
  fun around => ⟨none, x, h around none, rfl⟩

theorem readsUnit_word (t : Text) : ReadsUnit [.word t] (.leaf t) := fun _ _ => rfl

theorem ReadsSum.parens (h : ReadsSum xs x) :
    ReadsUnit (.opening :: (xs ++ [.closing])) x := by
  intro around here
  obtain ⟨sum, y, hrun, rfl⟩ := h (here :: around)
  show ((run ⟨here :: around, ⟨none, none⟩, none⟩ (xs ++ [.closing])) = _)
  rw [run_append, hrun]
  rfl

theorem ReadsProduct.operator {op : BinaryOp} (hop : bindsTightly op = true)
    (hx : ReadsProduct xs x) (hy : ReadsUnit ys y) :
    ReadsProduct (xs ++ .operator op :: ys) (.node op x y) := by
  intro around sum
  have hstep : step ⟨around, ⟨sum, none⟩, some x⟩ (.operator op) =
      some ⟨around, ⟨sum, some (x, op)⟩, none⟩ := by
    simp [step, hop]
  rw [run_append, hx around sum, Option.bind_some, run, hstep, Option.bind_some, hy]
  rfl

theorem ReadsSum.operator {op : BinaryOp} (hop : bindsTightly op = false)
    (hx : ReadsSum xs x) (hy : ReadsProduct ys y) :
    ReadsSum (xs ++ .operator op :: ys) (.node op x y) := by
  intro around
  obtain ⟨sum, z, hrun, rfl⟩ := hx around
  have hstep : step ⟨around, ⟨sum, none⟩, some z⟩ (.operator op) =
      some ⟨around, ⟨some (complete sum z, op), none⟩, none⟩ := by
    simp [step, hop]
  refine ⟨some (complete sum z, op), y, ?_, rfl⟩
  rw [run_append, hrun, Option.bind_some, run, hstep, Option.bind_some, hy]

/-! ### Texts and their symbols -/

/-- A text that ends a word: nothing, a blank, or a closing parenthesis. -/
def EndsWord (t : Text) : Prop := ∀ b ∈ t.head?, b = byte ' ' ∨ b = byte ')'

/-- The text is cut into the symbols, whatever ends its last word. -/
def Lexes (t : Text) (xs : List Symbol) : Prop :=
  ∀ rest, EndsWord rest → symbolsFrom 0 [] (t ++ rest) = xs ++ symbolsFrom 0 [] rest

/-- The text is part of one word, whatever stands before and behind it. -/
def Solid (t : Text) : Prop :=
  ∀ word rest, Fresh rest → symbolsFrom 0 word (t ++ rest) = symbolsFrom 0 (word ++ t) rest

theorem EndsWord.fresh {t : Text} (h : EndsWord t) : Fresh t := by
  intro b hb
  rcases h b hb with rfl | rfl <;> decide

theorem withWord_endsWord {rest : Text} (h : EndsWord rest) (word : Text) :
    symbolsFrom 0 word rest = withWord word (symbolsFrom 0 [] rest) := by
  cases rest with
  | nil => rfl
  | cons b rest =>
    have hb := h b rfl
    rcases hb with rfl | rfl <;> rfl

theorem Solid.lexes {t : Text} (h : Solid t) (hne : t ≠ []) : Lexes t [.word t] := by
  intro rest hrest
  rw [h [] rest hrest.fresh, List.nil_append, withWord_endsWord hrest, withWord]
  simp [hne]

theorem Solid.append {t u : Text} (ht : Solid t) (hu : Solid u) (hfresh : Fresh u)
    (hne : u ≠ []) : Solid (t ++ u) := by
  intro word rest hrest
  rw [List.append_assoc, ht word (u ++ rest) (hfresh.append_of_ne_nil hne rest),
    hu _ rest hrest, List.append_assoc]

/-- Bytes that neither quote nor separate, nor are symbols, are part of a word. -/
theorem symbolsFrom_append {t : Text} (h : ∀ b ∈ t, closer? b = none ∧ b ≠ byte ' ' ∧
    symbolOf? b = none) (word rest : Text) :
    symbolsFrom 0 word (t ++ rest) = symbolsFrom 0 (word ++ t) rest := by
  induction t generalizing word with
  | nil => simp
  | cons b t ih =>
    obtain ⟨hc, hb, hs⟩ := h b (by simp)
    have hquoted : quotedLength (b :: (t ++ rest)) = 0 := by simp [quotedLength, hc]
    rw [List.cons_append, symbolsFrom, hquoted]
    simp only [hb, if_false, hs]
    rw [ih (fun c hc => h c (by simp [hc])), List.append_assoc, List.singleton_append]

theorem solid_of_forall {t : Text} (h : ∀ b ∈ t, closer? b = none ∧ b ≠ byte ' ' ∧
    symbolOf? b = none) : Solid t :=
  fun word rest _ => symbolsFrom_append h word rest

theorem Solid.prepend {t u : Text} (hu : Solid u) (h : ∀ b ∈ t, closer? b = none ∧ b ≠ byte ' ' ∧
    symbolOf? b = none) : Solid (t ++ u) := by
  intro word rest hrest
  rw [List.append_assoc, symbolsFrom_append h, hu _ rest hrest, List.append_assoc]

theorem symbolsFrom_skip {q : Text} (word rest : Text) :
    symbolsFrom q.length word (q ++ rest) = symbolsFrom 0 (word ++ q) rest := by
  induction q generalizing word with
  | nil => simp
  | cons b q ih =>
    rw [List.length_cons, List.cons_append, symbolsFrom, ih, List.append_assoc,
      List.singleton_append]

/-- A quoted segment is part of a word. -/
theorem solid_of_quotedLength {q : Text} (hne : q ≠ [])
    (h : ∀ rest, Fresh rest → quotedLength (q ++ rest) = q.length) : Solid q := by
  intro word rest hrest
  obtain ⟨b, q, rfl⟩ := List.exists_cons_of_ne_nil hne
  have hl := h rest hrest
  rw [List.cons_append, List.length_cons] at hl
  rw [List.cons_append, symbolsFrom, hl]
  show symbolsFrom q.length (word ++ [b]) (q ++ rest) = _
  rw [symbolsFrom_skip, List.append_assoc, List.singleton_append]

theorem endsWord_cons_blank (t : Text) : EndsWord (" " ++ t) := by
  intro b hb
  cases hb
  exact .inl rfl

theorem Lexes.parens {t : Text} (h : Lexes t xs) :
    Lexes ("(" ++ t ++ ")") (.opening :: (xs ++ [.closing])) := by
  intro rest hrest
  have hclose : EndsWord (")" ++ rest) := by
    intro b hb
    cases hb
    exact .inr rfl
  have hopen : symbolsFrom 0 [] ("(" ++ (t ++ (")" ++ rest))) =
      .opening :: symbolsFrom 0 [] (t ++ (")" ++ rest)) := rfl
  have hlast : symbolsFrom 0 [] (")" ++ rest) = .closing :: symbolsFrom 0 [] rest := rfl
  rw [List.append_assoc, List.append_assoc, hopen, h _ hclose, hlast]
  simp

/-- What the operators of arithmetic are written as. -/
theorem Lexes.operator {op : BinaryOp} {token t u : Text}
    (hop : op ∈ [BinaryOp.add, .subtract, .multiply, .divide, .modulo])
    (htoken : op.token? = some token) (ht : Lexes t xs) (hu : Lexes u ys) :
    Lexes (t ++ token ++ u) (xs ++ .operator op :: ys) := by
  intro rest hrest
  have htail : ∀ rest, symbolsFrom 0 [] (token ++ rest) =
      .operator op :: symbolsFrom 0 [] rest := by
    intro rest
    simp only [List.mem_cons, List.not_mem_nil, or_false] at hop
    rcases hop with rfl | rfl | rfl | rfl | rfl <;> cases htoken <;> rfl
  have hblank : EndsWord (token ++ (u ++ rest)) := by
    simp only [List.mem_cons, List.not_mem_nil, or_false] at hop
    rcases hop with rfl | rfl | rfl | rfl | rfl <;> cases htoken <;> exact endsWord_cons_blank _
  rw [List.append_assoc, List.append_assoc, ht _ hblank, htail, hu rest hrest]
  simp

/-- **A text is read as its symbols are.** -/
theorem readTerm?_of_lexes {t : Text} (ht : Lexes t xs) (h : ReadsSum xs x) :
    readTerm? t = some x := by
  have hsymbols : symbols t = xs := by
    have hnil := ht [] nofun
    simpa [symbols, symbolsFrom, withWord] using hnil
  obtain ⟨sum, y, hrun, rfl⟩ := h []
  rw [readTerm?, hsymbols, start, hrun]
  rfl

end QueryTree.Sql
