import Mathlib.Logic.Relation
import QueryTree.Proofs.Clauses
import QueryTree.Proofs.Closed
import QueryTree.Proofs.RawNames
import QueryTree.Proofs.StatementMarks
import QueryTree.Sample.Conditions

/-!
# Comments in compiled texts

Two hyphens open a comment, and so do a slash and a star. No token of the dialects is one of them
and every operator stands between blanks, so a comment can only begin where a minus sign is written
in front of a text that begins with one. Names are quoted or plain, values are marks, and a quoted
segment may hold what it likes.

A minus sign is written in front of the operand of a negation, and only operators are put in
parentheses there. So the negation of a negation begins a comment, and so does the negation of
whatever passes a negation on as its first text: a conversion, a quote, a conditional that is
decided, the body of an invocation. `Expr.leading` lists what an expression may begin with, and
`Expr.MinusesApart` rules out that this is a negation where a minus sign is put in front.

## Main definitions

* `Sql.holdsComment`: a comment opens outside quoted segments
* `Sql.Quiet`: texts in which no comment opens
* `Expr.Reaches`, `Expr.Leads`: what an expression is rendered from, and what its text begins with
* `Expr.MinusesApart`

## Main results

* `Sql.quiet_negate`: negation opens no comment
* `holdsComment_compile`: no comment in what a clause compiles to
* `holdsComment_of_negated_twice`: a negation of a negation that does not fold opens a comment
-/

namespace QueryTree

namespace Sql

/-- A comment opens at the start of the text. -/
def opensComment (t : Text) : Bool := t.hasPrefix "--" || t.hasPrefix "/*"

/-- Whether a comment opens in the text after its first `skip` bytes. -/
def holdsCommentFrom : (skip : Nat) → Text → Bool
  | _, [] => false
  | skip + 1, _ :: rest => holdsCommentFrom skip rest
  | 0, b :: rest =>
    match quotedLength (b :: rest) with
    | n + 1 => holdsCommentFrom n rest
    | 0 => opensComment (b :: rest) || holdsCommentFrom 0 rest

/-- Whether a comment opens in the text outside quoted segments. -/
def holdsComment (t : Text) : Bool := holdsCommentFrom 0 t

@[simp]
theorem holdsComment_nil : holdsComment [] = false := rfl

theorem holdsCommentFrom_eq (k : Nat) (t : Text) :
    holdsCommentFrom k t = holdsComment (t.drop k) := by
  induction t generalizing k with
  | nil => cases k <;> rfl
  | cons b t ih =>
    cases k with
    | zero => rfl
    | succ k => simpa [holdsCommentFrom] using ih k

theorem holdsComment_cons {b : UInt8} (hb : closer? b = none) (t : Text) :
    holdsComment (b :: t) = (opensComment (b :: t) || holdsComment t) := by
  have h : quotedLength (b :: t) = 0 := by simp [quotedLength, hb]
  rw [holdsComment, holdsCommentFrom]
  simp only [h]
  rfl

/-- No comment opens in a quoted segment. -/
theorem holdsComment_quoted {q rest : Text} (hq : q ≠ [])
    (h : quotedLength (q ++ rest) = q.length) : holdsComment (q ++ rest) = holdsComment rest := by
  obtain ⟨b, q, rfl⟩ := List.exists_cons_of_ne_nil hq
  rw [List.cons_append] at h ⊢
  rw [holdsComment, holdsCommentFrom]
  simp only [h, List.length_cons]
  rw [holdsCommentFrom_eq, List.drop_left]

/-- A comment is opened by a hyphen in front of a hyphen, or by a slash in front of a star. -/
theorem opensComment_cons (b : UInt8) (t : Text) : opensComment (b :: t) =
    (b == 45 && t.head? == some 45 || b == 47 && t.head? == some 42) := by
  have hyphens : Text.ofString "--" = [45, 45] := by decide
  have slash : Text.ofString "/*" = [47, 42] := by decide
  cases t with
  | nil => simp [opensComment, hyphens, slash, Text.hasPrefix, List.isPrefixOf]
  | cons c t =>
    simp [opensComment, hyphens, slash, Text.hasPrefix, List.isPrefixOf, eq_comm,
      Bool.beq_eq_decide_eq]

/-! ### Calm texts

A text may be calm by itself and still open a comment together with what follows it: a hyphen at its
end may be followed by another. Calm texts rule this out. -/

/-- No byte of the text opens quotes, and no hyphen or slash in it begins a comment, whatever
follows the text. -/
def isCalm : Text → Bool
  | [] => true
  | b :: w => closer? b == none &&
      (b != 45 && b != 47 || w.head?.any fun c => c != 45 && c != 42) && isCalm w

theorem isCalm_cons {b : UInt8} {w : Text} : isCalm (b :: w) = true ↔ closer? b = none ∧
    (b ≠ 45 ∧ b ≠ 47 ∨ ∃ c ∈ w.head?, c ≠ 45 ∧ c ≠ 42) ∧ isCalm w = true := by
  simp [isCalm, and_assoc, Option.any_eq_true]

theorem head?_append_of_mem {w : Text} {c : UInt8} (h : c ∈ w.head?) (rest : Text) :
    (w ++ rest).head? = some c := by
  rw [List.head?_append, h]
  rfl

theorem isCalm_append {a b : Text} (ha : isCalm a = true) (hb : isCalm b = true) :
    isCalm (a ++ b) = true := by
  induction a with
  | nil => exact hb
  | cons x a ih =>
    obtain ⟨hx, hnext, ha⟩ := isCalm_cons.mp ha
    refine isCalm_cons.mpr ⟨hx, hnext.imp_right ?_, ih ha⟩
    rintro ⟨c, hc, hne⟩
    exact ⟨c, head?_append_of_mem hc b, hne⟩

theorem isCalm_of_bytes {t : Text} (h : ∀ b ∈ t, closer? b = none ∧ b ≠ 45 ∧ b ≠ 47) :
    isCalm t = true := by
  induction t with
  | nil => rfl
  | cons b t ih =>
    obtain ⟨hb, hne⟩ := h b (by simp)
    exact isCalm_cons.mpr ⟨hb, .inl hne, ih fun c hc => h c (by simp [hc])⟩

/-- A calm text opens no comment, also not together with what follows it. -/
theorem holdsComment_calm {w : Text} (h : isCalm w = true) (rest : Text) :
    holdsComment (w ++ rest) = holdsComment rest := by
  induction w with
  | nil => rfl
  | cons b w ih =>
    obtain ⟨hb, hnext, hw⟩ := isCalm_cons.mp h
    have hno : opensComment (b :: (w ++ rest)) = false := by
      rw [opensComment_cons]
      rcases hnext with ⟨h₁, h₂⟩ | ⟨c, hc, h₁, h₂⟩
      · simp [h₁, h₂]
      · have hhead : (w ++ rest).head? = some c := head?_append_of_mem hc rest
        simp [hhead, h₁, h₂]
    rw [List.cons_append, holdsComment_cons hb, hno, ih hw, Bool.false_or]

/-! ### Quiet texts

Quiet is what the texts of values and conditions are. They may hold quoted segments, and what
follows must not continue these. -/

/-- No comment opens in the text, whatever follows the text and does not continue it. -/
def Quiet (t : Text) : Prop :=
  ∀ rest, Fresh rest → rest.head? ≠ some 45 → holdsComment (t ++ rest) = holdsComment rest

variable {a b w t : Text}

theorem Quiet.holdsComment_eq (h : Quiet t) : holdsComment t = false := by
  simpa using h [] fresh_nil (by simp)

theorem quiet_of_isCalm (h : isCalm w = true) : Quiet w := fun rest _ _ => holdsComment_calm h rest

theorem quiet_nil : Quiet [] := quiet_of_isCalm rfl

/-- Whether a calm text ends what stands before it and is no minus sign. -/
def isCut (w : Text) : Bool := w.head?.any (fun b => isFreshByte b && b != 45) && isCalm w

theorem isCut_iff : isCut w = true ↔
    ∃ b u, w = b :: u ∧ isFreshByte b = true ∧ b ≠ 45 ∧ isCalm w = true := by
  cases w with
  | nil => simp [isCut]
  | cons b u => simp [isCut, and_assoc]

/-- Behind a cut anything may follow. -/
theorem Quiet.append_cut (ha : Quiet a) (hw : isCut w = true) (rest : Text) :
    holdsComment (a ++ (w ++ rest)) = holdsComment rest := by
  obtain ⟨b, u, rfl, hfresh, hne, hcalm⟩ := isCut_iff.mp hw
  rw [ha _ (Fresh.append_of_ne_nil (fresh_cons.mpr hfresh) (List.cons_ne_nil b u) rest)
    (by simpa using hne), holdsComment_calm hcalm]

theorem Quiet.cut (ha : Quiet a) (hw : isCut w = true) : Quiet (a ++ w) := by
  intro rest _ _
  rw [List.append_assoc, ha.append_cut hw]

theorem Quiet.join (ha : Quiet a) (hw : isCut w = true) (hb : Quiet b) : Quiet (a ++ w ++ b) := by
  intro rest hrest hne
  rw [List.append_assoc, List.append_assoc, ha.append_cut hw, hb rest hrest hne]

theorem Quiet.after (hw : isCalm w = true) (ha : Quiet a) : Quiet (w ++ a) := by
  intro rest hrest hne
  rw [List.append_assoc, holdsComment_calm hw, ha rest hrest hne]

theorem Quiet.enclose (hb : isCalm b = true) (ha : Quiet a) (hw : isCut w = true) :
    Quiet (b ++ a ++ w) :=
  (Quiet.after hb ha).cut hw

/-- A minus sign opens no comment in front of a text that does not begin with one. -/
theorem Quiet.minus (h : Quiet t) (ht : t.head? ≠ some 45) : Quiet ("-" ++ t) := by
  intro rest hrest hne
  have hhead : (t ++ rest).head? ≠ some 45 := by
    cases t with
    | nil => exact hne
    | cons c t => exact ht
  show holdsComment (45 :: (t ++ rest)) = holdsComment rest
  have hno : opensComment (45 :: (t ++ rest)) = false := by
    rw [opensComment_cons, beq_eq_false_iff_ne.mpr hhead]
    rfl
  rw [holdsComment_cons (by decide), hno, h rest hrest hne, Bool.false_or]

/-- Two minus signs open a comment. -/
theorem holdsComment_minus_minus (t : Text) : holdsComment ("-" ++ ("-" ++ t)) = true := by
  show holdsComment (45 :: 45 :: t) = true
  rw [holdsComment_cons (by decide), opensComment_cons]
  rfl

theorem quiet_enclose (u : Text) : Quiet (Sql.enclose 39 39 u) := fun _ hrest _ =>
  holdsComment_quoted (List.cons_ne_nil _ _)
    (quotedLength_enclose (by decide) u (hrest.head?_ne (by decide)))

/-! ### Negation

Negation rewrites tokens outside quoted segments, and both a token and its complement are calm. -/

/-- Two texts that begin alike and open the same comments. -/
def OpensAlike (t t' : Text) : Prop :=
  t.head? = t'.head? ∧ ∀ rest, holdsComment (t ++ rest) = holdsComment (t' ++ rest)

theorem head?_append_congr {t t' : Text} (h : t.head? = t'.head?) (rest : Text) :
    (t ++ rest).head? = (t' ++ rest).head? := by
  rw [List.head?_append, List.head?_append, h]

theorem isCalm_of_map_lowerByte (h : isCalm (w.map Text.lowerByte) = true) : isCalm w = true := by
  have hbyte : ∀ c b : UInt8, Text.lowerByte c = c → Text.lowerByte b ≠ c → b ≠ c := by
    rintro c b hc hb rfl
    exact hb hc
  induction w with
  | nil => rfl
  | cons b w ih =>
    obtain ⟨hb, hnext, hw⟩ := isCalm_cons.mp h
    rw [closer?_lowerByte] at hb
    refine isCalm_cons.mpr ⟨hb, ?_, ih hw⟩
    rcases hnext with ⟨h₁, h₂⟩ | ⟨c, hc, h₁, h₂⟩
    · exact .inl ⟨hbyte 45 b (by decide) h₁, hbyte 47 b (by decide) h₂⟩
    · rw [List.head?_map, Option.mem_def, Option.map_eq_some_iff] at hc
      obtain ⟨d, hd, rfl⟩ := hc
      exact .inr ⟨d, hd, hbyte 45 d (by decide) h₁, hbyte 42 d (by decide) h₂⟩

/-- Tokens and their complements begin with a blank and are calm. -/
theorem negations_calm {x : Text × Text} (hx : x ∈ negations) :
    x.1.head? = some 32 ∧ x.2.head? = some 32 ∧ isCalm (x.1.map Text.lowerByte) = true ∧
      isCalm x.2 = true := by
  have hall : ∀ x ∈ negations, x.1.head? = some 32 ∧ x.2.head? = some 32 ∧
      isCalm (x.1.map Text.lowerByte) = true ∧ isCalm x.2 = true := by decide
  exact hall x hx

theorem rewriting_opensAlike : Rewriting OpensAlike where
  nil := ⟨rfl, fun _ => rfl⟩
  copy := by
    rintro b t t' hb ⟨hhead, h⟩
    refine ⟨rfl, fun rest => ?_⟩
    rw [List.cons_append, List.cons_append, holdsComment_cons hb, holdsComment_cons hb,
      opensComment_cons, opensComment_cons, h, head?_append_congr hhead]
  quoted := by
    rintro q t t' hne hq ⟨hhead, h⟩
    refine ⟨?_, fun rest => ?_⟩
    · obtain ⟨b, q, rfl⟩ := List.exists_cons_of_ne_nil hne
      rfl
    · cases t with
      | nil =>
        obtain rfl : t' = [] := by simpa [eq_comm] using hhead
        rfl
      | cons b u =>
        obtain ⟨u', rfl⟩ := List.head?_eq_some_iff.mp hhead.symm
        rw [List.append_assoc, List.append_assoc, List.cons_append, List.cons_append,
          holdsComment_quoted hne (quotedLength_append_cons (u ++ rest) hne hq),
          holdsComment_quoted hne (quotedLength_append_cons (u' ++ rest) hne hq)]
        exact h rest
  token := by
    rintro x w t t' hx hw ⟨-, h⟩
    obtain ⟨hhead, hhead', hcalm, hcalm'⟩ := negations_calm hx
    rw [← hw] at hcalm
    have hwhead : w.head? = some 32 := by
      have hmap := congrArg List.head? hw
      rw [List.head?_map, List.head?_map, hhead, Option.map_some, Option.map_eq_some_iff] at hmap
      obtain ⟨b, hb, hlower⟩ := hmap
      rw [hb, eq_blank_of_lowerByte hlower]
    refine ⟨?_, fun rest => ?_⟩
    · rw [head?_append_of_mem hwhead t, head?_append_of_mem hhead' t']
    · rw [List.append_assoc, List.append_assoc, holdsComment_calm (isCalm_of_map_lowerByte hcalm),
        holdsComment_calm hcalm', h]

/-- **Negation opens no comment.** -/
theorem quiet_negate (h : Quiet t) : Quiet (negate t) := by
  intro rest hrest hne
  rw [← (rewriting_opensAlike.negate t).2, h rest hrest hne]

end Sql

/-! ### Emitted texts

The kinds of texts are quiet ones, so the theorem on texts of a kind speaks about comments. -/

section Kinds

open Sql

variable {st : Settings} {v t : Text}

theorem isCalm_of_nameBytes (h : v.all isNameByte = true) : isCalm v = true := by
  refine isCalm_of_bytes fun b hb => ?_
  have hb := Text.not_mem_of_test (l := openers ++ [45, 47]) (by decide)
    (List.all_eq_true.mp h b hb)
  simpa [closer?_eq_none_iff] using hb

theorem isCalm_of_native (h : Raw.Native t) : isCalm t = true := by
  refine isCalm_of_bytes fun b hb => ?_
  have hb := Text.not_mem_of_test (f := fun b => !Raw.isForeign b) (l := openers ++ [45, 47])
    (by decide) (by rw [h b hb]; rfl)
  simpa [closer?_eq_none_iff] using hb

theorem isCalm_placeholder (d : Dialect) (n : Nat) :
    isCalm (d.profile.placeholder (n + 1)) = true := by
  have hdigits : isCalm (Text.ofNat (n + 1)) = true :=
    isCalm_of_nameBytes (all_isNameByte_ofNat (n + 1))
  cases d with
  | sqlServer => exact isCalm_append (a := "@p") (by decide) hdigits
  | postgres => exact isCalm_append (a := "$") (by decide) hdigits
  | oracle => exact isCalm_append (a := ":") (by decide) hdigits
  | mySql | sqlite => exact (by decide : isCalm "?" = true)

theorem quiet_ident (h : (Lexicon.plain st.quoted).Alias v) : Quiet (st.ident v) := by
  unfold Settings.ident
  split
  · intro rest hrest _
    exact holdsComment_quoted (quoteIdent_ne_nil st.dialect v)
      (quotedLength_quoteIdent st.dialect v hrest)
  · rename_i hq
    rcases h with rfl | h | h
    · exact quiet_nil
    · exact absurd h hq
    · exact quiet_of_isCalm (isCalm_of_nameBytes h)

theorem quiet_word (h : t ∈ valueWords) : Quiet t := by
  have hall : ∀ t ∈ valueWords,
      isCalm t = true ∨ t = Sql.enclose 39 39 [37] ∨ t = Sql.enclose 39 39 [] := by
    decide
  rcases hall t h with hi | rfl | rfl
  · exact quiet_of_isCalm hi
  · exact quiet_enclose [37]
  · exact quiet_enclose []

theorem isCalm_function {f : Text} (h : f ∈ functionNames) : isCalm (f ++ "(") = true := by
  have hall : ∀ f ∈ functionNames, isCalm (f ++ "(") = true := by decide
  exact hall f h

/-- Values and conditions are quiet, if no minus sign is written in front of another. -/
def quietKinds (st : Settings) : TextKinds st (.plain st.quoted) where
  Value _ _ := Quiet
  Condition _ _ t := Quiet t ∧ t ≠ []
  Unsigned t := t.head? ≠ some 45
  word := quiet_word
  mark := quiet_of_isCalm (isCalm_placeholder st.dialect _)
  column ha hc := (quiet_ident ha).join (by decide) (quiet_ident (.inr hc))
  bare hc := quiet_ident (.inr hc)
  raw hf hraw _ := (quiet_of_isCalm (isCalm_of_native (Raw.native_of_isField
    (Emit.isField_of_isItem hraw)))).enclose (isCalm_function hf) (by decide)
  apply hf h hne := (h.join (fun ha hb => Quiet.join ha (by decide) hb) hne).enclose
    (isCalm_function hf) (by decide)
  op {_ _ _ _ sep _} hs ha hb := by
    have hall : ∀ sep ∈ valueOperators, isCut sep = true := by decide
    exact Quiet.join ha (hall sep hs) hb
  minus := Quiet.minus
  unsigned_parens t := by
    show ("(" ++ t ++ ")" : Text).head? ≠ some 45
    simp [show ("(" : Text) = [40] by decide]
  choice hc ha hb := (((hc.1.after (by decide)).join (by decide) ha).join (by decide) hb).cut
    (by decide)
  counted hc := hc.1.enclose (by decide) (by decide)
  compare {_ _ _ _ token _} ht ha hb := by
    have hall : ∀ token ∈ comparisonTokens, isCut token = true := by decide
    exact ⟨Quiet.join ha (hall token ht) hb, ne_nil_of_tokens (.inl ht)⟩
  group hc := ⟨hc.1.enclose (by decide) (by decide), by simp [show ("(" : Text) = [40] by decide]⟩
  join {_ _ _ _ token _} ht ha hb := by
    have hall : ∀ token ∈ logicalTokens, isCut token = true := by decide
    exact ⟨Quiet.join ha.1 (hall token ht) hb.1, ne_nil_of_tokens (.inr ht)⟩
  negate hc := ⟨quiet_negate hc.1, negate_ne_nil hc.2⟩
  ne_nil hc := hc.2

theorem quiet_item {n m : Nat}
    (h : ItemText st (.plain st.quoted) (quietKinds st).Value n m t) : Quiet t := by
  induction h with
  | value h => exact h
  | named h hv => exact Quiet.join h (by decide) (quiet_ident (.inr hv))
  | columns ha => exact (quiet_ident ha).cut (by decide)
  | raw h =>
    exact quiet_of_isCalm (isCalm_of_native (h.elim Raw.native_of_isField Raw.native_of_isOrder))
  | directed _ d ih => exact ih.join (by decide) (quiet_of_isCalm (by cases d <;> decide))

/-- What quiet values and conditions make up in a clause is quiet. -/
theorem clauseTexts_quiet (st : Settings) : ClauseTexts (quietKinds st) fun _ _ => Quiet where
  nil _ := quiet_nil
  name _ hv := quiet_ident (.inr hv)
  value h := h
  join hsep ha hb := by
    have hall : ∀ sep ∈ rowSeparators, isCut sep = true := by decide
    exact Quiet.join ha (hall _ hsep) hb
  enclose hxy h := by
    have hall : ∀ xy ∈ rowBrackets, isCalm xy.1 = true ∧ isCut xy.2 = true := by decide
    exact h.enclose (hall _ hxy).1 (hall _ hxy).2
  condition h := h.1
  item := quiet_item

end Kinds

/-! ### Minus signs

The minus sign is the only text that may open a comment together with what it is written in front
of. So one has to know what a text begins with. -/

namespace Expr

/-- The expressions that the text of an expression may begin with. -/
def leading : Expr → List Expr
  | binary _ l _ => [l]
  | unary .convert e _ | unary .quote e _ | lambda e _ => [e]
  | cond _ a b => [a, b]
  | invoke target args => (inline target args).toOption.toList
  | _ => []

/-- The expression is rendered for the first one, or for what is inlined into it. -/
def Reaches : Expr → Expr → Prop := Relation.ReflTransGen fun e y => y ∈ e.parts

/-- The text of the first expression may begin with that of the second. -/
def Leads : Expr → Expr → Prop := Relation.ReflTransGen fun e y => y ∈ e.leading

/-- The text of the expression does not begin with that of a negation. -/
def Unsigned (e : Expr) : Prop := ∀ y t, ¬ e.Leads (unary .negate y t)

/-- What is negated anywhere in the expression is an operator, and in parentheses then, or its text
does not begin with that of a negation. -/
def MinusesApart (e : Expr) : Prop :=
  ∀ x t, e.Reaches (unary .negate x t) → x.isBinary = true ∨ x.Unsigned

theorem unsigned_iff {e : Expr} :
    e.Unsigned ↔ (∀ y t, e ≠ unary .negate y t) ∧ ∀ y ∈ e.leading, y.Unsigned := by
  constructor
  · intro h
    exact ⟨fun y t he => h y t (he ▸ .refl), fun y hy x t hx => h x t (.head hy hx)⟩
  · rintro ⟨hne, h⟩ y t hy
    rcases Relation.ReflTransGen.cases_head hy with he | ⟨z, hz, hy⟩
    · exact hne y t he
    · exact h z hz y t hy

/-- Minus signs are apart if they are in every part, and where a minus sign is written here. -/
theorem minusesApart_iff {e : Expr} : e.MinusesApart ↔
    (∀ x t, e = unary .negate x t → x.isBinary = true ∨ x.Unsigned) ∧
      ∀ y ∈ e.parts, y.MinusesApart := by
  constructor
  · intro h
    exact ⟨fun x t he => h x t (he ▸ .refl), fun y hy x t hx => h x t (.head hy hx)⟩
  · rintro ⟨hself, h⟩ x t hx
    rcases Relation.ReflTransGen.cases_head hx with he | ⟨z, hz, hx⟩
    · exact hself x t he
    · exact h z hz x t hx

theorem Unsigned.leading {e y : Expr} (h : e.Unsigned) (hy : y ∈ e.leading) : y.Unsigned :=
  fun x t hx => h x t (.head hy hx)

theorem MinusesApart.parts {e y : Expr} (h : e.MinusesApart) (hy : y ∈ e.parts) :
    y.MinusesApart :=
  fun x t hx => h x t (.head hy hx)

end Expr

namespace Rendering

open Emit Sql

variable {st : Settings} {l r : Rendering} {m : Emit Text} {c : Clause}

/-- No text that the emitter emits begins with a minus sign. -/
abbrev Unsigned (st : Settings) (m : Emit Text) : Prop := TakesMinus (quietKinds st) m

/-- The value of the rendering does not begin with a minus sign, and neither does its first
addend. -/
structure OpensPlainly (st : Settings) (r : Rendering) : Prop where
  value : ∀ c, Unsigned st (r.value c)
  addends : ∃ m ms, r.addends = m :: ms ∧ ∀ c, Unsigned st (m c)

theorem unsigned_of_not_yields (h : ∀ s t s', ¬ Yields m s t s') : Unsigned st m :=
  fun s t s' _ hy => absurd hy (h s t s')

theorem unsigned_fail {e : CompileError} : Unsigned st (fail e) :=
  unsigned_of_not_yields fun _ _ _ => not_yields_fail

theorem unsigned_unsupported {e : Expr} : Unsigned st (Emit.unsupported e c) :=
  unsigned_of_not_yields fun _ _ _ => not_yields_unsupported

/-- A text that begins with no minus sign may be continued by what does not begin with one. -/
theorem head?_append_ne {a b : Text} (ha : a.head? ≠ some 45) (hb : b.head? ≠ some 45) :
    (a ++ b).head? ≠ some 45 := by
  cases a with
  | nil => exact hb
  | cons x a => exact ha

theorem unsigned_enclose {x y : Text} (hx : x ≠ []) (hx' : x.head? ≠ some 45) :
    Unsigned st (enclose x m y) := by
  intro s t s' _ hy
  obtain ⟨a, -, rfl⟩ := yields_enclose.mp hy
  obtain ⟨b, u, rfl⟩ := List.exists_cons_of_ne_nil hx
  exact hx'

theorem unsigned_truthCase : Unsigned st (truthCase m) := unsigned_enclose (by decide) (by decide)

theorem head?_placeholder_ne (d : Dialect) (n : Nat) :
    (d.profile.placeholder (n + 1)).head? ≠ some 45 := by
  rcases marker_cases d with hm | ⟨lead, b, u, hm, hlead, hb, -⟩
  · simp only [Profile.placeholder, hm]
    decide
  · simp only [Profile.placeholder, hm, hlead]
    show some b ≠ some 45
    rintro h
    cases h
    cases hb

theorem unsigned_constantValue (v : Value) : Unsigned st (constantValue st v) := by
  intro s t s' _ hy
  unfold constantValue at hy
  split at hy
  · obtain ⟨rfl, -⟩ := yields_pure.mp hy
    exact (by decide : ("NULL" : Text).head? ≠ some 45)
  · obtain ⟨rfl, -⟩ := yields_placeholder.mp hy
    exact head?_placeholder_ne st.dialect s.params.length

theorem unsigned_folding {e : Expr} (h : Unsigned st m) :
    Unsigned st (folding st e (constantValue st) m) := by
  intro s t s' hs hy
  rcases yields_folding.mp hy with ⟨v, -, hv⟩ | ⟨-, hm⟩
  · exact unsigned_constantValue v s t s' hs hv
  · exact h s t s' hs hm

theorem unsigned_grouped (h : Unsigned st m) (parens : Bool) : Unsigned st (grouped parens m) := by
  cases parens with
  | true => exact takesMinus_parens m
  | false => exact h

theorem unsigned_join {m' : Emit Text} {sep : Text} (h : Unsigned st m)
    (hsep : sep ≠ []) (hsep' : sep.head? ≠ some 45) : Unsigned st (join m sep m') := by
  intro s t s' hs hy
  obtain ⟨a, s₁, b, ha, -, rfl⟩ := yields_join.mp hy
  obtain ⟨x, u, rfl⟩ := List.exists_cons_of_ne_nil hsep
  rw [List.append_assoc]
  exact head?_append_ne (h s a s₁ hs ha) hsep'

/-! ### Columns

The name of a column is plain or quoted, and in neither case begins with a hyphen. -/

theorem head?_ident_ne {v : Text} (h : (Lexicon.plain st.quoted).Alias v) :
    (st.ident v).head? ≠ some 45 := by
  unfold Settings.ident
  split
  · unfold Settings.profile
    cases st.dialect <;> exact (by rintro ⟨⟩)
  · rename_i hq
    rcases h with rfl | h | h
    · exact (by decide : ([] : Text).head? ≠ some 45)
    · exact absurd h hq
    · intro hhead
      obtain ⟨u, rfl⟩ := List.head?_eq_some_iff.mp hhead
      cases (List.all_eq_true.mp h 45 List.mem_cons_self)

theorem unsigned_columnOf {rawOf inlined : Expr → Prop} {e : Expr}
    (h : e.NamedWith st (.plain st.quoted) rawOf inlined) : Unsigned st (columnOf st c e) := by
  fun_cases columnOf st c e with
  | case1 p name _ _ =>
    intro s t s' hs hy
    simp only [yields_bind, yields_setPending, yields_pure] at hy
    obtain ⟨⟨t, col⟩, s₁, hcol, _, _, rfl, rfl, rfl⟩ := hy
    simp only [column, yields_bind, yields_row] at hcol
    obtain ⟨⟨e, name⟩, s₁, ⟨he, hname, rfl⟩, hcol⟩ := hcol
    simp only at he hname hcol
    subst hname
    obtain ⟨halias, hentity⟩ := h
    obtain ⟨htable, -, hcolumns⟩ := hentity e he
    obtain ⟨ha, -⟩ := hs.bind halias fun hname => .inr (htable hname)
    split at hcol
    · exact absurd hcol not_yields_fail
    · rename_i c hc
      have hcol' : (st.ident c.name).head? ≠ some 45 :=
        head?_ident_ne (.inr (hcolumns c (List.mem_of_find?_eq_some hc)))
      split at hcol
      · obtain ⟨ht, -⟩ := yields_pure.mp hcol
        cases ht
        exact hcol'
      · obtain ⟨ht, -⟩ := yields_pure.mp hcol
        cases ht
        rw [List.append_assoc]
        exact head?_append_ne (head?_ident_ne ha) (by rintro ⟨⟩)
  | case2 e n t o name _ _ hif column =>
    intro s text s' hs hy
    simp only [yields_bind, yields_enclose, yields_setPending, yields_pure] at hy
    obtain ⟨_, s₁, ⟨t', ht', rfl⟩, _, s₂, rfl, rfl, rfl⟩ := hy
    unfold Settings.profile
    cases st.dialect <;> exact (by rintro ⟨⟩)
  | case3 => exact unsigned_fail
  | case4 => exact unsigned_unsupported

/-! ### Operators and calls

An operator begins with its left operand, and a call with the name of a function or with a mark. -/

theorem opensPlainly_scalar {e : Expr} {value condition : Clause → Emit Text} {isTest : Bool}
    {addends : Option (List (Clause → Emit Text))} (hv : ∀ c, Unsigned st (value c))
    (ha : ∀ l, addends = some l → ∃ m ms, l = m :: ms ∧ ∀ c, Unsigned st (m c)) :
    OpensPlainly st (scalar st e value condition isTest addends) := by
  have folded : ∀ c, Unsigned st (folding st e (constantValue st) (value c)) :=
    fun c => unsigned_folding (hv c)
  refine ⟨folded, ?_⟩
  cases addends with
  | none => exact ⟨_, [], rfl, folded⟩
  | some l => exact ha l rfl

theorem opensPlainly_unsupported (e : Expr) : OpensPlainly st (unsupported st e) :=
  ⟨fun _ => unsigned_unsupported, _, [], rfl, fun _ => unsigned_unsupported⟩

/-- A concatenation begins with its first addend, or with the function that concatenates. -/
theorem head?_concatAll_ne {p : Profile} {t : Text} {ts : List Text} (ht : t.head? ≠ some 45) :
    (p.concatAll (t :: ts)).head? ≠ some 45 := by
  have joined : ∀ sep : Text, (∃ b u, sep = b :: u ∧ b ≠ 45) →
      (Text.join sep (t :: ts)).head? ≠ some 45 := by
    rintro _ ⟨b, v, rfl, hb⟩
    cases ts with
    | nil => simpa [Text.join] using ht
    | cons u us =>
      rw [Text.join_cons_cons, List.append_assoc]
      exact head?_append_ne ht (by simpa using hb)
  unfold Profile.concatAll
  split
  · rintro ⟨⟩
  · exact joined " || " ⟨32, _, rfl, by decide⟩
  · exact joined " + " ⟨32, _, rfl, by decide⟩

theorem opensPlainly_addends (hl : OpensPlainly st l) : ∃ m ms, l.addends ++ r.addends = m :: ms ∧
    ∀ c, Unsigned st (m c) := by
  obtain ⟨m, ms, hm, h⟩ := hl.addends
  exact ⟨m, ms ++ r.addends, by rw [hm]; rfl, h⟩

theorem unsigned_binaryValue {op : BinaryOp} (hl : OpensPlainly st l) :
    Unsigned st (binaryValue st op l r c) := by
  unfold binaryValue
  simp only
  split
  · exact unsigned_truthCase
  · split
    · intro s t s' hs hy
      obtain ⟨m, ms, hm, h⟩ := opensPlainly_addends (r := r) hl
      rw [hm] at hy
      simp only [List.mapM_cons, bind_pure_comp, yields_bind, yields_map] at hy
      obtain ⟨_, ⟨a, s₁, ha, ts, -, rfl⟩, rfl⟩ := hy
      exact head?_concatAll_ne (h c s a s₁ hs ha)
    · split
      · exact unsigned_fail
      · rename_i token ht
        have htoken : token ≠ [] ∧ token.head? ≠ some 45 := by
          cases op <;> first | cases ht; done | (cases ht; decide)
        exact unsigned_join (unsigned_grouped (hl.value c) _) htoken.1 htoken.2

theorem opensPlainly_binary {op : BinaryOp} (hl : OpensPlainly st l) :
    OpensPlainly st (binary st op l r) := by
  refine opensPlainly_scalar (fun _ => unsigned_binaryValue hl) fun adds h => ?_
  split at h
  · cases h
    exact opensPlainly_addends hl
  · cases h

theorem opensPlainly_unary {op : UnaryOp} {type : Option Ty} (hop : op ≠ .negate)
    (hl : op = .convert → OpensPlainly st l) : OpensPlainly st (unary st op l type) := by
  refine opensPlainly_scalar (fun c => ?_) (fun _ h => by cases h)
  split
  · exact (hl rfl).value c
  · exact absurd rfl hop
  · exact unsigned_truthCase
  · exact unsigned_fail

theorem head?_function_ne {f : Text} (h : f ∈ functionNames) :
    (f ++ "(" : Text) ≠ [] ∧ (f ++ "(" : Text).head? ≠ some 45 := by
  have hall : ∀ f ∈ functionNames, (f ++ "(" : Text) ≠ [] ∧ (f ++ "(" : Text).head? ≠ some 45 := by
    decide
  exact hall f h

theorem unsigned_intrinsic {target : Rendering} {args : List Rendering} {i : Intrinsic}
    {method : Text} (hname : Intrinsic.ofName? method = some i) (hi : i.isCondition = false) :
    Unsigned st (intrinsic st target args c i) := by
  cases i with
  | like | membership | contains | isNullOrEmpty | equals => cases hi
  | function name =>
    obtain ⟨hne, hhead⟩ := head?_function_ne (function_of_ofName? hname)
    exact unsigned_enclose hne hhead
  | trim =>
    intro s t s' _ hy
    simp only [intrinsic, bind_pure_comp, yields_map] at hy
    obtain ⟨a, -, rfl⟩ := hy
    unfold Profile.trim
    split <;> exact (by rintro ⟨⟩)
  | aggregate clause =>
    obtain ⟨hne, hhead⟩ := head?_function_ne (function_mem (c := clause))
    exact unsigned_enclose hne hhead

theorem opensPlainly_call {receiver : Rendering} {method : Text} {args : List Rendering}
    {type : Option Ty} {callee : Option Text} :
    OpensPlainly st (call st receiver method args type callee) := by
  rw [call]
  refine opensPlainly_scalar (fun c => ?_) (fun _ h => by cases h)
  unfold emitCall
  simp only
  split
  · unfold calledValue
    split
    · exact unsigned_constantValue _
    · exact unsigned_fail
    · exact unsigned_of_not_yields fun _ _ _ => not_yields_fault
  · rename_i i hi
    split
    · exact unsigned_fail
    · split
      · rename_i hcond
        exact unsigned_intrinsic (rule?_eq_some hi).1 hcond
      · split
        · exact unsigned_truthCase
        · exact unsigned_fail

theorem opensPlainly_cond {x a b : Rendering} (ha : OpensPlainly st a) (hb : OpensPlainly st b) :
    OpensPlainly st (cond st x a b) := by
  refine opensPlainly_scalar (fun c => ?_) (fun _ h => by cases h)
  intro s t s' hs hy
  obtain ⟨d, s₁, hd, hy⟩ := yields_bind.mp hy
  obtain ⟨-, rfl⟩ := yields_ofAttempt.mp hd
  cases d with
  | some d => cases d with
    | true => exact ha.value c _ t s' hs hy
    | false => exact hb.value c _ t s' hs hy
  | none => exact unsigned_enclose (by decide) (by decide) _ t s' hs hy

theorem opensPlainly_invocation {whole : Expr} {body : Unit → Except Expr.InlineError Rendering}
    (h : ∀ x, body () = .ok x → OpensPlainly st x) :
    OpensPlainly st (invocation st whole body) := by
  have value : ∀ c, Unsigned st (emitInlined body (·.value c)) := by
    intro c
    unfold emitInlined
    split
    · rename_i x hx
      exact (h x hx).value c
    · exact unsigned_fail
  exact ⟨value, _, [], rfl, value⟩

end Rendering

namespace Expr

open Rendering

variable {st : Settings} {inlined : Expr → Rendering} {rawOf named : Expr → Prop}

/-- The text of an expression that leads to no negation does not begin with a minus sign. -/
theorem opensPlainly_renderWith
    (hin : ∀ e, named e → e.Unsigned → (inlined e).OpensPlainly st) :
    (e : Expr) → NamedWith st (.plain st.quoted) rawOf named e → e.Unsigned →
      (renderWith st inlined e).OpensPlainly st
  | hole, _, _ => by
    rw [renderWith]
    exact opensPlainly_unsupported hole
  | const v t, _, _ => by
    rw [renderWith]
    exact ⟨fun _ => unsigned_constantValue v, _, [], rfl, fun _ => unsigned_constantValue v⟩
  | param p, _, _ => by
    have h : OpensPlainly st _ := opensPlainly_unsupported (param p)
    rw [renderWith]
    exact ⟨h.value, h.addends⟩
  | member e n t o, h, _ => by
    rw [renderWith]
    exact opensPlainly_scalar (fun _ => unsigned_columnOf (e := .member e n t o) h)
      (fun _ h => by cases h)
  | binary op l r, h, hu => by
    rw [renderWith]
    exact opensPlainly_binary
      (opensPlainly_renderWith hin l h.1 (hu.leading (by simp [leading])))
  | unary op e t, h, hu => by
    cases op with
    | quote =>
      have ih := opensPlainly_renderWith hin e h (hu.leading (by simp [leading]))
      rw [renderWith]
      exact ⟨ih.value, _, [], rfl, ih.value⟩
    | convert =>
      have ih := opensPlainly_renderWith hin e h (hu.leading (by simp [leading]))
      rw [renderWith]
      · exact opensPlainly_unary (by decide) fun _ => ih
      · rintro ⟨⟩
    | negate => exact absurd .refl (hu e t)
    | _ =>
      rw [renderWith]
      · exact opensPlainly_unary (by rintro ⟨⟩) (by rintro ⟨⟩)
      · rintro ⟨⟩
  | call e m args t f, _, _ => by
    rw [renderWith]
    exact opensPlainly_call
  | new t bs, _, _ => by
    have h : OpensPlainly st _ := opensPlainly_unsupported (new t bs)
    rw [renderWith]
    exact ⟨h.value, h.addends⟩
  | init t bs, _, _ => by
    have h : OpensPlainly st _ := opensPlainly_unsupported (init t bs)
    rw [renderWith]
    exact ⟨h.value, h.addends⟩
  | list t es, _, _ => by
    have h : OpensPlainly st _ := opensPlainly_unsupported (list t es)
    rw [renderWith]
    exact ⟨h.value, h.addends⟩
  | array t es, _, _ => by
    have h : OpensPlainly st _ := opensPlainly_unsupported (array t es)
    rw [renderWith]
    exact ⟨h.value, h.addends⟩
  | lambda body ps, h, hu => by
    have ih := opensPlainly_renderWith hin body h (hu.leading (by simp [leading]))
    rw [renderWith]
    exact ⟨ih.value, _, [], rfl, ih.value⟩
  | invoke target args, h, hu => by
    rw [renderWith]
    refine opensPlainly_invocation fun x hx => ?_
    cases hi : inline target args with
    | error e =>
      rw [hi] at hx
      cases hx
    | ok body =>
      rw [hi] at hx
      cases hx
      exact hin body (h body hi) (hu.leading (by simp [leading, hi, Except.toOption]))
  | cond c a b, h, hu => by
    rw [renderWith]
    exact opensPlainly_cond
      (opensPlainly_renderWith hin a h.2.1 (hu.leading (by simp [leading])))
      (opensPlainly_renderWith hin b h.2.2 (hu.leading (by simp [leading])))

theorem opensPlainly_renderTo : (depth : Nat) → (e : Expr) →
    NamedTo st (.plain st.quoted) depth e → e.Unsigned → (renderTo st depth e).OpensPlainly st
  | 0, _, _, _ => opensPlainly_unsupported hole
  | depth + 1, e, h, hu => opensPlainly_renderWith (opensPlainly_renderTo depth) e h hu

/-- A minus sign fits in front of what is negated, where minus signs are apart. -/
theorem minusFits_apart (depth : Nat) : MinusFits (quietKinds st) (renderTo st depth)
    (RawArgumentTo (.plain st.quoted) (depth + 1)) (NamedTo st (.plain st.quoted) depth)
    MinusesApart where
  parts h hy := h.parts hy
  minus {x t} hx h := (h x t .refl).imp_right fun hu =>
    (opensPlainly_renderTo (depth + 1) x hx hu).value

end Expr

/-- **No comment opens in what a clause compiles to**, if all names are plain or quoted and no minus
sign is written in front of another. -/
theorem holdsComment_compile {st : Settings} {e : Expr} {c : Clause} {ds : List Direction}
    {d : Draft} (he : e.Named st (.plain st.quoted)) (hw : e.WritesNamed st (.plain st.quoted) c)
    (hm : e.MinusesApart) (h : (Draft.new st).compile e c ds = (d, .ok ())) :
    Sql.holdsComment d.text = false := by
  have hl : (e.render st).Lawful (quietKinds st) _ :=
    Expr.lawfulOf_renderTo Expr.minusFits_apart Expr.inlineDepth e he hm
  have hraw : Expr.RawArgumentTo (.plain st.quoted) Expr.inlineDepth e :=
    Expr.rawArgumentTo_of_raw (fun _ => trivial) _ e
  have hhole : Emit.Emits (.plain st.quoted) (fun _ _ => Sql.Quiet)
      (Rendering.aggregate c (.unsupported st .hole)) :=
    (Rendering.emits_aggregate (K := quietKinds st) (Rendering.lawful_unsupported .hole)).mono
      fun _ _ _ h => h
  have hquiet : Sql.Quiet d.text := Draft.of_compile (Q := fun _ _ => Sql.Quiet)
    (fun _ => Sql.quiet_nil) (fun _ => Sql.quiet_of_isCalm (by decide)) hhole
    (hl.clausal (clauseTexts_quiet st) hraw hw) h
  exact hquiet.holdsComment_eq

/-- What the negation of an expression that reads a row emits. -/
theorem Expr.yields_negate {st : Settings} {x : Expr} {t : Option Ty} {c : Clause} {s s' : Slate}
    {u : Text} (hx : x.isClosed = false) :
    Emit.Yields (((unary .negate x t).render st).value c) s u s' ↔
      ∃ a, Emit.Yields (Emit.grouped x.isBinary ((x.render st).value c)) s a s' ∧ u = "-" ++ a := by
  have hrender : ((unary .negate x t).render st).value c =
      Emit.folding st (unary .negate (x.render st).expr t) (Emit.constantValue st) (do
        return "-" ++ (← Emit.after "-"
          (Emit.grouped (x.render st).expr.isBinary ((x.render st).value c)))) := rfl
  have hfold : (unary .negate x t).folded? st.pre = .ok none :=
    folded?_of_not_isClosed (by rw [isClosed_unary, hx]) st.pre
  rw [hrender, render_expr]
  simp [Emit.yields_folding, hfold]

/-- **The negation of a negation of what reads a row opens a comment.** -/
theorem holdsComment_of_negated_twice {st : Settings} {x : Expr} {t t' : Option Ty} {c : Clause}
    {s s' : Slate} {u : Text} (hx : x.isClosed = false)
    (h : Emit.Yields (((Expr.unary .negate (.unary .negate x t) t').render st).value c) s u s') :
    Sql.holdsComment u = true := by
  have hinner : (Expr.unary .negate x t).isClosed = false := by rw [Expr.isClosed_unary, hx]
  obtain ⟨a, ha, rfl⟩ := (Expr.yields_negate hinner).mp h
  obtain ⟨b, -, rfl⟩ := (Expr.yields_negate hx).mp
    (show Emit.Yields (((Expr.unary .negate x t).render st).value c) s a s' from ha)
  exact Sql.holdsComment_minus_minus b

namespace Sample

/-- The opposite of the age is less than the opposite of the age before. -/
def olderNow : Expr :=
  .binary .lessThan (.negateOf (.field customerRow "Age"))
    (.negateOf (.binary .subtract (.field customerRow "Age") (.value (.int .int 1))))

/-- The opposite of the opposite of the age is less than nothing. -/
def notBorn : Expr :=
  .binary .lessThan (.negateOf (.negateOf (.field customerRow "Age"))) (.value (.int .int 0))

end Sample

open Sample in
theorem holdsComment_compile_olderNow :
    ∃ d, (Draft.new (.standard .sqlServer world)).compile olderNow .where_ [] = (d, .ok ()) ∧
      d.text = "-c.age < -(c.age - @p1)" ∧ Sql.holdsComment d.text = false := by
  have hrow := customerRow_named .sqlServer
  have hnamed : olderNow.Named (.standard .sqlServer world) (.plain false) :=
    ⟨hrow, hrow, trivial⟩
  have column : (Expr.field customerRow "Age").Unsigned :=
    Expr.unsigned_iff.mpr ⟨fun _ _ h => (by cases h), fun _ h => (by cases h)⟩
  have column_apart : (Expr.field customerRow "Age").MinusesApart :=
    Expr.minusesApart_iff.mpr ⟨fun _ _ h => (by cases h), fun _ h => (by cases h)⟩
  have constant_apart : (Expr.value (.int .int 1)).MinusesApart :=
    Expr.minusesApart_iff.mpr ⟨fun _ _ h => (by cases h), fun _ h => (by cases h)⟩
  have difference_apart : (Expr.binary .subtract (.field customerRow "Age")
      (.value (.int .int 1))).MinusesApart :=
    Expr.minusesApart_iff.mpr ⟨fun _ _ h => (by cases h),
      List.forall_mem_cons.mpr ⟨column_apart, List.forall_mem_singleton.mpr constant_apart⟩⟩
  have hapart : olderNow.MinusesApart := by
    refine Expr.minusesApart_iff.mpr ⟨fun _ _ h => (by cases h),
      List.forall_mem_cons.mpr ⟨?_, List.forall_mem_singleton.mpr ?_⟩⟩
    · exact Expr.minusesApart_iff.mpr ⟨fun _ _ h => (by cases h; exact .inr column),
        List.forall_mem_singleton.mpr column_apart⟩
    · exact Expr.minusesApart_iff.mpr ⟨fun _ _ h => (by cases h; exact .inl rfl),
        List.forall_mem_singleton.mpr difference_apart⟩
  have text : whereText? (.standard .sqlServer world) olderNow =
      some "-c.age < -(c.age - @p1)" := by
    decide +kernel
  obtain ⟨d, hd, ht⟩ := compile_of_whereText? text
  exact ⟨d, hd, ht, holdsComment_compile (c := .where_) hnamed trivial hapart hd⟩

open Sample in
/-- The text of a condition may open a comment, with all names plain. -/
theorem exists_comment_in_condition :
    ∃ d, (Draft.new (.standard .sqlServer world)).compile notBorn .where_ [] = (d, .ok ()) ∧
      notBorn.Named (.standard .sqlServer world) (.plain false) ∧
      d.text = "--c.age < @p1" ∧ Sql.holdsComment d.text = true := by
  have hnamed : notBorn.Named (.standard .sqlServer world) (.plain false) :=
    ⟨customerRow_named .sqlServer, trivial⟩
  have text : whereText? (.standard .sqlServer world) notBorn = some "--c.age < @p1" := by
    decide +kernel
  obtain ⟨d, hd, ht⟩ := compile_of_whereText? text
  refine ⟨d, hd, hnamed, ht, ?_⟩
  rw [ht]
  decide +kernel

end QueryTree
