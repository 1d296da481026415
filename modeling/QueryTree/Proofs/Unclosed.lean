import Mathlib.Data.List.Forall2
import QueryTree.Proofs.Emitted
import QueryTree.Proofs.Scanned
import QueryTree.Shell.Grammar

/-!
# Quotes that are never closed

A quoted text ends at the first quote that is not doubled, and if there is none it ends with the
line. The scanner knows which of the two happened, but the token does not say it: a reader that
looks at the first and the last byte of the token takes a doubled quote at the end of the line for
the one that closes. So a line whose last quote is never closed is refused, unless it ends in two
quotes; then it is read as if one more quote stood behind it.

The scanner is compared with itself on the line with that quote added. All tokens but the last are
the same, and the last stands for the same text if for any. The parser tells tokens apart by their
values and by fixed words only, so from there on the two runs are the same.

## Main definitions

* `Token.Unclosed`: lines whose last quote is never closed
* `Token.openedText`: what the scanner makes of such a quote
* `Token.Alike`: tokens that every parser takes alike
* `Grammar.Reads`: parsers that do so

## Main results

* `Token.cut_scan`: the tokens of a line, and of the line with a quote added
* `Token.value?_openedText`
* `Grammar.reads_expression`
* `Grammar.closed_strings_iff`: strings are read from closed quotes only, unless a line that is
  unclosed ends in two quotes
-/

namespace QueryTree

namespace Text

variable {q : UInt8}

theorem double_append (b : UInt8) (t u : Text) : double b (t ++ u) = double b t ++ double b u := by
  induction t with
  | nil => rfl
  | cons c t ih =>
    rw [List.cons_append, double, double, ih]
    split <;> rfl

theorem count_double (b : UInt8) (t : Text) : (double b t).count b = 2 * t.count b := by
  induction t with
  | nil => rfl
  | cons c t ih =>
    rw [double]
    split
    · rename_i hc
      rw [hc, List.count_cons_self, List.count_cons_self, List.count_cons_self, ih]
      omega
    · rename_i hc
      rw [List.count_cons_of_ne hc, List.count_cons_of_ne hc, ih]

/-- A byte behind doubled ones stands for itself. -/
theorem undouble_double_concat (b c : UInt8) (t : Text) :
    undouble b (double b t ++ [c]) = t ++ [c] := by
  induction t with
  | nil => rfl
  | cons d t ih =>
    rw [double]
    split
    · rename_i hd
      subst hd
      rw [List.cons_append, List.cons_append, undouble, if_pos ⟨rfl, rfl⟩, ih]
      rfl
    · rename_i hd
      obtain ⟨e, u, hu⟩ : ∃ e u, double b t ++ [c] = e :: u :=
        List.exists_cons_of_ne_nil (by simp)
      rw [List.cons_append, hu, undouble, if_neg fun h => hd h.1, ← hu, ih]
      rfl

/-- Whether two bytes stand at the end is decided by what stands behind any other byte. -/
theorem pair_suffix_append_cons {c : UInt8} (hc : c ≠ q) (t rest : Text) :
    [q, q] <:+ t ++ c :: rest ↔ [q, q] <:+ rest := by
  rw [← List.reverse_prefix, ← List.reverse_prefix]
  simp only [List.reverse_append, List.reverse_cons]
  generalize rest.reverse = back
  rcases back with _ | ⟨a, _ | ⟨b, back⟩⟩
  · simp [hc.symm]
  · simp [hc.symm]
  · simp

/-- A text with its quotes doubled, behind a quote, ends in two of them exactly if it ended in
one. -/
theorem pair_suffix_double (t : Text) :
    [q, q] <:+ q :: double q t ↔ t.getLast? = some q := by
  rcases List.eq_nil_or_concat t with rfl | ⟨t, b, rfl⟩
  · exact iff_of_false (fun h => absurd h.length_le (by simp [double])) (by simp)
  · rw [List.concat_eq_append, double_append, double]
    split
    · rename_i hb
      subst hb
      simp [double]
    · rename_i hb
      simpa [double, hb] using pair_suffix_append_cons hb (q :: double q t) []

end Text

namespace Shell

open Text

namespace Token

/-! ### The scanner -/

/-- The last quote of the line is never closed: every quote opens or closes a quoted text, except
that two quotes inside one stand for a quote. -/
def Unclosed (t : Text) : Prop := t.count quote % 2 = 1

instance (t : Text) : Decidable (Unclosed t) := inferInstanceAs (Decidable (_ = _))

/-- What is read of a text in single quotes if the last one is missing. -/
def openedText (t : Text) : Token := quote :: t.double quote

theorem openedText_concat (t : Text) (b : UInt8) (hb : b ≠ quote) :
    openedText t ++ [b] = openedText (t ++ [b]) := by
  rw [openedText, openedText, double_append, double, if_neg hb]
  rfl

theorem openedText_quotes (t : Text) :
    openedText t ++ [quote, quote] = openedText (t ++ [quote]) := by
  rw [openedText, openedText, double_append, double, if_pos rfl]
  rfl

theorem openedText_quote (t : Text) : openedText t ++ [quote] = quotedText t := rfl

theorem count_openedText (t : Text) : (openedText t).count quote = 2 * t.count quote + 1 := by
  rw [openedText, List.count_cons_self, count_double]

theorem count_quotedText (t : Text) : (quotedText t).count quote = 2 * t.count quote + 2 := by
  rw [← openedText_quote, List.count_append, count_openedText]
  rfl

/-- The token is a quoted text, or no quote begins it. -/
def Closed (t : Token) : Prop := t.head? = some quote → ∃ v, t = quotedText v

theorem closed_quotedText (v : Text) : Closed (quotedText v) := fun _ => ⟨v, rfl⟩

theorem closed_cons {b : UInt8} (hb : b ≠ quote) (t : Token) : Closed (b :: t) := fun h =>
  absurd (by simpa using h) hb

theorem closed_of_not_mem {t : Token} (h : quote ∉ t) : Closed t := fun hhead =>
  absurd (List.mem_of_head? hhead) h

theorem closed_ended {word : Text} (h : quote ∉ word) : ∀ u ∈ ended word, Closed u := by
  unfold ended
  split
  · simp
  · simpa using closed_of_not_mem h

/-- The tokens of a text, and those of the text with a quote added: no token is an opened text, or
the last quote is never closed and the last token is one. -/
inductive Cut (t : Text) (ts us : List Token) : Prop
  | closed (ht : ¬ Unclosed t) (hts : ∀ u ∈ ts, Closed u) : Cut t ts us
  | opened {front : List Token} {v : Text} (ht : Unclosed t) (hfront : ∀ u ∈ front, Closed u)
    (hts : ts = front ++ [openedText v]) (hus : us = front ++ [quotedText v])
    (hlast : v.getLast? = some quote ↔ [quote, quote] <:+ t) : Cut t ts us

/-- More tokens, and the text of them, in front. -/
theorem Cut.front {t t' : Text} {ts us front : List Token} (h : Cut t ts us)
    (hfront : ∀ u ∈ front, Closed u) (hodd : Unclosed t' ↔ Unclosed t)
    (hsuffix : [quote, quote] <:+ t' ↔ [quote, quote] <:+ t) :
    Cut t' (front ++ ts) (front ++ us) := by
  have hall : ∀ more : List Token, (∀ u ∈ more, Closed u) → ∀ u ∈ front ++ more, Closed u :=
    fun more hmore u hu => (List.mem_append.mp hu).elim (hfront u) (hmore u)
  cases h with
  | closed ht hts => exact .closed (mt hodd.mp ht) (hall ts hts)
  | opened ht hmore hts hus hlast =>
    refine .opened (hodd.mpr ht) (hall _ hmore) ?_ ?_ (hlast.trans hsuffix.symm)
    · rw [hts, List.append_assoc]
    · rw [hus, List.append_assoc]

/-- What the scanner has read of a token: a quoted text, or a word. -/
def Begun (quoted : Bool) (word : Text) : Prop :=
  if quoted then ∃ v, word = openedText v else quote ∉ word

theorem cut_openedText (v : Text) : Cut (openedText v) [openedText v] [quotedText v] := by
  have hnone : ∀ u ∈ ([] : List Token), Closed u := fun u hu => absurd hu List.not_mem_nil
  refine .opened ?_ hnone rfl rfl (pair_suffix_double v).symm
  rw [Unclosed, count_openedText]
  omega

theorem not_unclosed_of_not_mem {t : Text} (h : quote ∉ t) : ¬ Unclosed t := by
  rw [Unclosed, List.count_eq_zero.mpr h]
  decide

theorem unclosed_append_iff {t : Text} (ht : ¬ Unclosed t) (rest : Text) :
    Unclosed (t ++ rest) ↔ Unclosed rest := by
  rw [Unclosed, Unclosed, List.count_append] at *
  omega

/-- A text without quotes, and the tokens of it, in front. -/
theorem Cut.behind {t x : Text} {ts us front : List Token} (h : Cut t ts us) (hx : quote ∉ x)
    (hfront : ∀ u ∈ front, Closed u) : Cut (x ++ t) (front ++ ts) (front ++ us) := by
  refine h.front hfront (unclosed_append_iff (not_unclosed_of_not_mem hx) t) ?_
  rcases List.eq_nil_or_concat x with rfl | ⟨x, c, rfl⟩
  · rfl
  · have hc : c ≠ quote := by
      rintro rfl
      exact hx (by simp)
    rw [List.concat_eq_append, List.append_assoc]
    exact pair_suffix_append_cons hc x t

theorem not_mem_concat {x : Text} {b : UInt8} (hx : quote ∉ x) (hb : b ≠ quote) :
    quote ∉ x ++ [b] := fun h =>
  (List.mem_append.mp h).elim hx fun h => hb (List.mem_singleton.mp h).symm

theorem closed_concat {ts : List Token} {t : Token} (hts : ∀ u ∈ ts, Closed u) (ht : Closed t) :
    ∀ u ∈ ts ++ [t], Closed u := fun u hu =>
  (List.mem_append.mp hu).elim (hts u) fun h => List.mem_singleton.mp h ▸ ht

theorem not_unclosed_quotedText (v : Text) : ¬ Unclosed (quotedText v) := by
  rw [Unclosed, count_quotedText]
  omega

/-- **The tokens that follow a word**, and those that follow it with a quote added. -/
theorem cut_scanFrom (quoted : Bool) (word t : Text) (h : Begun quoted word) :
    Cut (word ++ t) (scanFrom quoted word t) (scanFrom quoted word (t ++ [quote])) := by
  fun_induction scanFrom quoted word t with
  | case1 quoted word =>
    cases quoted with
    | true =>
      obtain ⟨v, rfl⟩ := h
      rw [List.append_nil]
      exact cut_openedText v
    | false =>
      rw [List.append_nil]
      exact .closed (not_unclosed_of_not_mem h) (closed_ended h)
  | case2 word b =>
    obtain ⟨v, rfl⟩ := h
    by_cases hb : b = quote
    · subst hb
      exact .closed (not_unclosed_quotedText v) fun u hu =>
        List.mem_singleton.mp hu ▸ closed_quotedText v
    · have hadd : scanFrom true (openedText v) ([b] ++ [quote]) = [quotedText (v ++ [b])] := by
        rw [List.singleton_append, scanFrom, if_neg hb, openedText_concat v b hb]
        rfl
      rw [hadd, openedText_concat v b hb]
      exact cut_openedText (v ++ [b])
  | case3 word rest ih =>
    obtain ⟨v, rfl⟩ := h
    have hword := openedText_quotes v
    have hcut := ih ⟨v ++ [quote], hword⟩
    have hadd : scanFrom true (openedText v) (quote :: quote :: rest ++ [quote]) =
        scanFrom true (openedText v ++ [quote, quote]) (rest ++ [quote]) := by
      rw [List.cons_append, List.cons_append, scanFrom, if_pos rfl, if_pos rfl]
    rw [List.append_assoc] at hcut
    rwa [hadd]
  | case4 word c rest hc ih =>
    obtain ⟨v, rfl⟩ := h
    have hcut := ih List.not_mem_nil
    have hadd : scanFrom true (openedText v) (quote :: c :: rest ++ [quote]) =
        [quotedText v] ++ scanFrom false [] (c :: rest ++ [quote]) := by
      rw [List.cons_append, List.cons_append, scanFrom, if_pos rfl, if_neg hc]
      rfl
    have htext : openedText v ++ quote :: c :: rest = quotedText v ++ c :: rest := by
      rw [← openedText_quote, List.append_assoc]
      rfl
    rw [hadd, htext]
    have hfront : ∀ u ∈ [quotedText v], Closed u :=
      fun u hu => List.mem_singleton.mp hu ▸ closed_quotedText v
    refine hcut.front hfront ?_ ?_
    · exact unclosed_append_iff (not_unclosed_quotedText v) (c :: rest)
    · rw [pair_suffix_append_cons hc, List.nil_append, ← pair_suffix_append_cons hc []]
      rfl
  | case5 word b c rest hb ih =>
    obtain ⟨v, rfl⟩ := h
    have hcut := ih ⟨v ++ [b], openedText_concat v b hb⟩
    have hadd : scanFrom true (openedText v) (b :: c :: rest ++ [quote]) =
        scanFrom true (openedText v ++ [b]) (c :: rest ++ [quote]) := by
      rw [List.cons_append, List.cons_append, scanFrom, if_neg hb]
    rw [List.append_assoc] at hcut
    rwa [hadd]
  | case6 word =>
    have hcut := (cut_openedText []).behind h (closed_ended h)
    have hadd : scanFrom false word ([quote] ++ [quote]) = ended word ++ [quotedText []] := by
      rw [List.singleton_append, scanFrom, if_pos rfl]
      rfl
    rwa [hadd]
  | case7 word b hb =>
    refine .closed (not_unclosed_of_not_mem (not_mem_concat h hb)) fun u hu => ?_
    rcases List.mem_append.mp hu with hu | hu
    · exact closed_ended h u hu
    · exact List.mem_singleton.mp hu ▸ closed_cons hb []
  | case8 word b hb =>
    exact .closed (not_unclosed_of_not_mem (not_mem_concat h hb)) (closed_ended h)
  | case9 word b hb =>
    have hmem := not_mem_concat h hb
    exact .closed (not_unclosed_of_not_mem hmem) fun u hu =>
      List.mem_singleton.mp hu ▸ closed_of_not_mem hmem
  | case10 word c rest ih =>
    have hcut := (ih ⟨[], rfl⟩).behind h (closed_ended h)
    have hadd : scanFrom false word (quote :: c :: rest ++ [quote]) =
        ended word ++ scanFrom true [quote] (c :: rest ++ [quote]) := by
      rw [List.cons_append, List.cons_append, scanFrom, if_pos rfl]
    rw [hadd]
    exact hcut
  | case11 word b c rest hb hpair ih =>
    have hc := (pair_facts hpair).2.1
    have hcut := (ih List.not_mem_nil).behind (not_mem_concat (not_mem_concat h hb) hc)
      (closed_concat (closed_ended h) (closed_cons hb [c]))
    have hadd : scanFrom false word (b :: c :: rest ++ [quote]) =
        ended word ++ [[b, c]] ++ scanFrom false [] (rest ++ [quote]) := by
      rw [List.cons_append, List.cons_append, scanFrom, if_neg hb, if_pos hpair]
      simp
    rw [hadd]
    simpa using hcut
  | case12 word b c rest hb hpair hsingle ih =>
    have hcut := (ih List.not_mem_nil).behind (not_mem_concat h hb)
      (closed_concat (closed_ended h) (closed_cons hb []))
    have hadd : scanFrom false word (b :: c :: rest ++ [quote]) =
        ended word ++ [[b]] ++ scanFrom false [] (c :: rest ++ [quote]) := by
      rw [List.cons_append, List.cons_append, scanFrom, if_neg hb, if_neg hpair, if_pos hsingle]
      simp
    rw [hadd]
    simpa using hcut
  | case13 word b c rest hb hpair hsingle hblank ih =>
    have hcut := (ih List.not_mem_nil).behind (not_mem_concat h hb) (closed_ended h)
    have hadd : scanFrom false word (b :: c :: rest ++ [quote]) =
        ended word ++ scanFrom false [] (c :: rest ++ [quote]) := by
      rw [List.cons_append, List.cons_append, scanFrom, if_neg hb, if_neg hpair, if_neg hsingle,
        if_pos hblank]
    rw [hadd]
    simpa using hcut
  | case14 word b c rest hb hpair hsingle hblank ih =>
    have hcut := ih (not_mem_concat h hb)
    have hadd : scanFrom false word (b :: c :: rest ++ [quote]) =
        scanFrom false (word ++ [b]) (c :: rest ++ [quote]) := by
      rw [List.cons_append, List.cons_append, scanFrom, if_neg hb, if_neg hpair, if_neg hsingle,
        if_neg hblank]
    rw [hadd]
    simpa using hcut

/-- **The tokens of a line**, and those of the line with a quote added. -/
theorem cut_scan (t : Text) : Cut t (scan t) (scan (t ++ [quote])) :=
  cut_scanFrom false [] t List.not_mem_nil

/-! ### What the tokens stand for -/

/-- A quoted text is no number. -/
theorem number?_quote (t : Text) : number? (quote :: t) = none := by
  have hint : Text.toInt64? (quote :: t) = none := by
    have hdigit := toNat?_of_not_digit (b := quote) (by decide) t
    simp only [Text.toInt64?, Text.toInt?, hdigit]
    rfl
  have hread : Decimal.readUnsigned? (quote :: t) = none :=
    readUnsigned?_of_front (by decide) (by decide) (.inr (by decide))
  have hname : ∀ w ∈ (["inf", "infinity", "nan"] : List Text), w.head? ≠ some quote := by decide
  have hdouble : Double.read? (quote :: t) = none :=
    Double.read?_of_front (by decide) (by decide) hread fun w hw heq => hname w hw (heq ▸ rfl)
  rw [number?, hint, hdouble]
  rfl

/-- The text between the first and the last byte, if the last byte is a quote. -/
theorem unquoted?_openedText (v : Text) :
    unquoted? (openedText v) = if v.getLast? = some quote then some v else none := by
  rcases List.eq_nil_or_concat v with rfl | ⟨v, b, rfl⟩
  · rfl
  · by_cases hb : b = quote
    · subst hb
      have hinner : (openedText (v ++ [quote])).drop 1 = double quote v ++ [quote] ++ [quote] := by
        rw [← openedText_quotes]
        simp [openedText]
      have hlast : (openedText (v ++ [quote])).getLast? = some quote := by
        rw [← openedText_quotes, List.getLast?_append]
        rfl
      have hlength : 2 ≤ (openedText (v ++ [quote])).length := by
        rw [← openedText_quotes]
        simp
      simp only [List.concat_eq_append, unquoted?, hlast, hinner, hlength, List.dropLast_concat,
        undouble_double_concat, List.getLast?_append]
      rfl
    · have hlast : (openedText (v ++ [b])).getLast? = some b := by
        rw [← openedText_concat v b hb, List.getLast?_append]
        rfl
      simp [unquoted?, hlast, hb]

theorem value?_openedText (v : Text) : value? (openedText v) =
    if v.getLast? = some quote then some (.string v) else none := by
  have hword : Text.toLower (openedText v) ∉ words :=
    toLower_not_mem_words (by decide) (by decide) _
  rw [value?_of_not_mem_words hword, unquoted?_openedText]
  by_cases hlast : v.getLast? = some quote
  · rw [if_pos hlast, if_pos hlast]
  · rw [if_neg hlast, if_neg hlast]
    exact number?_quote (v.double quote)

/-! ### Tokens that are taken alike -/

/-- Two tokens that are the same, or begin with a quote and stand for the same value, if any. -/
def Alike (t u : Token) : Prop :=
  t = u ∨ t.head? = some quote ∧ u.head? = some quote ∧ value? t = value? u

/-- A token that begins with a quote stands for a value. -/
def IsRead (t : Token) : Prop := t.head? = some quote → (value? t).isSome = true

theorem Alike.refl (t : Token) : Alike t t := .inl rfl

theorem Alike.symm {t u : Token} (h : Alike t u) : Alike u t :=
  h.imp Eq.symm fun ⟨ht, hu, hv⟩ => ⟨hu, ht, hv.symm⟩

theorem Alike.value?_eq {t u : Token} (h : Alike t u) : value? t = value? u :=
  h.elim (congrArg value?) fun h => h.2.2

/-- What stands for a quoted text in no way is the same for both of them. -/
theorem Alike.iff {P : Token → Prop} (hP : ∀ t, P t → t.head? ≠ some quote) {t u : Token}
    (h : Alike t u) : P t ↔ P u := by
  rcases h with rfl | ⟨ht, hu, -⟩
  · rfl
  · exact iff_of_false (fun h => hP t h ht) (fun h => hP u h hu)

theorem ne_of_head? {w : Token} (hw : w.head? ≠ some quote) {t : Token} (h : t = w) :
    t.head? ≠ some quote := h ▸ hw

theorem head?_of_toLower {w : Text} (hw : w ∈ words) {t : Token} (h : Text.toLower t = w) :
    t.head? ≠ some quote := by
  intro ht
  obtain ⟨u, rfl⟩ := List.head?_eq_some_iff.mp ht
  exact toLower_not_mem_words (by decide) (by decide) u (h ▸ hw)

theorem Alike.eq_iff {w : Token} (hw : w.head? ≠ some quote) {t u : Token} (h : Alike t u) :
    t = w ↔ u = w :=
  h.iff fun _ => ne_of_head? hw

theorem Alike.toLower_iff {w : Text} (hw : w ∈ words) {t u : Token} (h : Alike t u) :
    t.toLower = w ↔ u.toLower = w :=
  h.iff fun _ => head?_of_toLower hw

theorem head?_of_isIdentifier {t : Token} (h : t.isIdentifier = true) : t.head? ≠ some quote := by
  intro ht
  rw [isIdentifier, ht] at h
  revert h
  decide

/-- The fixed tokens that a parser asks for in any case. -/
def demanded : List Token := ["(", ")", "null"]

theorem head?_of_equalFold {w : Token} (hw : w ∈ demanded) {t : Token}
    (h : t.equalFold w = true) : t.head? ≠ some quote := by
  intro ht
  obtain ⟨u, rfl⟩ := List.head?_eq_some_iff.mp ht
  have hfront : ∀ w ∈ demanded, (w.chars.map CharClass.foldKey).head? ≠
      some (CharClass.foldKey (Char.ofNat quote.toNat)) := by
    decide
  have hchars : Text.chars (quote :: u) = Char.ofNat quote.toNat :: Text.chars u := by
    have := runes_append (u := [quote]) (by decide) u
    rw [chars, ← List.singleton_append, this]
    rfl
  rw [Text.equalFold, beq_iff_eq, hchars] at h
  exact hfront w hw (by rw [← h]; rfl)

/-- A function that is undefined at quoted texts takes alike tokens alike. -/
theorem Alike.apply_eq {α : Type} {f : Token → Option α}
    (hf : ∀ t, (f t).isSome = true → t.head? ≠ some quote) {t u : Token} (h : Alike t u) :
    f t = f u := by
  rcases h with rfl | ⟨ht, hu, -⟩
  · rfl
  · have hnone : ∀ {t : Token}, t.head? = some quote → f t = none := fun ht =>
      Option.not_isSome_iff_eq_none.mp fun h => hf _ h ht
    rw [hnone ht, hnone hu]

/-- No key of the table begins with a quote. -/
theorem head?_of_lookup {α : Type} {table : List (Token × α)}
    (htable : ∀ p ∈ table, p.1.head? ≠ some quote) (t : Token)
    (h : (table.lookup t).isSome = true) : t.head? ≠ some quote := by
  obtain ⟨a, ha⟩ := Option.isSome_iff_exists.mp h
  exact htable _ (AliasTable.mem_of_lookup ha)

end Token

namespace Grammar

open Token

/-! ### The parser -/

/-- Of two lists of alike tokens the same part was read, up to these rests, and every quoted text in
it stands for a value. -/
structure Passed (ts rest rest' : List Token) : Prop where
  alike : List.Forall₂ Alike rest rest'
  read : ∃ used, ts = used ++ rest ∧ ∀ t ∈ used, IsRead t

/-- What is read of a list of tokens is read of every list of alike tokens. -/
def Reads {α : Type} (p : Parser α) : Prop :=
  ∀ ⦃ts us : List Token⦄, List.Forall₂ Alike ts us → ∀ ⦃x : α⦄ ⦃rest : List Token⦄,
    p ts = .ok (x, rest) → ∃ rest', p us = .ok (x, rest') ∧ Passed ts rest rest'

variable {ts us rest rest' last last' : List Token} {t : Token} {w : Text} {α : Type}

theorem Passed.refl (h : List.Forall₂ Alike ts us) : Passed ts ts us :=
  ⟨h, [], rfl, fun _ ht => absurd ht List.not_mem_nil⟩

theorem Passed.trans (h : Passed ts rest rest') (h' : Passed rest last last') :
    Passed ts last last' := by
  obtain ⟨used, rfl, hused⟩ := h.read
  obtain ⟨more, rfl, hmore⟩ := h'.read
  refine ⟨h'.alike, used ++ more, (List.append_assoc ..).symm, fun t ht => ?_⟩
  exact (List.mem_append.mp ht).elim (hused t) (hmore t)

theorem Passed.cons (ht : IsRead t) (h : Passed ts rest rest') : Passed (t :: ts) rest rest' := by
  obtain ⟨used, rfl, hused⟩ := h.read
  refine ⟨h.alike, t :: used, rfl, fun u hu => ?_⟩
  exact (List.mem_cons.mp hu).elim (fun h => h ▸ ht) (hused u)

theorem isRead_of_head? (h : t.head? ≠ some quote) : IsRead t := fun h' => absurd h' h

theorem isRead_of_eq (hw : w.head? ≠ some quote) (h : t = w) : IsRead t :=
  isRead_of_head? (ne_of_head? hw h)

theorem isRead_of_toLower (hw : w ∈ words) (h : t.toLower = w) : IsRead t :=
  isRead_of_head? (head?_of_toLower hw h)

theorem passed_expect (hw : w ∈ demanded) (h : List.Forall₂ Alike ts us)
    (hts : expect w ts = .ok rest) : ∃ rest', expect w us = .ok rest' ∧ Passed ts rest rest' := by
  cases h with
  | nil => cases hts
  | @cons t u ts us ht h =>
    rw [expect] at hts
    split at hts
    · rename_i heq
      cases hts
      have hu : u.equalFold w = true := (ht.iff fun _ => head?_of_equalFold hw).mp heq
      exact ⟨us, if_pos hu, (Passed.refl h).cons (isRead_of_head? (head?_of_equalFold hw heq))⟩
    · cases hts

section Combinators

variable {op? : Token → Option (Expr → Expr → Expr)} {operand inner item : Parser Expr}

theorem reads_chainFrom (hop : ∀ t, (op? t).isSome = true → t.head? ≠ some quote)
    (h : Reads operand) (steps : Nat) (left : Expr) : Reads (chainFrom op? operand steps left) := by
  induction steps generalizing left with
  | zero =>
    intro ts us hts x rest hx
    cases hx
    exact ⟨us, rfl, .refl hts⟩
  | succ steps ih =>
    intro ts us hts x rest hx
    cases hts with
    | nil =>
      cases hx
      exact ⟨[], rfl, .refl .nil⟩
    | @cons t u ts us ht hts =>
      have hsame := ht.apply_eq hop
      rw [chainFrom] at hx ⊢
      cases hjoin : op? t with
      | none =>
        rw [hjoin] at hx
        rw [← hsame, hjoin]
        cases hx
        exact ⟨u :: us, rfl, .refl (.cons ht hts)⟩
      | some join =>
        rw [hjoin] at hx
        rw [← hsame, hjoin]
        obtain ⟨⟨right, mid⟩, hright, hx⟩ := bind_eq_ok.mp hx
        obtain ⟨mid', hright', hmid⟩ := h hts hright
        obtain ⟨rest', hrest', hpassed⟩ := ih (join left right) hmid.alike hx
        exact ⟨rest', bind_eq_ok.mpr ⟨_, hright', hrest'⟩,
          (hmid.trans hpassed).cons (isRead_of_head? (hop t (hjoin ▸ rfl)))⟩

theorem reads_chain (hop : ∀ t, (op? t).isSome = true → t.head? ≠ some quote)
    (h : Reads operand) : Reads (chain op? operand) := by
  intro ts us hts x rest hx
  obtain ⟨⟨left, mid⟩, hleft, hx⟩ := bind_eq_ok.mp hx
  obtain ⟨mid', hleft', hmid⟩ := h hts hleft
  obtain ⟨rest', hrest', hpassed⟩ := reads_chainFrom hop h mid.length left hmid.alike hx
  refine ⟨rest', bind_eq_ok.mpr ⟨_, hleft', ?_⟩, hmid.trans hpassed⟩
  rwa [hmid.alike.length_eq] at hrest'

theorem reads_wordChain (hw : w ∈ words) (op : BinaryOp) (h : Reads operand) :
    Reads (wordChain w op operand) := by
  refine reads_chain (fun t ht => ?_) h
  split at ht
  · rename_i heq
    exact head?_of_toLower hw heq
  · cases ht

theorem reads_tableChain {table : List (Token × BinaryOp)}
    (htable : ∀ p ∈ table, p.1.head? ≠ some quote) (h : Reads operand) :
    Reads (tableChain table operand) :=
  reads_chain (fun t ht => head?_of_lookup htable t (by simpa using ht)) h

theorem reads_itemsFrom (h : Reads item) (steps : Nat) : Reads (itemsFrom item steps) := by
  induction steps with
  | zero =>
    intro ts us hts x rest hx
    cases hx
  | succ steps ih =>
    intro ts us hts x rest hx
    rw [itemsFrom] at hx ⊢
    obtain ⟨⟨e, mid⟩, he, hx⟩ := bind_eq_ok.mp hx
    obtain ⟨mid', he', hmid⟩ := h hts he
    have halike := hmid.alike
    cases halike with
    | nil => cases hx
    | @cons t u mid mid' ht htail =>
      have hcomma : t = ("," : Text) ↔ u = ("," : Text) := ht.eq_iff (by decide)
      have hclose : t = (")" : Text) ↔ u = (")" : Text) := ht.eq_iff (by decide)
      dsimp only at hx
      split at hx
      · rename_i heq
        obtain ⟨⟨es, last⟩, hes, hx⟩ := bind_eq_ok.mp hx
        cases hx
        obtain ⟨last', hes', hpassed⟩ := ih htail hes
        refine ⟨last', bind_eq_ok.mpr ⟨_, he', ?_⟩,
          hmid.trans (hpassed.cons (isRead_of_eq (by decide) heq))⟩
        exact (if_pos (hcomma.mp heq)).trans (bind_eq_ok.mpr ⟨_, hes', rfl⟩)
      · rename_i hne
        split at hx
        · rename_i heq
          cases hx
          refine ⟨mid', bind_eq_ok.mpr ⟨_, he', ?_⟩,
            hmid.trans ((Passed.refl htail).cons (isRead_of_eq (by decide) heq))⟩
          exact (if_neg (mt hcomma.mpr hne)).trans (if_pos (hclose.mp heq))
        · cases hx

theorem reads_items (h : Reads item) : Reads (items item) := by
  intro ts us hts x rest hx
  cases hts with
  | nil => exact reads_itemsFrom h 1 .nil hx
  | @cons t u ts us ht hts =>
    have hclose : t = (")" : Text) ↔ u = (")" : Text) := ht.eq_iff (by decide)
    simp only [items] at hx ⊢
    split at hx
    · rename_i heq
      cases hx
      rw [if_pos (hclose.mp heq)]
      exact ⟨us, rfl, (Passed.refl hts).cons (isRead_of_eq (by decide) heq)⟩
    · rename_i hne
      have hlength : (u :: us).length = (t :: ts).length := by simp [hts.length_eq]
      rw [if_neg (mt hclose.mpr hne), hlength]
      exact reads_itemsFrom h _ (.cons ht hts) hx

theorem reads_arguments (h : Reads item) (name : Text) : Reads (arguments item name) := by
  intro ts us hts x rest hx
  cases hts with
  | nil => exact reads_items h .nil hx
  | @cons t u ts us ht hts =>
    have hstar : t = ("*" : Text) ↔ u = ("*" : Text) := ht.eq_iff (by decide)
    simp only [arguments] at hx ⊢
    rw [← decide_eq_decide.mpr hstar]
    split at hx
    · rename_i hcond
      rw [if_pos hcond]
      obtain ⟨mid, hmid, hx⟩ := bind_eq_ok.mp hx
      cases hx
      obtain ⟨mid', hmid', hpassed⟩ := passed_expect (by decide) hts hmid
      have heq : t = ("*" : Text) := of_decide_eq_true (Bool.and_eq_true_iff.mp hcond).1
      exact ⟨mid', bind_eq_ok.mpr ⟨_, hmid', rfl⟩,
        hpassed.cons (isRead_of_eq (by decide) heq)⟩
    · rename_i hcond
      rw [if_neg hcond]
      exact reads_items h (.cons ht hts) hx

theorem reads_call (h : Reads item) (t : Token) : Reads (call item t) := by
  intro ts us hts x rest hx
  simp only [call] at hx ⊢
  split at hx
  · cases hx
  · obtain ⟨⟨args, mid⟩, hargs, hx⟩ := bind_eq_ok.mp hx
    obtain ⟨mid', hargs', hmid⟩ := reads_arguments h _ hts hargs
    obtain ⟨e, he, hx⟩ := bind_eq_ok.mp hx
    cases hx
    exact ⟨mid', bind_eq_ok.mpr ⟨_, hargs', bind_eq_ok.mpr ⟨_, he, rfl⟩⟩, hmid⟩

theorem reads_primary (resolver : Option Resolver) (h : Reads inner) :
    Reads (primary resolver inner) := by
  intro ts us hts x rest hx
  cases hts with
  | nil => cases hx
  | @cons t u ts us ht hts =>
    have hopen : t = ("(" : Text) ↔ u = ("(" : Text) := ht.eq_iff (by decide)
    rw [primary.eq_def] at hx ⊢
    dsimp only at hx ⊢
    rw [← ht.value?_eq]
    split at hx
    · rename_i heq
      rw [if_pos (hopen.mp heq)]
      obtain ⟨⟨e, mid⟩, he, hx⟩ := bind_eq_ok.mp hx
      obtain ⟨mid', he', hmid⟩ := h hts he
      obtain ⟨last, hlast, hx⟩ := bind_eq_ok.mp hx
      cases hx
      obtain ⟨last', hlast', hpassed⟩ := passed_expect (by decide) hmid.alike hlast
      exact ⟨last', bind_eq_ok.mpr ⟨_, he', bind_eq_ok.mpr ⟨_, hlast', rfl⟩⟩,
        (hmid.trans hpassed).cons (isRead_of_eq (by decide) heq)⟩
    · rename_i hne
      rw [if_neg (mt hopen.mpr hne)]
      split at hx
      · rename_i v hv
        cases hx
        exact ⟨us, rfl, (Passed.refl hts).cons fun _ => hv ▸ rfl⟩
      · split at hx
        · rename_i hident
          -- only tokens that do not begin with a quote are names, so the two are the same
          have hhead := head?_of_isIdentifier hident
          obtain rfl := ht.resolve_right fun h => hhead h.1
          rw [if_pos hident]
          have hname := isRead_of_head? hhead
          cases hts with
          | nil =>
            obtain ⟨e, he, hx⟩ := bind_eq_ok.mp hx
            cases hx
            exact ⟨[], bind_eq_ok.mpr ⟨_, he, rfl⟩, (Passed.refl .nil).cons hname⟩
          | @cons s s' ts us hs hts =>
            have hopen' : s = ("(" : Text) ↔ s' = ("(" : Text) :=
              hs.eq_iff (by decide)
            dsimp only at hx ⊢
            split at hx
            · rename_i heq
              obtain ⟨rest', hrest', hpassed⟩ := reads_call h t hts hx
              rw [if_pos (hopen'.mp heq)]
              exact ⟨rest', hrest',
                (hpassed.cons (isRead_of_eq (by decide) heq)).cons hname⟩
            · rename_i hne'
              obtain ⟨e, he, hx⟩ := bind_eq_ok.mp hx
              cases hx
              rw [if_neg (mt hopen'.mpr hne')]
              exact ⟨s' :: us, bind_eq_ok.mpr ⟨_, he, rfl⟩,
                (Passed.refl (.cons hs hts)).cons hname⟩
        · cases hx

theorem reads_unary (h : Reads operand) : Reads (unary operand) := by
  intro ts us hts
  induction hts with
  | nil =>
    intro x rest hx
    exact h .nil hx
  | @cons t u ts us ht hts ih =>
    intro x rest hx
    have hminus : t = ("-" : Text) ↔ u = ("-" : Text) := ht.eq_iff (by decide)
    rw [unary] at hx ⊢
    split at hx
    · rename_i heq
      obtain ⟨⟨e, mid⟩, he, hx⟩ := bind_eq_ok.mp hx
      cases hx
      obtain ⟨rest', he', hpassed⟩ := ih he
      rw [if_pos (hminus.mp heq)]
      exact ⟨rest', bind_eq_ok.mpr ⟨_, he', rfl⟩,
        hpassed.cons (isRead_of_eq (by decide) heq)⟩
    · rename_i hne
      rw [if_neg (mt hminus.mpr hne)]
      exact h (.cons ht hts) hx

theorem reads_negation (h : Reads operand) : Reads (negation operand) := by
  intro ts us hts
  induction hts with
  | nil =>
    intro x rest hx
    exact h .nil hx
  | @cons t u ts us ht hts ih =>
    intro x rest hx
    have hnot : t.toLower = ("not" : Text) ↔ u.toLower = ("not" : Text) :=
      ht.toLower_iff (by decide)
    rw [negation] at hx ⊢
    split at hx
    · rename_i heq
      obtain ⟨⟨e, mid⟩, he, hx⟩ := bind_eq_ok.mp hx
      cases hx
      obtain ⟨rest', he', hpassed⟩ := ih he
      rw [if_pos (hnot.mp heq)]
      exact ⟨rest', bind_eq_ok.mpr ⟨_, he', rfl⟩,
        hpassed.cons (isRead_of_toLower (by decide) heq)⟩
    · rename_i hne
      rw [if_neg (mt hnot.mpr hne)]
      exact h (.cons ht hts) hx

theorem reads_nullTail (left : Expr) : Reads (nullTail left) := by
  intro ts us hts x rest hx
  cases hts with
  | nil => cases hx
  | @cons t u ts us ht hts =>
    have hnot : t.toLower = ("not" : Text) ↔ u.toLower = ("not" : Text) :=
      ht.toLower_iff (by decide)
    have hfirst : ∀ (s : Token) (ss : List Token),
        atWord "not" (s :: ss) = decide (s.toLower = ("not" : Text)) := fun _ _ => rfl
    simp only [nullTail, hfirst, decide_eq_true_eq] at hx ⊢
    obtain ⟨mid, hmid, hx⟩ := bind_eq_ok.mp hx
    cases hx
    split at hmid
    · rename_i heq
      obtain ⟨mid', hmid', hpassed⟩ := passed_expect (by decide) hts hmid
      rw [if_pos (hnot.mp heq), if_pos heq, if_pos (hnot.mp heq)]
      exact ⟨mid', bind_eq_ok.mpr ⟨_, hmid', rfl⟩,
        hpassed.cons (isRead_of_toLower (by decide) heq)⟩
    · rename_i hne
      obtain ⟨mid', hmid', hpassed⟩ := passed_expect (by decide) (.cons ht hts) hmid
      rw [if_neg (mt hnot.mpr hne), if_neg hne, if_neg (mt hnot.mpr hne)]
      exact ⟨mid', bind_eq_ok.mpr ⟨_, hmid', rfl⟩, hpassed⟩

theorem reads_matchTail (h : Reads inner) (left : Expr) : Reads (matchTail inner left) := by
  intro ts us hts x rest hx
  cases hts with
  | nil => cases hx
  | @cons t u ts us ht hts =>
    have hlike : t.toLower = ("like" : Text) ↔ u.toLower = ("like" : Text) :=
      ht.toLower_iff (by decide)
    have hin : t.toLower = ("in" : Text) ↔ u.toLower = ("in" : Text) :=
      ht.toLower_iff (by decide)
    simp only [matchTail, List.headD_cons, List.drop_succ_cons, List.drop_zero] at hx ⊢
    split at hx
    · rename_i heq
      rw [if_pos (hlike.mp heq)]
      have hword := isRead_of_toLower (by decide) heq
      cases hts with
      | nil => cases hx
      | @cons p q ts us hp hts =>
        simp only [List.headD_cons, List.drop_succ_cons, List.drop_zero] at hx ⊢
        rw [← hp.value?_eq]
        split at hx
        · rename_i v hv
          cases hx
          exact ⟨us, rfl, ((Passed.refl hts).cons fun _ => hv ▸ rfl).cons hword⟩
        · cases hx
    · rename_i hne
      rw [if_neg (mt hlike.mpr hne)]
      split at hx
      · rename_i heq
        rw [if_pos (hin.mp heq)]
        have hword := isRead_of_toLower (by decide) heq
        obtain ⟨mid, hmid, hx⟩ := bind_eq_ok.mp hx
        obtain ⟨mid', hmid', hopened⟩ := passed_expect (by decide) hts hmid
        obtain ⟨⟨es, last⟩, hes, hx⟩ := bind_eq_ok.mp hx
        obtain ⟨last', hes', hlisted⟩ := reads_items h hopened.alike hes
        dsimp only at hx
        split at hx
        · cases hx
        · rename_i hsome
          cases hx
          exact ⟨last', bind_eq_ok.mpr ⟨_, hmid', bind_eq_ok.mpr ⟨_, hes', if_neg hsome⟩⟩,
            (hopened.trans hlisted).cons hword⟩
      · cases hx

theorem reads_comparison (hinner : Reads inner) (h : Reads operand) :
    Reads (comparison inner operand) := by
  intro ts us hts x rest hx
  obtain ⟨⟨left, mid⟩, hleft, hx⟩ := bind_eq_ok.mp hx
  obtain ⟨mid', hleft', hmid⟩ := h hts hleft
  suffices htail : ∃ rest', _ = Except.ok (x, rest') ∧ Passed mid rest rest' by
    obtain ⟨rest', hrest', hpassed⟩ := htail
    exact ⟨rest', bind_eq_ok.mpr ⟨_, hleft', hrest'⟩, hmid.trans hpassed⟩
  have halike := hmid.alike
  cases halike with
  | nil =>
    cases hx
    exact ⟨[], rfl, .refl .nil⟩
  | @cons t u mid mid' ht htail =>
    have hop : ∀ t, (comparisons.lookup t).isSome = true → t.head? ≠ some quote :=
      head?_of_lookup (by decide)
    dsimp only at hx ⊢
    rw [← ht.apply_eq hop]
    cases hlookup : comparisons.lookup t with
    | some op =>
      rw [hlookup] at hx
      obtain ⟨⟨right, last⟩, hright, hx⟩ := bind_eq_ok.mp hx
      cases hx
      obtain ⟨last', hright', hpassed⟩ := h htail hright
      exact ⟨last', bind_eq_ok.mpr ⟨_, hright', rfl⟩,
        hpassed.cons (isRead_of_head? (hop t (hlookup ▸ rfl)))⟩
    | none =>
      rw [hlookup] at hx
      dsimp only at hx ⊢
      split at hx
      · rename_i his
        rw [if_pos ((ht.toLower_iff (by decide)).mp his)]
        obtain ⟨rest', hrest', hpassed⟩ := reads_nullTail left htail hx
        exact ⟨rest', hrest', hpassed.cons (isRead_of_toLower (by decide) his)⟩
      · rename_i his
        rw [if_neg (mt (ht.toLower_iff (by decide)).mpr his)]
        split at hx
        · rename_i hnot
          rw [if_pos ((ht.toLower_iff (by decide)).mp hnot)]
          obtain ⟨⟨e, last⟩, he, hx⟩ := bind_eq_ok.mp hx
          cases hx
          obtain ⟨last', he', hpassed⟩ := reads_matchTail hinner left htail he
          exact ⟨last', bind_eq_ok.mpr ⟨_, he', rfl⟩,
            hpassed.cons (isRead_of_toLower (by decide) hnot)⟩
        · rename_i hnot
          rw [if_neg (mt (ht.toLower_iff (by decide)).mpr hnot),
            ← decide_eq_decide.mpr (ht.toLower_iff (w := "like") (by decide)),
            ← decide_eq_decide.mpr (ht.toLower_iff (w := "in") (by decide))]
          split at hx
          · rename_i hmatch
            rw [if_pos hmatch]
            exact reads_matchTail hinner left (.cons ht htail) hx
          · rename_i hmatch
            rw [if_neg hmatch]
            cases hx
            exact ⟨u :: mid', rfl, .refl (.cons ht htail)⟩

theorem reads_disjunction (resolver : Option Resolver) (h : Reads inner) :
    Reads (disjunction resolver inner) := by
  have hmultiplicative : ∀ p ∈ multiplicative, p.1.head? ≠ some quote := by decide
  have hadditive : ∀ p ∈ additive, p.1.head? ≠ some quote := by decide
  have hsum := reads_tableChain hadditive
    (reads_tableChain hmultiplicative (reads_unary (reads_primary resolver h)))
  exact reads_wordChain (by decide) .orElse
    (reads_wordChain (by decide) .andAlso (reads_negation (reads_comparison h hsum)))

end Combinators

/-- Alike tokens are read alike, in brackets of any depth. -/
theorem reads_expression (resolver : Option Resolver) (depth : Nat) :
    Reads (expression resolver depth) := by
  induction depth with
  | zero =>
    intro ts us hts x rest hx
    cases hx
  | succ depth ih => exact reads_disjunction resolver ih

/-- An expression that is read from tokens is read from alike tokens, and all quoted texts in it
stand for values. -/
theorem parse_of_alike {resolver : Option Resolver} (h : List.Forall₂ Alike ts us) {e : Expr}
    (he : parse resolver ts = .ok e) : parse resolver us = .ok e ∧ ∀ t ∈ ts, IsRead t := by
  cases h with
  | nil => cases he
  | @cons t u ts us ht h =>
    obtain ⟨⟨x, rest⟩, hx, he⟩ := bind_eq_ok.mp he
    obtain ⟨rest', hx', hpassed⟩ := reads_expression resolver _ (.cons ht h) hx
    obtain ⟨halike, used, hused, hread⟩ := hpassed
    cases halike with
    | cons => cases he
    | nil =>
      cases he
      have hlength : (u :: us).length = (t :: ts).length := by simp [h.length_eq]
      rw [List.append_nil] at hused
      refine ⟨bind_eq_ok.mpr ⟨(_, []), ?_, rfl⟩, hused ▸ hread⟩
      rwa [hlength]

/-- A closed token is read as the text that it is the quoted form of. -/
theorem value?_of_closed {u : Token} (h : Closed u) (hu : u.head? = some quote) (x : Value) :
    value? u = some x ↔ ∃ v, x = .string v ∧ u = Sql.stringLiteral v false := by
  obtain ⟨v, rfl⟩ := h hu
  rw [value?_quotedText]
  constructor
  · intro hx
    cases hx
    exact ⟨v, rfl, rfl⟩
  · rintro ⟨w, rfl, hw⟩
    have hsame : quotedText v = quotedText w := hw
    have hvalue := value?_quotedText w
    rw [← hsame, value?_quotedText] at hvalue
    exact hvalue

/-- No text in closed quotes is what is read of one whose closing quote is missing. -/
theorem openedText_ne (v w : Text) : openedText v ≠ Sql.stringLiteral w false := by
  intro h
  have hcount := congrArg (List.count quote) h
  have hquoted : Sql.stringLiteral w false = quotedText w := rfl
  rw [hquoted, count_openedText, count_quotedText] at hcount
  omega

/-- **Strings are read from closed quotes only, unless an unclosed line ends in two quotes.** Then
the last token stands for a text without being the quoted form of any, and the line is read as if
one more quote stood behind it. Any other unclosed line is refused. -/
theorem closed_strings_iff (t : Text) :
    ((∀ u ∈ scan t, u.head? = some quote → ∀ x, value? u = some x ↔
        ∃ v, x = .string v ∧ u = Sql.stringLiteral v false) ↔
      ¬ (Unclosed t ∧ [quote, quote] <:+ t)) ∧
    (Unclosed t → ∀ resolver e, parseText resolver t = .ok e ↔
      [quote, quote] <:+ t ∧ parseText resolver (t ++ [quote]) = .ok e) := by
  rcases cut_scan t with ⟨hclosed, hall⟩ | ⟨hopen, hfront, hts, hus, hlast⟩
  · refine ⟨iff_of_true (fun u hu hhead x => ?_) (fun h => hclosed h.1),
      fun h => absurd h hclosed⟩
    exact value?_of_closed (hall u hu) hhead x
  · rename_i front v
    rw [hts]
    refine ⟨⟨fun h hpair => ?_, fun h u hu hhead x => ?_⟩, fun _ resolver e => ?_⟩
    · -- the last token is read, but not written by quoting any text
      have hv : value? (openedText v) = some (.string v) := by
        rw [value?_openedText, if_pos (hlast.mpr hpair.2)]
      obtain ⟨w, -, hw⟩ := (h (openedText v) (by simp) rfl (.string v)).mp hv
      exact openedText_ne v w hw
    · rcases List.mem_append.mp hu with hu | hu
      · exact value?_of_closed (hfront u hu) hhead x
      · obtain rfl := List.mem_singleton.mp hu
        have hnone : value? (openedText v) = none := by
          rw [value?_openedText, if_neg fun hv => h ⟨hopen, hlast.mp hv⟩]
        rw [hnone]
        refine iff_of_false nofun ?_
        rintro ⟨w, -, hw⟩
        exact openedText_ne v w hw
    · unfold parseText
      rw [hts, hus]
      have hvalue : v.getLast? = some quote → value? (openedText v) = value? (quotedText v) := by
        intro hv
        rw [value?_openedText, value?_quotedText, if_pos hv]
      have halike : v.getLast? = some quote →
          List.Forall₂ Alike (front ++ [openedText v]) (front ++ [quotedText v]) := by
        intro hv
        refine List.rel_append ?_ (.cons (.inr ⟨rfl, rfl, hvalue hv⟩) .nil)
        exact List.forall₂_same.mpr fun u _ => .refl u
      constructor
      · intro he
        have hread := (parse_of_alike (List.forall₂_same.mpr fun u _ => .refl u) he).2
        have hsome := hread (openedText v) (by simp) rfl
        have hv : v.getLast? = some quote := by
          by_contra hv
          rw [value?_openedText, if_neg hv] at hsome
          cases hsome
        exact ⟨hlast.mp hv, (parse_of_alike (halike hv) he).1⟩
      · rintro ⟨hpair, he⟩
        have hback := (halike (hlast.mpr hpair)).flip.imp fun _ _ => Alike.symm
        exact (parse_of_alike hback he).1

/-- A line of one quoted text that is never closed, with a quote at its end. -/
theorem closed_strings_iff_quote :
    Unclosed "'it''" ∧ parseText none "'it''" = .ok (.value (.string "it'")) :=
  have h : Unclosed "'it''" := by decide
  ⟨h, ((closed_strings_iff "'it''").2 h none _).mpr ⟨by decide, by rfl⟩⟩

/-- An unclosed line is read as a string. -/
theorem exists_unclosed_string : ∃ t u v, Unclosed t ∧ u ∈ scan t ∧ u.head? = some quote ∧
    value? u = some (.string v) ∧ (∀ w, u ≠ Sql.stringLiteral w false) ∧
    parseText none t = .ok (.value (.string v)) :=
  ⟨"'it''", openedText "it'", "it'", by decide, by decide, by decide, by rfl,
    openedText_ne _, by rfl⟩

end Grammar

end Shell

end QueryTree
