import QueryTree.Proofs.Unclosed

/-!
# Lines in normal form

The scanner loses blanks and nothing else. The tokens of a line put side by side are the line
without its spaces and tabs, except those in quotes. Put together with one space between any two of
them, they are a line with the same tokens, so every line has a normal form.

That one space is enough is a matter of what follows a token. A quoted text goes on if a quote
follows, `!` and `=` become one operator, a word becomes longer; a space behind them prevents all
three. A text in quotes that are never closed takes whatever follows it, spaces included, but
nothing follows it: it ends the line, and so it ends the normal form.

`Token.Spells` says which tokens a text is made of. It does not say that each of them is as long as
possible, and no proof below needs that: the space behind a token ends it in any case.

## Main definitions

* `Token.unblanked`: a text without the blanks outside quotes
* `Token.Whole`: the tokens that end where a blank follows
* `Token.Spells`: the tokens that a text is made of

## Main results

* `Token.Whole.scan_append`: a whole token is scanned as it is, whatever follows behind a blank
* `Token.spells_scan`: a text is made of the tokens that are found in it
* `Token.scan_normalizes`: what the scanner loses, and the normal form
-/

namespace QueryTree.Shell.Token

open Text

/-! ### Blanks outside quotes -/

/-- The text without the spaces and tabs outside quotes. Every quote opens a quoted text or closes
one, and a doubled quote inside does both; `quoted` says whether one is open. -/
def unblanked : (quoted : Bool) → Text → Text
  | _, [] => []
  | quoted, b :: t =>
    if b = quote then b :: unblanked (!quoted) t
    else if isBlankByte b && !quoted then unblanked quoted t
    else b :: unblanked quoted t

theorem unclosed_cons_quote (t : Text) : Unclosed (quote :: t) ↔ ¬ Unclosed t := by
  rw [Unclosed, Unclosed, List.count_cons_self]
  omega

theorem unclosed_cons_of_ne {b : UInt8} (hb : b ≠ quote) (t : Text) :
    Unclosed (b :: t) ↔ Unclosed t := by
  rw [Unclosed, Unclosed, List.count_cons_of_ne hb]

/-- Behind a text, a quoted text is open exactly if an odd number of quotes has been read. -/
theorem unblanked_append (quoted : Bool) (t u : Text) :
    unblanked quoted (t ++ u) =
      unblanked quoted t ++ unblanked (quoted ^^ decide (Unclosed t)) u := by
  induction t generalizing quoted with
  | nil => simp [unblanked, Unclosed]
  | cons b t ih =>
    rw [List.cons_append, unblanked, unblanked]
    by_cases hb : b = quote
    · subst hb
      have hodd :
          (quoted ^^ decide (Unclosed (quote :: t))) = (!quoted ^^ decide (Unclosed t)) := by
        simp only [unclosed_cons_quote, decide_not]
        cases quoted <;> simp
      rw [if_pos rfl, if_pos rfl, ih, hodd, List.cons_append]
    · rw [if_neg hb, if_neg hb, ih, decide_eq_decide.mpr (unclosed_cons_of_ne hb t)]
      split
      · rfl
      · rfl

theorem unblanked_of_forall {t : Text} (h : ∀ b ∈ t, b ≠ quote ∧ isBlankByte b = false) :
    unblanked false t = t := by
  induction t with
  | nil => rfl
  | cons b t ih =>
    obtain ⟨hquote, hblank⟩ := h b List.mem_cons_self
    rw [unblanked, if_neg hquote, hblank, ih fun c hc => h c (List.mem_cons_of_mem b hc)]
    rfl

/-- Nothing is lost inside quotes. -/
theorem unblanked_double (v : Text) : unblanked true (v.double quote) = v.double quote := by
  induction v with
  | nil => rfl
  | cons b v ih =>
    rw [double]
    by_cases hb : b = quote
    · rw [if_pos hb, unblanked, if_pos rfl, unblanked, if_pos rfl, Bool.not_true,
        Bool.not_false, ih]
    · rw [if_neg hb, unblanked, if_neg hb, Bool.not_true, Bool.and_false, ih]
      rfl

theorem unblanked_openedText (v : Text) : unblanked false (openedText v) = openedText v := by
  rw [openedText, unblanked, if_pos rfl, Bool.not_false, unblanked_double]

theorem unblanked_quotedText (v : Text) : unblanked false (quotedText v) = quotedText v := by
  have hopen : Unclosed (openedText v) := by
    rw [Unclosed, count_openedText]
    omega
  rw [← openedText_quote, unblanked_append, unblanked_openedText, decide_eq_true hopen]
  rfl

/-! ### Whole tokens -/

/-- The tokens that end where a blank follows: all but the quoted texts that are never closed. -/
inductive Whole : Token → Prop
  | word {w : Text} (hne : w ≠ []) (h : ∀ b ∈ w, isSeparator b = false) : Whole w
  | quoted (v : Text) : Whole (quotedText v)
  | single {b : UInt8} (h : isSingle b = true) : Whole [b]
  | pair {b c : UInt8} (h : pairs.contains (b, c) = true) : Whole [b, c]

theorem isSeparator_facts {b : UInt8} (h : isSeparator b = false) :
    b ≠ quote ∧ isBlankByte b = false := by
  simp only [isSeparator, Bool.or_eq_false_iff, beq_eq_false_iff_ne] at h
  exact ⟨h.1.1, h.2⟩

/-- A whole token is a quoted text, or there are neither quotes nor blanks in it. -/
theorem Whole.cases {k : Token} (hk : Whole k) :
    (∃ v, k = quotedText v) ∨ ∀ b ∈ k, b ≠ quote ∧ isBlankByte b = false := by
  cases hk with
  | word _ h => exact .inr fun b hb => isSeparator_facts (h b hb)
  | quoted v => exact .inl ⟨v, rfl⟩
  | single h => exact .inr fun b hb => List.mem_singleton.mp hb ▸ isSingle_facts h
  | pair h =>
    refine .inr fun b hb => ?_
    rcases List.mem_pair.mp hb with rfl | rfl
    · exact (pair_facts h).1
    · exact (pair_facts h).2

theorem Whole.ne_nil {k : Token} (hk : Whole k) : k ≠ [] := by
  cases hk with
  | word hne _ => exact hne
  | quoted | single | pair => exact List.cons_ne_nil _ _

theorem Whole.head?_of_mem {k : Token} (hk : Whole k) (hmem : quote ∈ k) :
    k.head? = some quote := by
  rcases hk.cases with ⟨v, rfl⟩ | hplain
  · rfl
  · exact absurd rfl (hplain quote hmem).1

/-- A whole token closes the quotes that it opens, and it holds no blank outside them. -/
theorem Whole.unblanked_append {k : Token} (hk : Whole k) (t : Text) :
    unblanked false (k ++ t) = k ++ unblanked false t := by
  rcases hk.cases with ⟨v, rfl⟩ | hplain
  · rw [Token.unblanked_append, unblanked_quotedText,
      decide_eq_false (not_unclosed_quotedText v), Bool.xor_false]
  · have hclosed : ¬ Unclosed k := not_unclosed_of_not_mem fun hmem => (hplain quote hmem).1 rfl
    rw [Token.unblanked_append, unblanked_of_forall hplain, decide_eq_false hclosed,
      Bool.xor_false]

/-! ### Scanning whole tokens -/

/-- What follows is nothing, or it begins with a blank. -/
def Apart (rest : Text) : Prop := ∀ b ∈ rest.head?, isBlankByte b = true

theorem apart_nil : Apart [] := nofun

theorem apart_cons {b : UInt8} (hb : isBlankByte b = true) (rest : Text) : Apart (b :: rest) := by
  rintro c hc
  cases hc
  exact hb

theorem Apart.ends {rest : Text} (h : Apart rest) : Ends rest := by
  intro b hb
  rw [h b hb, Bool.or_true]

theorem Apart.no_pair {rest : Text} (h : Apart rest) (b : UInt8) :
    ∀ c ∈ rest.head?, pairs.contains (b, c) = false := by
  intro c hc
  refine Bool.eq_false_iff.mpr fun hpair => ?_
  have hblank := (pair_facts hpair).2.2
  rw [h c hc] at hblank
  cases hblank

theorem scanFrom_apart {w rest : Text} (h : ∀ b ∈ w, isSeparator b = false) (hrest : Apart rest)
    (word : Text) : scanFrom false word (w ++ rest) = ended (word ++ w) ++ scan rest := by
  induction w generalizing word with
  | nil => rw [List.nil_append, List.append_nil, scanFrom_ends hrest.ends]
  | cons b w ih =>
    have hw : ∀ c ∈ w, isSeparator c = false := fun c hc => h c (List.mem_cons_of_mem b hc)
    -- the second byte of an operator ends words, and it is no blank
    have hnone : ∀ c ∈ (w ++ rest).head?, pairs.contains (b, c) = false := by
      cases w with
      | nil => exact hrest.no_pair b
      | cons c w =>
        intro d hd
        obtain rfl : c = d := by simpa using hd
        refine Bool.eq_false_iff.mpr fun hpair => ?_
        have hc := hw c List.mem_cons_self
        rw [isSeparator_of_pair hpair] at hc
        cases hc
    rw [List.cons_append, scanFrom_of_not_separator (h b List.mem_cons_self) hnone, ih hw,
      List.append_assoc, List.singleton_append]

/-- **A whole token is scanned as it is**, whatever follows behind a blank. -/
theorem Whole.scan_append {k : Token} (hk : Whole k) {rest : Text} (hrest : Apart rest) :
    scan (k ++ rest) = k :: scan rest := by
  cases hk with
  | word hne h =>
    rw [scan, scanFrom_apart h hrest, List.nil_append, ended_of_ne_nil hne, List.singleton_append]
  | quoted v => exact scan_quotedText v hrest.ends
  | single h => exact scan_single h (hrest.no_pair _)
  | pair h => exact scan_pair h rest

theorem scanFrom_true_of_ne {b : UInt8} (hb : b ≠ quote) (word t : Text) :
    scanFrom true word (b :: t) = scanFrom true (word ++ [b]) t := by
  cases t with
  | nil => rfl
  | cons c t => rw [scanFrom, if_neg hb]

theorem scanFrom_opened (v : Text) {word : Text} (hne : word ≠ []) :
    scanFrom true word (v.double quote) = [word ++ v.double quote] := by
  induction v generalizing word with
  | nil => rw [double, List.append_nil, scanFrom, ended_of_ne_nil hne]
  | cons b v ih =>
    rw [double]
    by_cases hb : b = quote
    · rw [if_pos hb, scanFrom, if_pos rfl, if_pos rfl, ih (by simp), List.append_assoc]
      rfl
    · rw [if_neg hb, scanFrom_true_of_ne hb, ih (by simp), List.append_assoc]
      rfl

/-- A quoted text that is never closed is a token at the end of the line. -/
theorem scan_openedText (v : Text) : scan (openedText v) = [openedText v] := by
  have hopened := scanFrom_opened v (List.cons_ne_nil quote [])
  rw [scan, openedText]
  cases hv : v.double quote with
  | nil => rfl
  | cons c t =>
    rw [hv] at hopened
    rw [scanFrom, if_pos rfl, hopened]
    rfl

/-! ### Texts and their tokens -/

/-- The text is made of the tokens, with blanks between them or not. A quoted text that is never
closed ends it. -/
inductive Spells : Text → List Token → Prop
  | done : Spells [] []
  | blank {b : UInt8} {t : Text} {ts : List Token} (hb : isBlankByte b = true) (h : Spells t ts) :
    Spells (b :: t) ts
  | token {k : Token} {t : Text} {ts : List Token} (hk : Whole k) (h : Spells t ts) :
    Spells (k ++ t) (k :: ts)
  | opened (v : Text) : Spells (openedText v) [openedText v]

variable {t : Text} {ts : List Token}

/-- What the scanner has read of a token: a quoted text, or a part of a word. -/
def Pending (quoted : Bool) (word : Text) : Prop :=
  if quoted then ∃ v, word = openedText v else ∀ b ∈ word, isSeparator b = false

theorem Spells.behind {word : Text} (hword : Pending false word) (h : Spells t ts) :
    Spells (word ++ t) (ended word ++ ts) := by
  by_cases hne : word = []
  · subst hne
    exact h
  · rw [ended_of_ne_nil hne]
    exact .token (.word hne hword) h

theorem pending_concat {word : Text} {b : UInt8} (h : Pending false word)
    (hb : isSeparator b = false) : Pending false (word ++ [b]) := by
  intro c hc
  rcases List.mem_append.mp hc with hc | hc
  · exact h c hc
  · rwa [List.mem_singleton.mp hc]

theorem pending_nil : Pending false [] := fun _ h => absurd h List.not_mem_nil

/-- The scanner finds the tokens that a text is made of, from wherever it stands. -/
theorem spells_scanFrom (quoted : Bool) (word t : Text) (h : Pending quoted word) :
    Spells (word ++ t) (scanFrom quoted word t) := by
  fun_induction scanFrom quoted word t with
  | case1 quoted word =>
    rw [List.append_nil]
    cases quoted with
    | true =>
      obtain ⟨v, rfl⟩ := h
      exact .opened v
    | false => simpa using Spells.done.behind h
  | case2 word b =>
    obtain ⟨v, rfl⟩ := h
    by_cases hb : b = quote
    · subst hb
      have hclosed := Spells.token (.quoted v) .done
      rw [List.append_nil] at hclosed
      exact hclosed
    · rw [openedText_concat v b hb]
      exact .opened _
  | case3 word rest ih =>
    obtain ⟨v, rfl⟩ := h
    have hrest := ih ⟨_, openedText_quotes v⟩
    rwa [List.append_assoc] at hrest
  | case4 word c rest hc ih =>
    obtain ⟨v, rfl⟩ := h
    have hrest := Spells.token (.quoted v) (ih pending_nil)
    rwa [List.nil_append, ← openedText_quote, List.append_assoc] at hrest
  | case5 word b c rest hb ih =>
    obtain ⟨v, rfl⟩ := h
    have hrest := ih ⟨_, openedText_concat v b hb⟩
    rwa [List.append_assoc] at hrest
  | case6 word => exact (Spells.opened []).behind h
  | case7 word b hb hsingle => exact (Spells.token (.single hsingle) .done).behind h
  | case8 word b hb hsingle hblank => simpa using (Spells.blank hblank .done).behind h
  | case9 word b hb hsingle hblank =>
    have hword := pending_concat h (b := b) (by simp [isSeparator, hb, hsingle, hblank])
    simpa [ended] using Spells.done.behind hword
  | case10 word c rest ih => exact (ih ⟨[], rfl⟩).behind h
  | case11 word b c rest hb hpair ih =>
    exact (Spells.token (.pair hpair) (ih pending_nil)).behind h
  | case12 word b c rest hb hpair hsingle ih =>
    exact (Spells.token (.single hsingle) (ih pending_nil)).behind h
  | case13 word b c rest hb hpair hsingle hblank ih =>
    exact (Spells.blank hblank (ih pending_nil)).behind h
  | case14 word b c rest hb hpair hsingle hblank ih =>
    have hrest := ih (pending_concat h (by simp [isSeparator, hb, hsingle, hblank]))
    rwa [List.append_assoc] at hrest

/-- **A text is made of the tokens that are found in it.** -/
theorem spells_scan (t : Text) : Spells t (scan t) := spells_scanFrom false [] t pending_nil

/-- Every token is whole, or it is a quoted text that is never closed. -/
theorem Spells.whole_or_opened (h : Spells t ts) :
    ∀ k ∈ ts, Whole k ∨ ∃ v, k = openedText v := by
  induction h with
  | done => exact fun k hk => absurd hk List.not_mem_nil
  | blank _ _ ih => exact ih
  | token hk _ ih => exact List.forall_mem_cons.mpr ⟨.inl hk, ih⟩
  | opened v => exact fun k hk => .inr ⟨v, List.mem_singleton.mp hk⟩

/-- The tokens side by side are the text without the blanks outside quotes. -/
theorem Spells.flatten_eq (h : Spells t ts) : ts.flatten = unblanked false t := by
  induction h with
  | done => rfl
  | @blank b t ts hb _ ih =>
    have hquote : b ≠ quote := by
      rintro rfl
      exact absurd hb (by decide)
    rw [unblanked, if_neg hquote, hb, ih]
    rfl
  | token hk _ ih => rw [List.flatten_cons, hk.unblanked_append, ih]
  | opened v => rw [unblanked_openedText, List.flatten_singleton]

/-- The tokens with a space between any two are a text with the same tokens. -/
theorem Spells.scan_join (h : Spells t ts) : scan (join " " ts) = ts := by
  induction h with
  | done => rfl
  | blank _ _ ih => exact ih
  | @token k t ts hk _ ih =>
    cases ts with
    | nil =>
      have hlast := hk.scan_append apart_nil
      rw [List.append_nil] at hlast
      rw [show join " " [k] = k by simp [join]]
      exact hlast
    | cons l ls =>
      have hspace : Apart (byte ' ' :: join " " (l :: ls)) := apart_cons rfl _
      rw [join_cons_cons, List.append_assoc]
      exact (hk.scan_append hspace).trans (congrArg (k :: ·) ((scan_blank _).trans ih))
  | opened v => simpa [join] using scan_openedText v

/-- **The scanner loses blanks only, and a line has a normal form.** No token is empty. Side by side
the tokens are the line without the spaces and tabs outside quotes. A token with a quote in it
begins with one. The tokens with single spaces between them are a line that has the same tokens. -/
theorem scan_normalizes (t : Text) :
    (∀ k ∈ scan t, k ≠ []) ∧ (scan t).flatten = unblanked false t ∧
      (∀ k ∈ scan t, quote ∈ k → k.head? = some quote) ∧ scan (join " " (scan t)) = scan t := by
  have hspells := spells_scan t
  refine ⟨?_, hspells.flatten_eq, ?_, hspells.scan_join⟩
  · intro k hk
    rcases hspells.whole_or_opened k hk with hwhole | ⟨v, rfl⟩
    · exact hwhole.ne_nil
    · exact List.cons_ne_nil _ _
  · intro k hk hmem
    rcases hspells.whole_or_opened k hk with hwhole | ⟨v, rfl⟩
    · exact hwhole.head?_of_mem hmem
    · rfl

/-- Operators in a row, quoted texts in a row, and a quote that is never closed. -/
example : scan "a!==<>='b c''d' 'e'\tf! ='g  h''" =
      ["a", "!=", "=", "<>", "=", "'b c''d'", "'e'", "f!", "=", "'g  h''"] ∧
    join " " (scan "a!==<>='b c''d' 'e'\tf! ='g  h''") =
      "a != = <> = 'b c''d' 'e' f! = 'g  h''" := by
  decide

end QueryTree.Shell.Token
