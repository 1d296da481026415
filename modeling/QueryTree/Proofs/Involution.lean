import QueryTree.Proofs.RawNames
import QueryTree.Proofs.StatementMarks
import QueryTree.Proofs.Woven

/-!
# Negation is an involution on emitted conditions

Every condition that is emitted is woven, by induction on the grammar, so negating it twice gives it
back. Names matter only where they are written as names: an alias or a column without quotes must
not look like a token or like the end of one. The table of a row that has a name of its own is not
written in a condition at all, and a raw item stands between the parentheses of an aggregate
function, where it may be called `CASE`, `END` or `NOT`.

## Main definitions

* `Lexicon.unreserved`: aliases and columns that are quoted or not reserved
* `Sql.Weaves`: the texts that are woven wherever a value may stand

## Main results

* `ValueText.weaves`, `ConditionText.weaves`
* `negate_negate_compiled`: negation undoes itself on what compiling a condition adds to a draft
-/

namespace QueryTree

open Sql Emit

/-- The lexicon of aliases and columns that no scanner takes for anything else. Tables, members of
shapes and raw items are not restricted. -/
def Lexicon.unreserved (quoted : Bool) : Lexicon where
  Name := (Lexicon.readable quoted).Name
  Raw _ := True
  Table _ := True
  Label _ := True
  numbered := (Lexicon.readable quoted).numbered

theorem permissive_unreserved {quoted : Bool} (h : quoted = true) :
    (Lexicon.unreserved quoted).Permissive :=
  ⟨fun _ => .inl h, fun _ => trivial, fun _ => trivial, fun _ => trivial⟩

namespace Sql

variable {t rest : Text}

/-! ### Pieces of text -/

theorem woven_of_loose (h : ∀ u b v, t = u ++ b :: v → Loose b (v ++ rest)) : Woven t rest := by
  induction t with
  | nil => exact .nil
  | cons b t ih =>
    refine .byte (h [] b t rfl) (ih fun u c v ht => h (b :: u) c v ?_)
    rw [ht, List.cons_append]

/-- Whether no byte of a text is a blank or opens a quoted segment. -/
def isSolid (t : Text) : Bool := t.all fun b => closer? b == none && b != 32

theorem woven_solid (h : isSolid t = true) : Woven t rest := by
  refine woven_of_loose fun u b v ht => ?_
  have hb := List.all_eq_true.mp h b (by simp [ht])
  rw [Bool.and_eq_true, beq_iff_eq, bne_iff_ne] at hb
  exact ⟨hb.1, fun h => absurd h hb.2⟩

theorem woven_blank (h : Apart rest) : Woven [32] rest :=
  .byte ⟨rfl, fun _ => h⟩ .nil

/-- A word between two blanks that is not a token, before a text where no token starts. -/
theorem woven_spaced (ht : isSolid t = true)
    (hd : ∀ k ∈ tokens, differ k (32 :: t) = true) (hrest : Apart rest) :
    Woven (32 :: (t ++ [32])) rest := by
  refine .byte ⟨rfl, fun _ k hk => ?_⟩ ((woven_solid ht).append (woven_blank hrest))
  have hno := startsWithWord_of_differ (hd k hk) ([32] ++ rest)
  simpa using hno

/-- A text that is woven wherever a value may stand, and before which no token starts. -/
structure Weaves (t : Text) : Prop where
  woven : ∀ rest, Ends rest → Woven t rest
  apart : ∀ rest, Ends rest → Apart (t ++ rest)

/-- A text whose first part decides that no token starts before it. -/
theorem Weaves.of_differ {lead more : Text} (hlead : isSolid lead = true)
    (hd : ∀ k ∈ tokens, differ k (32 :: lead) = true)
    (h : ∀ rest, Ends rest → Woven more rest) : Weaves (lead ++ more) := by
  refine ⟨fun rest hrest => (woven_solid hlead).append (h rest hrest), fun rest _ k hk => ?_⟩
  have hno := startsWithWord_of_differ (hd k hk) (more ++ rest)
  simpa using hno

theorem weaves_quoted {q : Text} (hq : q ≠ [])
    (h : ∀ rest, Ends rest → quotedLength (q ++ rest) = q.length) : Weaves q := by
  refine ⟨fun rest hrest => ?_, fun rest hrest => apart_quoted hq (h rest hrest)⟩
  have hw : Woven (q ++ []) rest := .quoted hq (h rest hrest) .nil
  rwa [List.append_nil] at hw

/-! ### Values -/

theorem weaves_valueWord (h : t ∈ valueWords) : Weaves t := by
  have hall : ∀ t ∈ valueWords, isSolid t = true ∨
      t = enclose 39 39 [37] ∨ t = enclose 39 39 [] := by decide
  have literal : ∀ u, Weaves (enclose 39 39 u) := fun u =>
    weaves_quoted (List.cons_ne_nil _ _) fun _ hrest =>
      quotedLength_enclose (by decide) u (hrest.fresh.head?_ne (by decide))
  rcases hall t h with hsolid | rfl | rfl
  · exact ⟨fun _ _ => woven_solid hsolid, (valued_valueWord h).apart⟩
  · exact literal [37]
  · exact literal []

theorem isSolid_of_words (h : t.all isWordByte = true) : isSolid t = true := by
  refine List.all_eq_true.mpr fun b hb => ?_
  obtain ⟨hq, -, -, hblank, -⟩ := wordByte_facts (List.all_eq_true.mp h b hb)
  rw [Bool.and_eq_true, beq_iff_eq, bne_iff_ne]
  exact ⟨hq, fun h => hblank (h ▸ rfl)⟩

theorem weaves_placeholder (d : Dialect) (n : Nat) : Weaves (d.profile.placeholder (n + 1)) := by
  refine ⟨fun rest _ => ?_, (valued_placeholder d n).apart⟩
  have numbered : ∀ lead : Text, isSolid lead = true →
      Woven (lead ++ Text.ofNat (n + 1)) rest := fun _ hlead =>
    (woven_solid hlead).append
      (woven_solid (isSolid_of_words (all_isWordByte_of_names (all_isNameByte_ofNat (n + 1)))))
  cases d with
  | sqlServer => exact numbered "@p" (by decide)
  | postgres => exact numbered "$" (by decide)
  | oracle => exact numbered ":" (by decide)
  | mySql | sqlite => exact woven_solid (t := "?") (by decide)

/-- A text in parentheses, perhaps behind the name of a function. -/
theorem weaves_call {f : Text} (hf : f ∈ functionNames)
    (h : ∀ rest, Woven t (byte ')' :: rest)) : Weaves (f ++ "(" ++ t ++ ")") := by
  have hall : ∀ f ∈ functionNames, isSolid (f ++ "(") = true ∧
      ∀ k ∈ tokens, differ k (32 :: (f ++ "(")) = true := by decide
  rw [List.append_assoc]
  refine .of_differ (hall f hf).1 (hall f hf).2 fun rest _ => ?_
  exact (h rest).append (woven_solid (by decide))

theorem weaves_op {a sep b : Text} (hs : sep ∈ valueSeparators) (ha : Weaves a) (hb : Weaves b) :
    Weaves (a ++ sep ++ b) := by
  have hall : ∀ sep ∈ valueSeparators, sep = "," ∨ sep = 32 :: (sep.tail.dropLast ++ [32]) ∧
      isSolid sep.tail.dropLast = true ∧
      ∀ k ∈ tokens, differ k (32 :: sep.tail.dropLast) = true := by decide
  have weaves : (∀ u, Ends (sep ++ u)) → (∀ rest, Apart rest → Woven sep rest) →
      Weaves (a ++ sep ++ b) := by
    intro hends hw
    refine ⟨fun rest hrest => ?_, fun rest hrest => ?_⟩
    · rw [List.append_assoc]
      exact (ha.woven _ (by simpa using hends (b ++ rest))).append
        ((hw _ (hb.apart rest hrest)).append (hb.woven rest hrest))
    · rw [List.append_assoc, List.append_assoc]
      exact ha.apart _ (hends _)
  rcases hall sep hs with rfl | ⟨hsep, hsolid, hd⟩
  · exact weaves (fun u => ends_cons (.inr (.inl rfl))) fun _ _ => woven_solid (by decide)
  · refine weaves (fun u => ?_) fun rest hrest => ?_
    · rw [hsep]
      exact ends_cons (.inl rfl)
    · rw [hsep]
      exact woven_spaced hsolid hd hrest

theorem weaves_minus (h : Weaves t) : Weaves ("-" ++ t) :=
  .of_differ (by decide) (by decide) h.woven

/-- Two texts with a word between them that is not a token. -/
theorem Woven.join {a b : Text} (word : Text) (ha : ∀ rest, Ends rest → Woven a rest)
    (hword : isSolid word = true ∧ ∀ k ∈ tokens, differ k (32 :: word) = true)
    (hb : Weaves b) (hrest : Ends rest) :
    Woven (a ++ (32 :: (word ++ [32])) ++ b) rest := by
  rw [List.append_assoc]
  exact (ha _ (ends_cons (.inl rfl))).append
    ((woven_spaced hword.1 hword.2 (hb.apart rest hrest)).append (hb.woven rest hrest))

theorem woven_when {c : Text} (hc : Weaves c) (hrest : Ends rest) :
    Woven (" WHEN " ++ c) rest :=
  (woven_spaced (t := "WHEN") (by decide) (by decide) (hc.apart rest hrest)).append
    (hc.woven rest hrest)

theorem woven_end : Woven " END" rest := by
  refine .byte ⟨rfl, fun _ k hk => ?_⟩ (woven_solid (t := "END") (by decide))
  have hall : ∀ k ∈ tokens, differ k " END" = true := by decide
  exact startsWithWord_of_differ (hall k hk) rest

/-- What a `CASE` expression consists of, whatever stands in it. -/
theorem weaves_case {u : Text} (h : ∀ rest, Ends rest → Woven (" WHEN " ++ u) rest) :
    Weaves ("CASE WHEN " ++ u ++ " END") := by
  have htext : ("CASE WHEN " ++ u ++ " END" : Text) = "CASE" ++ ((" WHEN " ++ u) ++ " END") := by
    rw [show ("CASE WHEN " : Text) = "CASE" ++ " WHEN " from by decide]
    simp only [List.append_assoc]
  rw [htext]
  exact .of_differ (by decide) (by decide) fun rest _ =>
    (h _ (ends_cons (.inl rfl))).append woven_end

theorem weaves_choice {c a b : Text} (hc : Weaves c) (ha : Weaves a) (hb : Weaves b) :
    Weaves ("CASE WHEN " ++ c ++ " THEN " ++ a ++ " ELSE " ++ b ++ " END") := by
  have hthen : ∀ rest, Ends rest → Woven (" WHEN " ++ c ++ " THEN " ++ a) rest := fun rest hrest =>
    Woven.join "THEN" (fun _ => woven_when hc) (by decide) ha hrest
  have helse : ∀ rest, Ends rest →
      Woven (" WHEN " ++ c ++ " THEN " ++ a ++ " ELSE " ++ b) rest := fun rest hrest =>
    Woven.join "ELSE" hthen (by decide) hb hrest
  have hcase := weaves_case (u := c ++ " THEN " ++ a ++ " ELSE " ++ b)
    (by simpa only [List.append_assoc] using helse)
  simpa only [List.append_assoc] using hcase

theorem weaves_counted {c : Text} (hc : Weaves c) :
    Weaves ("CASE WHEN " ++ c ++ " THEN 1 END") := by
  have hthen : ∀ rest, Ends rest → Woven (" WHEN " ++ c ++ " THEN " ++ "1") rest :=
    fun rest hrest => Woven.join "THEN" (fun _ => woven_when hc) (by decide)
      (weaves_valueWord (by decide)) hrest
  have hcase := weaves_case (u := c ++ " THEN " ++ "1")
    (by simpa only [List.append_assoc] using hthen)
  rw [show (" THEN 1 END" : Text) = " THEN " ++ "1" ++ " END" from by decide]
  simpa only [List.append_assoc] using hcase

/-! ### Raw items -/

/-- A word that ends with a blank and is found before a parenthesis ends before it. -/
theorem exists_word_before_paren {word v : Text} (hword : byte ')' ∉ word)
    (h : startsWithWord (word ++ [32]) (v ++ byte ')' :: rest) = true) :
    ∃ w v', v = w ++ 32 :: v' ∧ w.map Text.lowerByte = word.map Text.lowerByte := by
  have hparen : ∀ b : UInt8, b ≠ byte ')' → Text.lowerByte (byte ')') ≠ Text.lowerByte b :=
    fun b hb h => hb ((Text.lowerByte_eq_iff (by decide)).mp h.symm)
  induction word generalizing v with
  | nil =>
    cases v with
    | nil =>
      rw [List.nil_append, List.nil_append, startsWithWord_cons, Bool.and_eq_true] at h
      cases h.1
    | cons b v =>
      have hb := startsWithWord_blank h
      subst hb
      exact ⟨[], v, rfl, rfl⟩
  | cons a word ih =>
    rw [List.mem_cons, not_or] at hword
    cases v with
    | nil =>
      rw [List.nil_append, List.cons_append, startsWithWord_cons, Bool.and_eq_true,
        beq_iff_eq] at h
      exact absurd h.1 (hparen a (Ne.symm hword.1))
    | cons b v =>
      rw [List.cons_append, List.cons_append, startsWithWord_cons, Bool.and_eq_true,
        beq_iff_eq] at h
      obtain ⟨w, v', rfl, hw⟩ := ih hword.2 h.2
      exact ⟨b :: w, v', rfl, by rw [List.map_cons, List.map_cons, h.1, hw]⟩

/-- The keyword that renames a column has no other ASCII letters than its own. -/
theorem lowerByte_of_isKeyword {w : Text} (h : Raw.isKeyword "AS" w = true) {b : UInt8}
    (hb : b ∈ w) (hascii : b < 0x80) : Text.lowerByte b = 97 ∨ Text.lowerByte b = 115 := by
  have hall : ∀ b : UInt8, (!decide (b < 0x80) || !((Text.ofString "AS").chars.map
      CharClass.foldKey).contains (CharClass.foldKey (Char.ofNat b.toNat)) ||
      (Text.lowerByte b == 97 || Text.lowerByte b == 115)) = true :=
    Text.forall_byte (by decide +kernel)
  have hmem := List.mem_map_of_mem (f := CharClass.foldKey) (Text.char_mem_chars hb hascii)
  simp only [Raw.isKeyword, Text.equalFold, beq_iff_eq] at h
  rw [← h] at hmem
  have hbyte := hall b
  simpa [hascii, hmem] using hbyte

/-- The word of a short token ends with a blank, is ASCII, and has a letter that does not stand in
the keyword that renames a column. -/
theorem tail_of_mem_tokens {a : Text} (ha : 32 :: a ∈ tokens) (hshort : 32 ∉ a.dropLast) :
    a = a.dropLast ++ [32] ∧ byte ')' ∉ a.dropLast ∧
      (∀ c ∈ a.dropLast, Raw.isBlankByte (Text.lowerByte c) = false ∧ Text.lowerByte c < 0x80) ∧
      ∃ c ∈ a.dropLast, ¬ (Text.lowerByte c = 97 ∨ Text.lowerByte c = 115) := by
  have hall : ∀ s ∈ tokens, 32 ∈ s.tail.dropLast ∨
      s.tail = s.tail.dropLast ++ [32] ∧ byte ')' ∉ s.tail.dropLast ∧
      (s.tail.dropLast.all fun c =>
        !Raw.isBlankByte (Text.lowerByte c) && decide (Text.lowerByte c < 0x80)) = true ∧
      (s.tail.dropLast.any fun c => Text.lowerByte c != 97 && Text.lowerByte c != 115) = true := by
    decide
  simpa using (hall _ ha).resolve_left hshort

theorem lowerByte_facts {b : UInt8}
    (h : Raw.isBlankByte (Text.lowerByte b) = false ∧ Text.lowerByte b < 0x80) :
    Raw.isBlankByte b = false ∧ b < 0x80 := by
  grind [Raw.isBlankByte, Text.lowerByte]

/-- **Raw items are woven between parentheses**, whatever they are called: the only word with a
blank on either side is the one that renames a column. -/
theorem woven_item (h : Raw.IsItem t) : Woven t (byte ')' :: rest) := by
  have hinert := inert_of_isField (isField_of_isItem h)
  refine woven_of_loose fun u b v ht => ⟨?_, ?_⟩
  · have hb := hinert b (by simp [ht])
    simp only [isInert, Bool.and_eq_true, beq_iff_eq] at hb
    exact hb.1
  rintro rfl k hk
  rw [Bool.eq_false_iff]
  intro hs
  obtain ⟨a, more, rfl, ha, hshort⟩ := exists_short_token hk
  obtain ⟨hlast, hparen, hplain, c, hc, hother⟩ := tail_of_mem_tokens ha hshort
  rw [List.cons_append, startsWithWord_cons, Bool.and_eq_true] at hs
  have hfound := (startsWithWord_append hs.2).1
  rw [hlast] at hfound
  obtain ⟨w, v, rfl, hw⟩ := exists_word_before_paren hparen hfound
  have hne : w ≠ [] := by
    rintro rfl
    rw [List.map_nil, eq_comm, List.map_eq_nil_iff] at hw
    rw [hw] at hc
    cases hc
  obtain ⟨list, items, hitems, hmem⟩ := id h
  have hpart : u ++ 32 :: (w ++ 32 :: v) ∈ Raw.parts list := by
    rw [← ht]
    unfold Raw.items at hitems
    split at hitems
    · cases hitems
    · cases hitems
      exact hmem
  have hkeyword : Raw.isKeyword "AS" w = true := by
    refine Raw.isKeyword_of_between hpart ?_ hne fun b hb => ?_
    · rw [← ht]
      exact isField_of_isItem h
    · obtain ⟨x, hx, hlow⟩ := List.mem_map.mp (hw ▸ List.mem_map_of_mem hb)
      exact (lowerByte_facts (hlow ▸ hplain x hx)).1
  obtain ⟨b, hb, hlow⟩ := List.mem_map.mp (hw ▸ List.mem_map_of_mem hc)
  have hascii := (lowerByte_facts (hlow ▸ hplain c hc)).2
  exact hother (hlow ▸ lowerByte_of_isKeyword hkeyword hb hascii)

end Sql

variable {st : Settings} {n m : Nat} {t : Text}

theorem weaves_ident {v : Text} (h : (Lexicon.unreserved st.quoted).Name v) :
    Weaves (st.ident v) := by
  refine ⟨fun rest hrest => ?_, (valued_ident h).apart⟩
  unfold Settings.ident
  split
  · exact (weaves_quoted (quoteIdent_ne_nil st.dialect v) fun rest hrest =>
      quotedLength_quoteIdent st.dialect v hrest.fresh).woven rest hrest
  · rename_i hq
    exact woven_solid (isSolid_of_words (all_isWordByte_of_names (h.resolve_left hq).1))

/-- A column behind its alias. -/
theorem weaves_column {a c : Text} (ha : (Lexicon.unreserved st.quoted).Alias a)
    (hc : (Lexicon.unreserved st.quoted).Name c) : Weaves (st.ident a ++ "." ++ st.ident c) := by
  refine ⟨fun rest hrest => ?_, (valued_column ha hc).apart⟩
  have halias : Woven (st.ident a) ("." ++ (st.ident c ++ rest)) := by
    unfold Settings.ident
    split
    · have hl : quotedLength (st.profile.quoteIdent a ++
          ("." ++ (st.profile.quoteIdent c ++ rest))) = (st.profile.quoteIdent a).length :=
        quotedLength_quoteIdent st.dialect a (fresh_cons.mpr rfl)
      have hw : Woven (st.profile.quoteIdent a ++ []) _ :=
        .quoted (quoteIdent_ne_nil st.dialect a) hl .nil
      rwa [List.append_nil] at hw
    · rename_i hq
      rcases ha with rfl | ha
      · exact .nil
      · exact woven_solid (isSolid_of_words (all_isWordByte_of_names (ha.resolve_left hq).1))
  have hdot : Woven "." (st.ident c ++ rest) := woven_solid (by decide)
  rw [List.append_assoc]
  exact Woven.append (by simpa using halias) (hdot.append ((weaves_ident hc).woven rest hrest))

/-! ### The grammar -/

/-- Two texts with a token between them. -/
theorem weaves_token {x : Text × Text} {a b : Text} (hx : x ∈ negations) (ha : Weaves a)
    (hb : Weaves b) : Weaves (a ++ x.1 ++ b) := by
  obtain ⟨htoken, -, -⟩ := token_eq_blank_cons hx
  have hends : ∀ u, Ends (x.1 ++ u) := fun u => by
    rw [htoken]
    exact ends_cons (.inl rfl)
  refine ⟨fun rest hrest => ?_, fun rest hrest => ?_⟩
  · rw [List.append_assoc]
    exact (ha.woven _ (by simpa using hends (b ++ rest))).append
      (.token hx (hb.apart rest hrest) (hb.woven rest hrest))
  · rw [List.append_assoc, List.append_assoc]
    exact ha.apart _ (hends _)

/-- A negated text starts like the text itself. -/
theorem Sql.Weaves.negate (h : Weaves t) : Weaves (Sql.negate t) := by
  refine ⟨fun rest hrest => (h.woven rest hrest).negate, fun rest hrest => ?_⟩
  exact (h.apart rest hrest).of_alike ((h.woven rest hrest).rewrites.alike.append_right rest)

mutual

/-- **The texts of values are woven.** -/
theorem ValueText.weaves {n m : Nat} {t : Text} :
    ValueText st (.unreserved st.quoted) n m t → Weaves t
  | .word h => weaves_valueWord h
  | .mark => weaves_placeholder st.dialect _
  | .column ha hc => weaves_column ha hc
  | .bare hc => weaves_ident hc
  | .raw hf hraw _ => weaves_call hf fun _ => woven_item hraw
  | .call hf h => weaves_call hf fun rest => h.weaves.woven _ (ends_paren rest)
  | .op hs ha hb => weaves_op hs ha.weaves hb.weaves
  | .minus h => weaves_minus h.weaves
  | .choice hc ha hb => weaves_choice hc.weaves ha.weaves hb.weaves
  | .counted hc => weaves_counted hc.weaves

/-- **The texts of conditions are woven.** -/
theorem ConditionText.weaves {n m : Nat} {t : Text} :
    ConditionText st (.unreserved st.quoted) n m t → Weaves t
  | .compare ht ha hb => by
    obtain ⟨u, -, hx, -⟩ := exists_complement ht
    exact weaves_token hx ha.weaves hb.weaves
  | .group hc => weaves_call (f := []) (by decide) fun rest => hc.weaves.woven _ (ends_paren rest)
  | .join ht ha hb => by
    have hall : ∀ token ∈ logicalTokens, ∃ x ∈ negations, x.1 = token := by decide
    obtain ⟨x, hx, rfl⟩ := hall _ ht
    exact weaves_token hx ha.weaves hb.weaves
  | .negate hc => hc.weaves.negate

end

/-- **Negation undoes itself on emitted conditions.** Whatever is compiled for a clause that holds a
condition adds a text that negating twice leaves as it is, provided that names are quoted or that no
alias and no column looks like a keyword. -/
theorem negate_negate_compiled (d d' : Draft) (e : Expr) (c : Clause) (ds : List Direction)
    (hc : c.isCondition = true)
    (hn : d.settings.quoted = true ∨ e.Named d.settings (.unreserved d.settings.quoted) ∧
      d.slate.aliases.Within (.unreserved d.settings.quoted))
    (h : d.compile e c ds = (d', .ok ())) :
    ∃ t, d'.text = d.text ++ t ∧ negate (negate t) = t := by
  have hnamed : e.Named d.settings (.unreserved d.settings.quoted) ∧
      d.slate.aliases.Within (.unreserved d.settings.quoted) := by
    refine hn.elim (fun hq => ?_) id
    have hL := permissive_unreserved hq
    exact ⟨e.named_of_permissive hL, AliasTable.within_of_permissive hL _⟩
  obtain ⟨t, s, rfl, ⟨-, rfl, -⟩ | hy⟩ := Draft.compile_condition hc h
  · exact ⟨[], rfl, rfl⟩
  · obtain ⟨-, ht⟩ := (Expr.lawful_render hnamed.1).condition c _ t s hnamed.2 hy
    refine ⟨t, rfl, ?_⟩
    rcases ht with ⟨rfl, -⟩ | ht
    · rfl
    · exact (ht.weaves.woven [] ends_nil).negate_negate

/-! ### A raw item that opens a `CASE` -/

/-- An age, and more than five of a column that is called like a keyword. -/
def Sample.agedWithCase : Expr :=
  .binary .and (Sample.hasAge 1) (.binary .greaterThan
    (.staticOf "Max" [.value (.string "case")]) (.value (.int .int 5)))

open Sample in
/-- The names of customers are unreserved, and so a condition on them is negated and negated back,
also where a raw item keeps the rest of it from being negated. -/
theorem negate_negate_agedWithCase :
    ∃ d, (Draft.new (.standard .sqlServer world)).compile agedWithCase .where_ [] = (d, .ok ()) ∧
      negate d.text = "c.age <> @p1 OR MAX(case) > @p2" ∧ negate (negate d.text) = d.text := by
  have hrow : customerRow.Named (.standard .sqlServer world) (.unreserved false) := by
    obtain ⟨hname, hentity⟩ := customerRow_readable .sqlServer
    exact ⟨hname, fun e he => ⟨(hentity e he).1, trivial, (hentity e he).2.2⟩⟩
  have hnamed : agedWithCase.Named (.standard .sqlServer world) (.unreserved false) :=
    ⟨⟨hrow, trivial⟩, ⟨trivial, ⟨trivial, trivial⟩,
      fun _ _ _ _ => Expr.rawArgumentTo_of_raw (fun _ => trivial) _ _⟩, trivial⟩
  have text : whereText? (.standard .sqlServer world) agedWithCase =
      some ("c.age = @p1 AND MAX(case) > @p2" : Text) := by
    decide +kernel
  obtain ⟨d, hd, ht⟩ := compile_of_whereText? text
  obtain ⟨t, htext, hback⟩ := negate_negate_compiled _ d agedWithCase .where_ [] rfl
    (.inr ⟨hnamed, AliasTable.within_empty _⟩) hd
  obtain rfl : d.text = t := htext
  refine ⟨d, hd, ?_, hback⟩
  rw [ht]
  decide +kernel

end QueryTree
