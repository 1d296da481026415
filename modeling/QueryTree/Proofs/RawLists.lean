import Mathlib.Data.Bool.AllAny
import Mathlib.Data.List.TakeWhile
import QueryTree.Proofs.Escapes
import QueryTree.Proofs.RoundTrip
import QueryTree.Proofs.SelectLists

/-!
# Raw lists, item by item

`Raw.items` takes a list of names that a caller wrote as SQL text, and nothing else that a caller
writes becomes SQL text. So what it takes is described here a second time, by shape: a list is
accepted exactly when every part between two commas is blank or a plain item, and its items are the
parts that are not blank.

The reader cuts an item into words and compares the words, while the shape is that of the whole
item, blanks included. The two agree on trimmed texts only, since the words of an item do not tell
whether a blank stands before the first one.

A keyword may stand in any case, and case is that of Unicode: the upper case of the long s is `S`,
so it may stand in a keyword for an s. It is the only character of an item that is not ASCII.

## Main definitions

* `Raw.IsQualified`, `Raw.IsColumn`: the names of columns, by shape
* `Raw.IsFieldItem`, `Raw.IsOrderItem`: the items, by shape
* `Raw.isItemChar`: letters, digits, the underscore, the point, the star and white space

## Main results

* `Raw.isField_iff`, `Raw.isOrder_iff`: the reader takes the items of that shape
* `Raw.parts_join`: items with commas between them are read back
* `Raw.items_exact`: what is accepted, what is answered, and that reading again changes nothing
-/

namespace QueryTree

/-! ### Characters and their case -/

namespace CharClass

/-- Whether a run leads from outside ASCII into it for the characters of two codes at most. -/
def leadsInFrom (a b : Nat) (run : Nat × Nat × Nat × Nat) : Bool :=
  0x80 ≤ run.2.2.2 || run.2.1 < 0x80 || (run.1 == a && run.2.1 == a) ||
    (run.1 == b && run.2.1 == b)

/-- Only those characters are mapped into ASCII. -/
theorem ascii_of_mapRuns {table : List (Nat × Nat × Nat × Nat)} {a b c : Char}
    (hvalid : table.all isValidRun = true)
    (hall : table.all (leadsInFrom a.toNat b.toNat) = true)
    (h : (mapRuns table c).toNat < 0x80) : c.toNat < 0x80 ∨ c = a ∨ c = b := by
  rcases mapRuns_run hvalid c with
    hsame | ⟨first, last, step, target, hrun, hfirst, hlast, -, hto⟩
  · rw [hsame] at h
    exact .inl h
  · have hleads := List.all_eq_true.mp hall _ hrun
    simp only [leadsInFrom, Bool.or_eq_true, Bool.and_eq_true, decide_eq_true_eq, beq_iff_eq]
      at hleads
    have hcode : c.toNat < 0x80 ∨ c.toNat = a.toNat ∨ c.toNat = b.toNat := by omega
    exact hcode.imp_right (.imp (Char.toNat_inj.mp ·) (Char.toNat_inj.mp ·))

/-- Two characters outside ASCII have an upper case inside it: the dotless i and the long s. -/
theorem ascii_of_upper {c : Char} (h : (upper c).toNat < 0x80) :
    c.toNat < 0x80 ∨ c = 'ı' ∨ c = 'ſ' := by
  by_cases hc : c.toNat < 0x80
  · exact .inl hc
  · rw [upper, if_neg hc] at h
    exact ascii_of_mapRuns toUpper_valid (by decide +kernel) h

/-- Two characters outside ASCII have a lower case inside it: the dotted i and the Kelvin sign. -/
theorem ascii_of_lower {c : Char} (h : (lower c).toNat < 0x80) :
    c.toNat < 0x80 ∨ c = 'İ' ∨ c = '\u212a' := by
  by_cases hc : c.toNat < 0x80
  · exact .inl hc
  · rw [lower, if_neg hc] at h
    exact ascii_of_mapRuns (by decide +kernel) (by decide +kernel) h

/-- The letters of the keywords of items. -/
def keywordLetters : List Char := ['A', 'S', 'C', 'D', 'E']

/-- A character in the case of a keyword's letter is ASCII or the long s. -/
theorem ascii_of_foldKey {c k : Char} (hk : k ∈ keywordLetters) (h : foldKey c = foldKey k) :
    c.toNat < 0x80 ∨ c = 'ſ' := by
  have hkeys : ∀ k ∈ keywordLetters, (foldKey k).toNat < 0x80 ∧ foldKey k ≠ lower 'İ' ∧
      foldKey k ≠ lower '\u212a' :=
    List.all_iff_forall_prop.mp (by decide)
  obtain ⟨hascii, hdotted, hkelvin⟩ := hkeys k hk
  rw [← h] at hascii hdotted hkelvin
  have hplain : c ≠ 'İ' ∧ c ≠ 'ı' := by
    constructor <;>
    · rintro rfl
      revert hascii
      decide
  have hkey : foldKey c = lower (upper c) := by
    refine if_neg ?_
    simp only [Bool.or_eq_true, beq_iff_eq, not_or]
    exact ⟨fun hc => hplain.1 (Char.toNat_inj.mp hc), fun hc => hplain.2 (Char.toNat_inj.mp hc)⟩
  rw [hkey] at hascii hdotted hkelvin
  rcases ascii_of_lower hascii with hupper | hupper | hupper
  · exact (ascii_of_upper hupper).imp_right fun hc => hc.resolve_left hplain.2
  · exact absurd (congrArg lower hupper) hdotted
  · exact absurd (congrArg lower hupper) hkelvin

/-- What is in the case of a keyword's letter has that letter as its upper case. -/
theorem foldKey_eq_iff {c k : Char} (hk : k ∈ keywordLetters) :
    foldKey c = foldKey k ↔ upper c = k := by
  have hletters : ∀ k ∈ keywordLetters, foldKey 'ſ' = foldKey k → upper 'ſ' = k :=
    List.all_iff_forall_prop.mp (by decide)
  have hascii : ∀ k ∈ keywordLetters, ∀ n < 0x80, foldKey (Char.ofNat n) = foldKey k →
      upper (Char.ofNat n) = k :=
    List.all_iff_forall_prop.mp (by decide +kernel)
  constructor
  · intro h
    rcases ascii_of_foldKey hk h with hc | rfl
    · have := hascii k hk c.toNat hc
      rw [Char.ofNat_toNat] at this
      exact this h
    · exact hletters k hk h
  · rintro rfl
    refine (foldKey_upper fun hc => ?_).symm
    obtain rfl : c = 'ı' := Char.toNat_inj.mp hc
    revert hk
    decide

end CharClass

namespace Text

/-- A text without malformed bytes is that of its characters. -/
theorem eq_ofChars {t : Text} (h : replacementChar ∉ t.chars) : t = ofChars t.chars := by
  have hruns : ∀ rs : List Rune, replacementChar ∉ rs.map Rune.toChar →
      ofRunes rs = ofChars (rs.map Rune.toChar) := by
    intro rs hrs
    induction rs with
    | nil => rfl
    | cons r rs ih =>
      rw [List.map_cons, List.mem_cons, not_or] at hrs
      rw [ofRunes, List.flatMap_cons, ← ofRunes, ih hrs.2, List.map_cons, ofChars, ofChars,
        List.flatMap_cons]
      cases r with
      | char c => rfl
      | stray b => exact absurd rfl hrs.1
  rw [chars, ← hruns t.runes h, ofRunes_runes]

/-- An ASCII text is that of its bytes as characters. -/
theorem eq_ofChars_of_isAscii {t : Text} (h : t.isAscii = true) :
    t = ofChars (t.map fun b => Char.ofNat b.toNat) := by
  have hruns := runes_append h []
  rw [List.append_nil] at hruns
  conv_lhs => rw [← ofRunes_runes t, hruns]
  simp [runes, runesFrom, ofRunes, ofChars, List.flatMap_map, Rune.bytes]

/-- Nothing is trimmed from a text whose first and last characters are no blanks. -/
theorem trimSpace_ofChars {cs : List Char} (hfirst : ∀ c ∈ cs.head?, CharClass.isSpace c = false)
    (hlast : ∀ c ∈ cs.getLast?, CharClass.isSpace c = false) :
    trimSpace (ofChars cs) = ofChars cs := by
  have hkeep : ∀ {ds : List Char}, (∀ c ∈ ds.head?, CharClass.isSpace c = false) →
      (ds.map Rune.char).dropWhile isBlank = ds.map Rune.char := by
    intro ds h
    cases ds with
    | nil => rfl
    | cons d ds => exact List.dropWhile_cons_of_neg (by simpa [isBlank] using h d rfl)
  have htext : ∀ ds : List Char, ofRunes (ds.map Rune.char) = ofChars ds := fun ds => by
    simp [ofRunes, ofChars, List.flatMap_map, Rune.bytes]
  have hback : (cs.reverse.map Rune.char).dropWhile isBlank = cs.reverse.map Rune.char :=
    hkeep (by simpa using hlast)
  rw [trimSpace, trimStart, runes_ofChars, hkeep hfirst, htext, trimEnd, runes_ofChars,
    ← List.map_reverse, hback, ← List.map_reverse, List.reverse_reverse, htext]

/-- A blank at the front is trimmed away. -/
theorem trimSpace_cons_ofChars (cs : List Char) :
    trimSpace (32 :: ofChars cs) = trimSpace (ofChars cs) := by
  have hcons : (32 :: ofChars cs : Text) = ofChars (' ' :: cs) := rfl
  rw [hcons, trimSpace, trimSpace, trimStart, trimStart, runes_ofChars, runes_ofChars,
    List.map_cons, List.dropWhile_cons_of_pos (by decide)]

theorem cut?_of_not_mem {b : UInt8} {t : Text} (h : b ∉ t) : t.cut? b = none := by
  unfold cut?
  rw [List.span_eq_takeWhile_dropWhile, List.dropWhile_eq_nil_iff.mpr ?_]
  exact fun c hc => bne_iff_ne.mpr fun hcb => h (hcb ▸ hc)

theorem cut?_append {b : UInt8} {u : Text} (h : b ∉ u) (v : Text) :
    (u ++ b :: v).cut? b = some (u, v) := by
  have hu : ∀ c ∈ u, (c != b) = true := fun c hc => bne_iff_ne.mpr fun hcb => h (hcb ▸ hc)
  unfold cut?
  rw [List.span_eq_takeWhile_dropWhile, List.takeWhile_append_of_pos hu,
    List.dropWhile_append_of_pos hu]
  simp

/-- The parts before and after a separator. -/
theorem splitByte_append_cons (b : UInt8) (u v : Text) :
    splitByte b (u ++ b :: v) = splitByte b u ++ splitByte b v := by
  induction u with
  | nil => exact if_pos rfl
  | cons c u ih =>
    rw [List.cons_append, splitByte, splitByte, ih]
    by_cases hc : c = b
    · rw [if_pos hc, if_pos hc, List.cons_append]
    · rw [if_neg hc, if_neg hc]
      cases hparts : splitByte b u with
      | nil =>
        cases u with
        | nil => cases hparts
        | cons d u =>
          rw [splitByte] at hparts
          split at hparts
          · cases hparts
          · split at hparts <;> cases hparts
      | cons part parts => rfl

end Text

namespace Raw

/-! ### The shape of items -/

/-- Blanks between two words. -/
def IsBlanks (t : Text) : Prop := t ≠ [] ∧ ∀ b ∈ t, isBlankByte b = true

/-- The keyword in any case. -/
def IsCaseOf (keyword word : Text) : Prop := word.toUpper = keyword

/-- An identifier, perhaps after another one and a point. -/
inductive IsQualified : Text → Prop
  | name {column : Text} (hc : isIdentifier column = true) : IsQualified column
  | of {table column : Text} (ht : isIdentifier table = true) (hc : isIdentifier column = true) :
    IsQualified (table ++ byte '.' :: column)

/-- A column, or all columns, of one table or of every table. -/
inductive IsColumn : Text → Prop
  | all : IsColumn "*"
  | allOf {table : Text} (ht : isIdentifier table = true) : IsColumn (table ++ ".*")
  | one {column : Text} (hc : IsQualified column) : IsColumn column

/-- A plain item of a select list: a column, perhaps with another name. -/
inductive IsFieldItem : Text → Prop
  | column {column : Text} (hc : IsColumn column) : IsFieldItem column
  | renamed {column gap keyword gap' name : Text} (hc : IsColumn column) (hg : IsBlanks gap)
    (hk : IsCaseOf "AS" keyword) (hg' : IsBlanks gap') (hn : isIdentifier name = true) :
    IsFieldItem (column ++ gap ++ keyword ++ gap' ++ name)

/-- A plain item of an order list: a column, perhaps with a direction. -/
inductive IsOrderItem : Text → Prop
  | column {column : Text} (hc : IsQualified column) : IsOrderItem column
  | directed {column gap keyword : Text} (hc : IsQualified column) (hg : IsBlanks gap)
    (hk : IsCaseOf "ASC" keyword ∨ IsCaseOf "DESC" keyword) :
    IsOrderItem (column ++ gap ++ keyword)

/-- A plain item of a list. -/
def IsPlain (ordered : Bool) (t : Text) : Prop := if ordered then IsOrderItem t else IsFieldItem t

/-- Whether the character may stand in an item: the underscore, the point, the star, white space,
a digit or a letter. -/
def isItemChar (c : Char) : Bool :=
  c == '_' || c == '.' || c == '*' || CharClass.isSpace c || CharClass.isDigit c ||
    CharClass.isLetter c

/-! ### Words of an item -/

/-- No blank stands at either end of the text. -/
def IsTrimmed (t : Text) : Prop :=
  ∀ b, b ∈ t.head? ∨ b ∈ t.getLast? → isBlankByte b = false

theorem words_append_gap {gap : Text} (hg : IsBlanks gap) (u v : Text) :
    words (u ++ gap ++ v) = words u ++ words v := by
  obtain ⟨hne, hblank⟩ := hg
  induction gap generalizing u with
  | nil => exact absurd rfl hne
  | cons b gap ih =>
    rw [List.append_assoc, List.cons_append, words_append_blank (hblank b List.mem_cons_self)]
    cases gap with
    | nil => rfl
    | cons c gap =>
      have := ih [] (List.cons_ne_nil c gap) fun x hx => hblank x (List.mem_cons_of_mem b hx)
      rw [List.nil_append] at this
      rw [this]
      rfl

/-- The words of a text that starts with one: what stands before the first blank, and the words
behind the blanks there. -/
theorem words_of_head {t : Text} {b : UInt8} (hb : b ∈ t.head?) (h : isBlankByte b = false) :
    words t = [t] ∧ (∀ c ∈ t, isBlankByte c = false) ∨ ∃ word gap rest, t = word ++ gap ++ rest ∧
      IsBlanks gap ∧ (∀ c ∈ rest.head?, isBlankByte c = false) ∧ words t = word :: words rest := by
  have hsplit := List.takeWhile_append_dropWhile (p := fun c => !isBlankByte c) (l := t)
  have hword : ∀ c ∈ t.takeWhile fun c => !isBlankByte c, isBlankByte c = false := fun c hc => by
    simpa using List.mem_takeWhile_imp hc
  have hne : t.takeWhile (fun c => !isBlankByte c) ≠ [] := by
    cases t with
    | nil => cases hb
    | cons c t =>
      obtain rfl : c = b := by simpa using hb
      simp [h]
  revert hsplit hword hne
  generalize t.takeWhile (fun c => !isBlankByte c) = word
  cases hrest : t.dropWhile fun c => !isBlankByte c with
  | nil =>
    intro hsplit hword hne
    rw [List.append_nil] at hsplit
    subst hsplit
    exact .inl ⟨words_of_noBlank hne hword, hword⟩
  | cons c rest =>
    intro hsplit hword hne
    have hc : isBlankByte c = true := by
      have := List.head?_dropWhile_not (fun c => !isBlankByte c) t
      rw [hrest] at this
      simpa using this
    have hgap := List.takeWhile_append_dropWhile (p := isBlankByte) (l := rest)
    have hblanks : IsBlanks (c :: rest.takeWhile isBlankByte) := by
      refine ⟨List.cons_ne_nil _ _, fun x hx => ?_⟩
      rcases List.mem_cons.mp hx with rfl | hx
      · exact hc
      · exact List.mem_takeWhile_imp hx
    have htext : t = word ++ (c :: rest.takeWhile isBlankByte) ++ rest.dropWhile isBlankByte := by
      rw [List.append_assoc, List.cons_append, hgap, hsplit]
    refine .inr ⟨word, _, _, htext, hblanks, fun x hx => ?_, ?_⟩
    · have := List.head?_dropWhile_not isBlankByte rest
      rw [hx] at this
      simpa using this
    · conv_lhs => rw [htext]
      rw [words_append_gap hblanks, words_of_noBlank hne hword]
      rfl

theorem isTrimmed_trimSpace (t : Text) : IsTrimmed (Text.trimSpace t) := fun _ => ends_trimSpace

/-- The rest behind the first word of a trimmed text is trimmed. -/
theorem words_cons {t word : Text} {ws : List Text} (ht : IsTrimmed t) (h : words t = word :: ws) :
    ws = [] ∧ t = word ∨ ∃ gap rest, t = word ++ gap ++ rest ∧ IsBlanks gap ∧ IsTrimmed rest ∧
      words rest = ws ∧ ws ≠ [] := by
  have hne : t ≠ [] := by
    rintro rfl
    cases h
  have hhead := List.head?_eq_some_head hne
  rcases words_of_head hhead (ht _ (.inl hhead)) with
    ⟨hone, -⟩ | ⟨first, gap, rest, htext, hg, hrest, hwords⟩
  · rw [hone] at h
    cases h
    exact .inl ⟨rfl, rfl⟩
  · rw [hwords] at h
    cases h
    have hsome : rest ≠ [] := by
      rintro rfl
      rw [List.append_nil] at htext
      obtain ⟨b, hb⟩ := List.getLast?_isSome.mpr hg.1 |> Option.isSome_iff_exists.mp
      have hlast : b ∈ t.getLast? := by
        rw [htext, List.getLast?_append, hb]
        rfl
      have := ht b (.inr hlast)
      rw [hg.2 b (List.mem_of_getLast? hb)] at this
      cases this
    refine .inr ⟨gap, rest, htext, hg, ?_, rfl, ?_⟩
    · rintro b (hb | hb)
      · exact hrest b hb
      · refine ht b (.inr ?_)
        rw [htext, List.getLast?_append, Option.mem_def.mp hb]
        rfl
    · have hfirst := List.head?_eq_some_head hsome
      exact words_ne_nil (List.mem_of_head? hfirst) (hrest _ hfirst)

/-! ### The reader takes the items of that shape -/

theorem isNameByte_of_isIdentifier {t : Text} (h : isIdentifier t = true) :
    t ≠ [] ∧ ∀ b ∈ t, Sql.isNameByte b = true := by
  cases t with
  | nil => cases h
  | cons c t =>
    simp only [isIdentifier, Bool.and_eq_true, Bool.or_eq_true, List.all_eq_true, beq_iff_eq] at h
    refine ⟨List.cons_ne_nil c t, fun b hb => ?_⟩
    simp only [Sql.isNameByte, Bool.or_eq_true, beq_iff_eq]
    rcases List.mem_cons.mp hb with rfl | hb
    · exact h.1.imp_left .inl
    · exact h.2 b hb

theorem point_not_mem {t : Text} (h : isIdentifier t = true) : byte '.' ∉ t := fun hb =>
  absurd ((isNameByte_of_isIdentifier h).2 _ hb) (by decide)

theorem isQualified_iff {t : Text} : isQualified t = true ↔ IsQualified t := by
  unfold isQualified
  constructor
  · intro h
    split at h
    · exact .name h
    · rename_i table column hcut
      rw [Bool.and_eq_true] at h
      rw [Text.cut?_eq hcut]
      exact .of h.1 h.2
  · rintro (⟨hc⟩ | ⟨ht, hc⟩)
    · rw [Text.cut?_of_not_mem (point_not_mem hc)]
      exact hc
    · rw [Text.cut?_append (point_not_mem ht)]
      exact Bool.and_eq_true_iff.mpr ⟨ht, hc⟩

theorem isColumn_iff {t : Text} : isColumn t = true ↔ IsColumn t := by
  simp only [isColumn, Bool.or_eq_true, beq_iff_eq, isQualified_iff]
  constructor
  · rintro ((rfl | h) | h)
    · exact .all
    · exact .one h
    · split at h
      · rename_i table column hcut
        rw [Bool.and_eq_true, beq_iff_eq] at h
        rw [Text.cut?_eq hcut, h.2]
        exact .allOf h.1
      · cases h
  · rintro (_ | ⟨ht⟩ | ⟨hc⟩)
    · exact .inl (.inl rfl)
    · refine .inr ?_
      have hpoint : (".*" : Text) = byte '.' :: "*" := by decide
      rw [hpoint, Text.cut?_append (point_not_mem ht)]
      exact Bool.and_eq_true_iff.mpr ⟨ht, by decide⟩
    · exact .inl (.inr hc)

/-- Keywords consist of the letters of keywords. -/
theorem mem_keywordLetters {keyword : Text} (hk : keyword ∈ keywords) :
    ∀ c ∈ keyword.chars, c ∈ CharClass.keywordLetters := by
  have hall : ∀ k ∈ keywords, k.chars ⊆ CharClass.keywordLetters :=
    List.all_iff_forall_prop.mp (by decide)
  exact hall keyword hk

/-- A word in the case of a keyword has that keyword as its upper case. -/
theorem isKeyword_iff {keyword word : Text} (hk : keyword ∈ keywords) :
    isKeyword keyword word = true ↔ IsCaseOf keyword word := by
  have hmem := mem_keywordLetters hk
  have htexts : ∀ k ∈ keywords, Text.ofChars k.chars = k :=
    List.all_iff_forall_prop.mp (by decide)
  have htext := htexts keyword hk
  have hmap : ∀ (ks cs : List Char), (∀ c ∈ ks, c ∈ CharClass.keywordLetters) →
      (ks.map CharClass.foldKey = cs.map CharClass.foldKey ↔ cs.map CharClass.upper = ks) := by
    intro ks
    induction ks with
    | nil => intro cs _; cases cs <;> simp
    | cons k ks ih =>
      intro cs hks
      cases cs with
      | nil => simp
      | cons c cs =>
        rw [List.map_cons, List.map_cons, List.map_cons, List.cons.injEq, List.cons.injEq,
          ih cs fun c hc => hks c (List.mem_cons_of_mem k hc), eq_comm (a := CharClass.foldKey k),
          CharClass.foldKey_eq_iff (hks k List.mem_cons_self)]
  rw [isKeyword, Text.equalFold_iff, hmap _ _ hmem, IsCaseOf, Text.toUpper, Text.mapChars]
  constructor
  · intro h
    rw [h, htext]
  · intro h
    rw [← h, Text.chars_ofChars]

/-- A word has no blank in it. -/
def IsWord (t : Text) : Prop := t ≠ [] ∧ ∀ b ∈ t, isBlankByte b = false

/-- The bytes of items, those of keywords that are not ASCII apart. -/
def isItemByte (b : UInt8) : Bool :=
  Sql.isNameByte b || b == byte '.' || b == byte '*' || isBlankByte b

/-- The bytes of a column. -/
theorem IsColumn.bytes {t : Text} (h : IsColumn t) :
    t ≠ [] ∧ ∀ b ∈ t, isItemByte b = true ∧ isBlankByte b = false := by
  have hname : ∀ b : UInt8, Sql.isNameByte b = true →
      isItemByte b = true ∧ isBlankByte b = false := fun b hb =>
    ⟨by simp [isItemByte, hb], isBlankByte_of_test (by decide) hb⟩
  have hident : ∀ {t : Text}, isIdentifier t = true →
      ∀ b ∈ t, isItemByte b = true ∧ isBlankByte b = false := fun ht b hb =>
    hname b ((isNameByte_of_isIdentifier ht).2 b hb)
  have hstar : ∀ b ∈ (".*" : Text), isItemByte b = true ∧ isBlankByte b = false :=
    List.all_iff_forall_prop.mp (by decide)
  rcases h with _ | ⟨ht⟩ | ⟨⟨hc⟩ | ⟨ht, hc⟩⟩
  · exact ⟨by decide, fun b hb => hstar b (List.mem_cons_of_mem _ hb)⟩
  · refine ⟨by simp [(isNameByte_of_isIdentifier ht).1], fun b hb => ?_⟩
    rcases List.mem_append.mp hb with hb | hb
    · exact hident ht b hb
    · exact hstar b hb
  · exact ⟨(isNameByte_of_isIdentifier hc).1, hident hc⟩
  · refine ⟨by simp, fun b hb => ?_⟩
    rcases List.mem_append.mp hb with hb | hb
    · exact hident ht b hb
    · rcases List.mem_cons.mp hb with rfl | hb
      · exact ⟨by decide, by decide⟩
      · exact hident hc b hb

theorem IsColumn.isWord {t : Text} (h : IsColumn t) : IsWord t :=
  ⟨h.bytes.1, fun b hb => (h.bytes.2 b hb).2⟩

/-- The characters of a keyword. -/
theorem IsCaseOf.chars {keyword word : Text} (hk : keyword ∈ keywords)
    (h : IsCaseOf keyword word) : word ≠ [] ∧
      ∀ c ∈ word.chars, CharClass.upper c ∈ CharClass.keywordLetters := by
  have hne : ∀ k ∈ keywords, k ≠ [] := by decide
  rw [IsCaseOf, Text.toUpper, Text.mapChars] at h
  refine ⟨?_, fun c hc => mem_keywordLetters hk _ ?_⟩
  · rintro rfl
    exact hne keyword hk h.symm
  · rw [← h, Text.chars_ofChars]
    exact List.mem_map_of_mem hc

theorem IsCaseOf.isWord {keyword word : Text} (hk : keyword ∈ keywords)
    (h : IsCaseOf keyword word) : IsWord word := by
  refine ⟨(h.chars hk).1, fun b hb => ?_⟩
  rw [Bool.eq_false_iff]
  intro hblank
  have hletter := (h.chars hk).2 _ (Text.char_mem_chars hb (lt_of_isBlankByte hblank).1)
  have hno := isBlankByte_of_test (f := fun b => CharClass.keywordLetters.contains
    (CharClass.upper (Char.ofNat b.toNat))) (by decide) (List.contains_iff_mem.mpr hletter)
  rw [hblank] at hno
  cases hno

theorem isWord_of_isIdentifier {t : Text} (h : isIdentifier t = true) : IsWord t :=
  (IsColumn.one (.name h)).isWord

theorem words_of_isWord {t : Text} (h : IsWord t) : words t = [t] := words_of_noBlank h.1 h.2

/-- **The items of a select list are those of the plain shape.** -/
theorem isField_iff {t : Text} (ht : IsTrimmed t) : isField t = true ↔ IsFieldItem t := by
  unfold isField
  constructor
  · intro h
    split at h
    · rename_i column hwords
      obtain ⟨-, rfl⟩ := (words_cons ht hwords).resolve_right (by simp)
      exact .column (isColumn_iff.mp h)
    · rename_i column keyword name hwords
      simp only [Bool.and_eq_true] at h
      obtain ⟨⟨hc, hk⟩, hn⟩ := h
      obtain ⟨gap, rest, rfl, hg, hrest, hwords', -⟩ :=
        (words_cons ht hwords).resolve_left (by simp)
      obtain ⟨gap', rest', rfl, hg', hrest', hwords'', -⟩ :=
        (words_cons hrest hwords').resolve_left (by simp)
      obtain ⟨-, rfl⟩ := (words_cons hrest' hwords'').resolve_right (by simp)
      rw [← List.append_assoc, ← List.append_assoc]
      exact .renamed (isColumn_iff.mp hc) hg ((isKeyword_iff (by decide)).mp hk) hg' hn
    · cases h
  · rintro (⟨hc⟩ | ⟨hc, hg, hk, hg', hn⟩)
    · rw [words_of_isWord hc.isWord]
      exact isColumn_iff.mpr hc
    · rw [words_append_gap hg', words_append_gap hg, words_of_isWord hc.isWord,
        words_of_isWord (hk.isWord (by decide)), words_of_isWord (isWord_of_isIdentifier hn)]
      simp only [List.cons_append, List.nil_append, Bool.and_eq_true]
      exact ⟨⟨isColumn_iff.mpr hc, (isKeyword_iff (by decide)).mpr hk⟩, hn⟩

/-- **The items of an order list are those of the plain shape.** -/
theorem isOrder_iff {t : Text} (ht : IsTrimmed t) : isOrder t = true ↔ IsOrderItem t := by
  unfold isOrder
  constructor
  · intro h
    split at h
    · rename_i column hwords
      obtain ⟨-, rfl⟩ := (words_cons ht hwords).resolve_right (by simp)
      exact .column (isQualified_iff.mp h)
    · rename_i column keyword hwords
      simp only [Bool.and_eq_true, Bool.or_eq_true] at h
      obtain ⟨gap, rest, rfl, hg, hrest, hwords', -⟩ :=
        (words_cons ht hwords).resolve_left (by simp)
      obtain ⟨-, rfl⟩ := (words_cons hrest hwords').resolve_right (by simp)
      exact .directed (isQualified_iff.mp h.1) hg
        (h.2.imp (isKeyword_iff (by decide)).mp (isKeyword_iff (by decide)).mp)
    · cases h
  · rintro (⟨hc⟩ | ⟨hc, hg, hk⟩)
    · rw [words_of_isWord (IsColumn.one hc).isWord]
      exact isQualified_iff.mpr hc
    · rw [words_append_gap hg, words_of_isWord (IsColumn.one hc).isWord,
        words_of_isWord (hk.elim (·.isWord (by decide)) (·.isWord (by decide)))]
      simp only [List.cons_append, List.nil_append, Bool.and_eq_true, Bool.or_eq_true]
      exact ⟨isQualified_iff.mpr hc,
        hk.imp (isKeyword_iff (by decide)).mpr (isKeyword_iff (by decide)).mpr⟩

/-! ### The characters of items -/

/-- The text of characters that are bytes of items or the long s. -/
def Spelled (t : Text) : Prop := ∃ cs, t = Text.ofChars cs ∧
  ∀ c ∈ cs, c.toNat < 0x80 ∧ isItemByte c.toNat.toUInt8 = true ∨ c = 'ſ'

theorem Spelled.append {t u : Text} (ht : Spelled t) (hu : Spelled u) : Spelled (t ++ u) := by
  obtain ⟨cs, rfl, hcs⟩ := ht
  obtain ⟨ds, rfl, hds⟩ := hu
  refine ⟨cs ++ ds, (Text.ofChars_append cs ds).symm, fun c hc => ?_⟩
  exact (List.mem_append.mp hc).elim (hcs c) (hds c)

theorem spelled_of_bytes {t : Text} (h : ∀ b ∈ t, isItemByte b = true) : Spelled t := by
  have hall : ∀ b : UInt8, (!isItemByte b || (b < 0x80 && (Char.ofNat b.toNat).toNat < 0x80 &&
      isItemByte (Char.ofNat b.toNat).toNat.toUInt8)) = true :=
    Text.forall_byte (by decide +kernel)
  have hbyte : ∀ b ∈ t, b < 0x80 ∧ (Char.ofNat b.toNat).toNat < 0x80 ∧
      isItemByte (Char.ofNat b.toNat).toNat.toUInt8 = true := by
    intro b hb
    simpa [h b hb, and_assoc] using hall b
  have hascii : t.isAscii = true :=
    List.all_eq_true.mpr fun b hb => decide_eq_true (hbyte b hb).1
  refine ⟨_, Text.eq_ofChars_of_isAscii hascii, fun c hc => ?_⟩
  obtain ⟨b, hb, rfl⟩ := List.mem_map.mp hc
  exact .inl (hbyte b hb).2

theorem IsColumn.spelled {t : Text} (h : IsColumn t) : Spelled t :=
  spelled_of_bytes fun b hb => (h.bytes.2 b hb).1

theorem IsBlanks.spelled {t : Text} (h : IsBlanks t) : Spelled t :=
  spelled_of_bytes fun b hb => by simp [isItemByte, h.2 b hb]

theorem IsCaseOf.spelled {keyword word : Text} (hk : keyword ∈ keywords)
    (h : IsCaseOf keyword word) : Spelled word := by
  have hascii : ∀ n < 0x80, CharClass.upper (Char.ofNat n) ∈ CharClass.keywordLetters →
      isItemByte (Char.ofNat n).toNat.toUInt8 = true := by
    decide +kernel
  have hletter := (h.chars hk).2
  refine ⟨_, Text.eq_ofChars fun hstray => ?_, fun c hc => ?_⟩
  · exact absurd (hletter _ hstray) (by decide +kernel)
  · refine (CharClass.ascii_of_foldKey (hletter c hc) ((CharClass.foldKey_eq_iff (hletter c hc)).mpr
      rfl)).imp_left fun hlt => ⟨hlt, ?_⟩
    have := hascii c.toNat hlt
    rw [Char.ofNat_toNat] at this
    exact this (hletter c hc)

theorem IsPlain.spelled {ordered : Bool} {t : Text} (h : IsPlain ordered t) : Spelled t := by
  cases ordered with
  | false =>
    rcases h with ⟨hc⟩ | ⟨hc, hg, hk, hg', hn⟩
    · exact hc.spelled
    · exact (((hc.spelled.append hg.spelled).append (hk.spelled (by decide))).append
        hg'.spelled).append (IsColumn.one (.name hn)).spelled
  | true =>
    rcases h with ⟨hc⟩ | ⟨hc, hg, hk⟩
    · exact (IsColumn.one hc).spelled
    · exact ((IsColumn.one hc).spelled.append hg.spelled).append
        (hk.elim (·.spelled (by decide)) (·.spelled (by decide)))

/-- What is spelled so is made of letters, digits, underscores, points, stars and white space. -/
theorem Spelled.isItemChar {t : Text} (h : Spelled t) :
    ∃ cs, t = Text.ofChars cs ∧ ∀ c ∈ cs, isItemChar c = true ∧ (c.toNat < 0x80 ∨ c = 'ſ') := by
  have hascii : ∀ n < 0x80, isItemByte n.toUInt8 = true → Raw.isItemChar (Char.ofNat n) = true := by
    decide +kernel
  obtain ⟨cs, rfl, hcs⟩ := h
  refine ⟨cs, rfl, fun c hc => ?_⟩
  rcases hcs c hc with ⟨hlt, hbyte⟩ | rfl
  · have := hascii c.toNat hlt hbyte
    rw [Char.ofNat_toNat] at this
    exact ⟨this, .inl hlt⟩
  · exact ⟨by decide, .inr rfl⟩

/-- Blanks in front of a trimmed item, or none, are trimmed away. -/
theorem Spelled.trimSpace {t : Text} (h : Spelled t) (ht : IsTrimmed t) :
    Text.trimSpace t = t ∧ Text.trimSpace (32 :: t) = t := by
  have hascii : ∀ n < 0x80, isItemByte n.toUInt8 = true →
      CharClass.isSpace (Char.ofNat n) = true → isBlankByte n.toUInt8 = true ∧
        Text.ofChar (Char.ofNat n) = [n.toUInt8] := by
    decide +kernel
  obtain ⟨cs, rfl, hcs⟩ := h
  have hends : ∀ c ∈ cs, CharClass.isSpace c = true → ∃ b, isBlankByte b = true ∧
      Text.ofChar c = [b] := by
    intro c hc hspace
    rcases hcs c hc with ⟨hlt, hbyte⟩ | rfl
    · have := hascii c.toNat hlt hbyte
      rw [Char.ofNat_toNat] at this
      exact ⟨_, this hspace⟩
    · exact absurd hspace (by decide +kernel)
  have hsame : Text.trimSpace (Text.ofChars cs) = Text.ofChars cs := by
    refine Text.trimSpace_ofChars (fun c hc => ?_) (fun c hc => ?_)
    · rw [Bool.eq_false_iff]
      intro hspace
      obtain ⟨b, hb, hbytes⟩ := hends c (List.mem_of_mem_head? hc) hspace
      obtain ⟨ds, rfl⟩ := List.head?_eq_some_iff.mp hc
      have := ht b (.inl (by simp [Text.ofChars, hbytes]))
      rw [hb] at this
      cases this
    · rw [Bool.eq_false_iff]
      intro hspace
      obtain ⟨b, hb, hbytes⟩ := hends c (List.mem_of_getLast? hc) hspace
      obtain ⟨ds, rfl⟩ := List.getLast?_eq_some_iff.mp hc
      have := ht b (.inr (by simp [Text.ofChars, hbytes]))
      rw [hb] at this
      cases this
  exact ⟨hsame, (Text.trimSpace_cons_ofChars cs).trans hsame⟩

/-! ### Lists -/

theorem parts_eq (t : Text) :
    parts t = ((t.splitByte (byte ',')).map Text.trimSpace).filter (· ≠ []) :=
  List.filter_congr fun part _ => by cases part <;> rfl

/-- The items of a part without commas. -/
theorem parts_of_not_mem {t : Text} (h : byte ',' ∉ t) :
    parts t = [Text.trimSpace t].filter (· ≠ []) := by
  rw [parts_eq, Text.splitByte_of_not_mem h]
  rfl

theorem parts_append_cons (u v : Text) : parts (u ++ byte ',' :: v) = parts u ++ parts v := by
  rw [parts_eq, parts_eq, parts_eq, Text.splitByte_append_cons, List.map_append, List.filter_append]

/-- **Items with commas between them are read back**, with a blank in front or not. -/
theorem parts_join {ts : List Text} (h : ∀ t ∈ ts, t ≠ [] ∧ byte ',' ∉ t ∧
      Text.trimSpace t = t ∧ Text.trimSpace (32 :: t) = t) :
    parts (Text.join ", " ts) = ts ∧ parts (32 :: Text.join ", " ts) = ts := by
  induction ts with
  | nil => decide
  | cons t ts ih =>
    obtain ⟨hne, hcomma, htrim, htrim'⟩ := h t List.mem_cons_self
    have hcomma' : byte ',' ∉ (32 :: t : Text) := fun hb =>
      (List.mem_cons.mp hb).elim (by decide) hcomma
    have hone : parts t = [t] ∧ parts (32 :: t) = [t] := by
      rw [parts_of_not_mem hcomma, parts_of_not_mem hcomma', htrim, htrim']
      simp [hne]
    cases ts with
    | nil => simpa [Text.join] using hone
    | cons u us =>
      have hjoin : Text.join ", " (t :: u :: us) =
          t ++ byte ',' :: (32 :: Text.join ", " (u :: us)) := by
        rw [Text.join_cons_cons, List.append_assoc]
        rfl
      have hrest := (ih fun x hx => h x (List.mem_cons_of_mem t hx)).2
      rw [hjoin, ← List.cons_append, parts_append_cons, parts_append_cons, hone.1, hone.2, hrest]
      exact ⟨rfl, rfl⟩

theorem items_eq_ok {t : Text} {ordered : Bool} {out : List Text} : items t ordered = .ok out ↔
    (∀ part ∈ parts t, (if ordered then isOrder part else isField part) = true) ∧
      out = parts t := by
  unfold items
  constructor
  · intro h
    split at h
    · cases h
    · rename_i hfind
      cases h
      refine ⟨fun part hpart => ?_, rfl⟩
      simpa using List.find?_eq_none.mp hfind part hpart
  · rintro ⟨hall, rfl⟩
    split
    · rename_i part hfind
      have hbad := List.find?_some hfind
      rw [hall part (List.mem_of_find?_eq_some hfind)] at hbad
      cases hbad
    · rfl

/-- The reader takes the plain items. -/
theorem isItem_iff {ordered : Bool} {t : Text} (ht : IsTrimmed t) :
    (if ordered then isOrder t else isField t) = true ↔ IsPlain ordered t := by
  cases ordered with
  | false => exact isField_iff ht
  | true => exact isOrder_iff ht

theorem mem_parts {t part : Text} : part ∈ parts t ↔
    ∃ p ∈ t.splitByte (byte ','), Text.trimSpace p = part ∧ part ≠ [] := by
  simp only [parts_eq, List.mem_filter, List.mem_map, decide_eq_true_eq]
  grind

/-- **Raw lists are taken exactly when they are lists of plain items.** The items are the parts that
are not blank, in order; reading them again, with commas between them, gives the same items; and
they consist of letters, digits, underscores, points, stars and white space, all of them ASCII but
the long s, whose upper case is `S`. -/
theorem items_exact (t : Text) (ordered : Bool) (out : List Text) :
    (items t ordered = .ok out ↔
      (∀ part ∈ t.splitByte (byte ','),
        Text.trimSpace part = [] ∨ IsPlain ordered (Text.trimSpace part)) ∧
      out = ((t.splitByte (byte ',')).map Text.trimSpace).filter (· ≠ [])) ∧
    (items t ordered = .ok out → items (Text.join ", " out) ordered = .ok out ∧
      ∀ item ∈ out, ∃ cs, item = Text.ofChars cs ∧
        ∀ c ∈ cs, isItemChar c = true ∧ (c.toNat < 0x80 ∨ c = 'ſ')) := by
  have htrim : ∀ part ∈ parts t, IsTrimmed part := by
    intro part hpart
    obtain ⟨p, -, rfl, -⟩ := mem_parts.mp hpart
    exact isTrimmed_trimSpace p
  have hplain : (∀ part ∈ parts t, (if ordered then isOrder part else isField part) = true) ↔
      ∀ part ∈ parts t, IsPlain ordered part :=
    forall₂_congr fun part hpart => isItem_iff (htrim part hpart)
  refine ⟨?_, fun h => ?_⟩
  · rw [items_eq_ok, hplain, ← parts_eq]
    refine and_congr_left fun _ => ⟨fun h part hpart => ?_, fun h part hpart => ?_⟩
    · exact (eq_or_ne (Text.trimSpace part) []).imp_right fun hne =>
        h _ (mem_parts.mpr ⟨part, hpart, rfl, hne⟩)
    · obtain ⟨p, hp, rfl, hne⟩ := mem_parts.mp hpart
      exact (h p hp).resolve_left hne
  · obtain ⟨hall, rfl⟩ := items_eq_ok.mp h
    have hspelled : ∀ part ∈ parts t, Spelled part := fun part hpart =>
      (hplain.mp hall part hpart).spelled
    refine ⟨?_, fun item hitem => (hspelled item hitem).isItemChar⟩
    have hjoin : parts (Text.join ", " (parts t)) = parts t := by
      refine (parts_join fun part hpart => ⟨(mem_parts.mp hpart).elim fun _ h => h.2.2, ?_,
        (hspelled part hpart).trimSpace (htrim part hpart)⟩).1
      cases ordered with
      | false => exact byte_ne_comma (native_of_isField (hall part hpart))
      | true => exact byte_ne_comma (native_of_isOrder (hall part hpart))
    rw [items_eq_ok, hjoin]
    exact ⟨hall, rfl⟩

/-- A list of three parts, one of them blank, that is read. -/
theorem items_exact_renamed :
    items " c.*,\t, Name\taS  full_name " false = .ok ["c.*", "Name\taS  full_name"] ∧
      items "c.*, Name\taS  full_name" false = .ok ["c.*", "Name\taS  full_name"] :=
  have h : items " c.*,\t, Name\taS  full_name " false = .ok ["c.*", "Name\taS  full_name"] :=
    rfl
  ⟨h, ((items_exact _ _ _).2 h).1⟩

end Raw

end QueryTree
