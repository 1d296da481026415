import Mathlib.Data.List.TakeDrop
import QueryTree.Compile.Raw
import QueryTree.Proofs.Characters
import QueryTree.Proofs.Marks

/-!
# Raw items are inert

A text constant in a select or order list is SQL text. It is taken only when every item is a plain
name, perhaps renamed or with a direction, and that is enough for it to hold no mark and no quote: a
byte of an item is a blank, a byte of a name, or part of a keyword in some case. A keyword is
compared by its characters, so the last case needs that an ASCII byte of a text is one of its
characters, even if other bytes of the text are malformed.

Items are trimmed, so a word with a blank on either side is a keyword too.

## Main results

* `Text.char_mem_chars`: ASCII bytes are characters
* `Raw.isKeyword_of_between`: the only word between two blanks of an item
* `Raw.native_of_isField`, `Raw.native_of_isOrder`: the bytes of items
* `Sql.inert_of_isField`, `Sql.inert_of_isOrder`
-/

namespace QueryTree

/-! ### ASCII characters -/

namespace Text

theorem char_mem_runesFrom {k : Nat} {t : Text} (hk : ∀ x ∈ t.take k, ¬ x < 0x80) {b : UInt8}
    (hb : b ∈ t) (hascii : b < 0x80) : Rune.char (Char.ofNat b.toNat) ∈ runesFrom k t := by
  fun_induction runesFrom k t with
  | case1 => cases hb
  | case2 k x rest ih =>
    rw [List.take_succ_cons] at hk
    rcases List.mem_cons.mp hb with rfl | hb
    · exact absurd hascii (hk b (by simp))
    · exact ih (fun y hy => hk y (by simp [hy])) hb
  | case3 x rest c width hlead ih =>
    obtain ⟨hwidth, hc⟩ := leadingChar?_width hlead
    rcases List.mem_cons.mp hb with rfl | hb
    · rw [hc hascii]
      simp
    · exact List.mem_cons_of_mem _ (ih hwidth hb)
  | case4 x rest hlead ih =>
    rcases List.mem_cons.mp hb with rfl | hb
    · simp [leadingChar?, hascii] at hlead
    · exact List.mem_cons_of_mem _ (ih (by simp) hb)

/-- An ASCII byte of a text is one of its characters. -/
theorem char_mem_chars {t : Text} {b : UInt8} (hb : b ∈ t) (hascii : b < 0x80) :
    Char.ofNat b.toNat ∈ t.chars :=
  List.mem_map.mpr ⟨_, char_mem_runesFrom (k := 0) (by simp) hb hascii, rfl⟩

theorem cut?_eq {b : UInt8} {t x y : Text} (h : t.cut? b = some (x, y)) : t = x ++ b :: y := by
  unfold cut? at h
  rw [List.span_eq_takeWhile_dropWhile] at h
  have hcut := List.takeWhile_append_dropWhile (p := (· != b)) (l := t)
  cases hd : t.dropWhile (· != b) with
  | nil =>
    rw [hd] at h
    cases h
  | cons c u =>
    have hc : c = b := by
      have := List.head?_dropWhile_not (· != b) t
      rw [hd] at this
      simpa using this
    rw [hd] at h hcut
    cases h
    subst hc
    exact hcut.symm

/-! ### Blanks around a text -/

/-- An ASCII byte is a byte of no other character. -/
theorem toNat_of_mem_ofChar {c : Char} {b : UInt8} (h : b ∈ ofChar c) (hb : b < 0x80) :
    c.toNat = b.toNat := by
  have hbyte : ∀ n < 256, b = UInt8.ofNat n → n = b.toNat ∧ n < 128 := by
    intro n hn h
    rw [h] at hb ⊢
    rw [UInt8.lt_iff_toNat_lt] at hb
    rw [UInt8.toNat_ofNat_of_lt' hn] at hb ⊢
    exact ⟨rfl, hb⟩
  have hv : c.val.toNat = c.toNat := rfl
  unfold ofChar String.utf8EncodeChar at h
  simp only [hv] at h
  split at h
  · exact (hbyte _ (by omega) (List.mem_singleton.mp h)).1
  · exfalso
    split at h
    · simp only [List.mem_cons, List.not_mem_nil, or_false] at h
      rcases h with h | h <;> have := hbyte _ (by omega) h <;> omega
    · split at h
      · simp only [List.mem_cons, List.not_mem_nil, or_false] at h
        rcases h with h | h | h <;> have := hbyte _ (by omega) h <;> omega
      · simp only [List.mem_cons, List.not_mem_nil, or_false] at h
        rcases h with h | h | h | h <;> have := hbyte _ (by omega) h <;> omega

theorem stray_mem_runesFrom {k : Nat} {t : Text} {b : UInt8} (h : Rune.stray b ∈ runesFrom k t) :
    ¬ b < 0x80 := by
  fun_induction runesFrom k t with
  | case1 => cases h
  | case2 k x rest ih => exact ih h
  | case3 x rest c width hlead ih => exact ih (by simpa using h)
  | case4 x rest hlead ih =>
    rcases List.mem_cons.mp h with h | h
    · cases h
      intro hb
      simp [leadingChar?, hb] at hlead
    · exact ih h

theorem bytes_ne_nil (r : Rune) : r.bytes ≠ [] := by
  cases r with
  | char c => exact String.utf8EncodeChar_ne_nil
  | stray b => exact List.cons_ne_nil b []

theorem head?_ofRunes_cons (r : Rune) (rs : List Rune) :
    (ofRunes (r :: rs)).head? = r.bytes.head? := by
  rw [ofRunes, List.flatMap_cons, List.head?_append, List.head?_eq_some_head (bytes_ne_nil r),
    Option.some_or]

theorem getLast?_ofRunes_concat (r : Rune) (rs : List Rune) :
    (ofRunes (rs ++ [r])).getLast? = r.bytes.getLast? := by
  rw [ofRunes, List.flatMap_append, List.flatMap_singleton, List.getLast?_append,
    List.getLast?_eq_some_getLast (bytes_ne_nil r), Option.some_or]

/-- What is dropped from a list of runes stops before a rune that is no blank. -/
theorem dropWhile_isBlank {rs rs' : List Rune} {r : Rune} (h : rs.dropWhile isBlank = r :: rs') :
    isBlank r = false ∧ r ∈ rs := by
  have hr := List.head?_dropWhile_not isBlank rs
  rw [h] at hr
  exact ⟨hr, (List.dropWhile_sublist isBlank).subset (h ▸ List.mem_cons_self)⟩

end Text

/-! ### Items -/

namespace Raw

theorem lt_of_isBlankByte {b : UInt8} (h : isBlankByte b = true) :
    b < 0x80 ∧ 0 < b.toNat ∧ ∀ c : Char, c.toNat = b.toNat → Text.isBlank (.char c) = true := by
  simp only [isBlankByte, Bool.or_eq_true, beq_iff_eq] at h
  rcases h with (((rfl | rfl) | rfl) | rfl) | rfl
  all_goals exact ⟨by decide, by decide, fun c hc => by
    simp [Text.isBlank, CharClass.isSpace, hc]⟩

/-- A test that fails at every blank finds none. -/
theorem isBlankByte_of_test {f : UInt8 → Bool}
    (hf : ([32, 9, 10, 12, 13] : List UInt8).all (fun b => !f b) = true) {b : UInt8}
    (hb : f b = true) : isBlankByte b = false := by
  simpa [isBlankByte, and_assoc] using Text.not_mem_of_test hf hb

/-- A rune of a text that has the byte of a blank is a blank. -/
theorem isBlank_of_mem_bytes {t : Text} {r : Rune} {b : UInt8} (hr : r ∈ t.runes)
    (hb : b ∈ r.bytes) (h : isBlankByte b = true) : Text.isBlank r = true := by
  obtain ⟨hascii, -, hspace⟩ := lt_of_isBlankByte h
  cases r with
  | char c => exact hspace c (Text.toNat_of_mem_ofChar hb hascii)
  | stray x =>
    obtain rfl := List.mem_singleton.mp hb
    exact absurd hascii (Text.stray_mem_runesFrom hr)

theorem head_trimStart {t : Text} {b : UInt8} (hb : b ∈ (Text.trimStart t).head?) :
    isBlankByte b = false := by
  unfold Text.trimStart at hb
  cases hd : t.runes.dropWhile Text.isBlank with
  | nil =>
    rw [hd] at hb
    cases hb
  | cons r rs =>
    obtain ⟨hblank, hmem⟩ := Text.dropWhile_isBlank hd
    rw [hd, Text.head?_ofRunes_cons] at hb
    rw [Bool.eq_false_iff]
    intro h
    rw [isBlank_of_mem_bytes hmem (List.mem_of_mem_head? hb) h] at hblank
    cases hblank

theorem getLast_trimEnd {t : Text} {b : UInt8} (hb : b ∈ (Text.trimEnd t).getLast?) :
    isBlankByte b = false := by
  unfold Text.trimEnd at hb
  cases hd : t.runes.reverse.dropWhile Text.isBlank with
  | nil =>
    rw [hd] at hb
    cases hb
  | cons r rs =>
    obtain ⟨hblank, hmem⟩ := Text.dropWhile_isBlank hd
    rw [hd, List.reverse_cons, Text.getLast?_ofRunes_concat] at hb
    rw [Bool.eq_false_iff]
    intro h
    rw [isBlank_of_mem_bytes (List.mem_reverse.mp hmem) (List.mem_of_getLast? hb) h] at hblank
    cases hblank

/-- Nothing but trailing blanks is taken from the end of a text. -/
theorem head_trimEnd {t : Text} {b : UInt8} (hb : b ∈ (Text.trimEnd t).head?)
    (h : isBlankByte b = true) : b ∈ t.head? := by
  obtain ⟨hascii, hpos, -⟩ := lt_of_isBlankByte h
  have hprefix : (t.runes.reverse.dropWhile Text.isBlank).reverse <+: t.runes := by
    rw [← List.reverse_suffix, List.reverse_reverse]
    exact List.dropWhile_suffix Text.isBlank
  unfold Text.trimEnd at hb
  cases hrs : (t.runes.reverse.dropWhile Text.isBlank).reverse with
  | nil =>
    rw [hrs] at hb
    cases hb
  | cons r rs =>
    rw [hrs] at hb hprefix
    obtain ⟨more, hruns⟩ := hprefix
    rw [Text.head?_ofRunes_cons] at hb
    cases t with
    | nil => cases hruns
    | cons x t =>
      rw [Text.runes, Text.runesFrom] at hruns
      cases hlead : Text.leadingChar? x t with
      | some y =>
        obtain ⟨c, width⟩ := y
        rw [hlead] at hruns
        obtain rfl := (List.cons.inj hruns).1
        have hc := Text.toNat_of_mem_ofChar (c := c) (List.mem_of_mem_head? hb) hascii
        have hx := Text.toNat_of_leadingChar? hlead (by omega)
          (by rw [hc]; exact UInt8.lt_iff_toNat_lt.mp hascii)
        rw [UInt8.toNat_inj.mp (hx.trans hc)]
        rfl
      | none =>
        rw [hlead] at hruns
        obtain rfl := (List.cons.inj hruns).1
        exact hb

/-- No blank stands at the ends of a trimmed text. -/
theorem ends_trimSpace {t : Text} {b : UInt8}
    (hb : b ∈ (Text.trimSpace t).head? ∨ b ∈ (Text.trimSpace t).getLast?) :
    isBlankByte b = false := by
  rcases hb with hb | hb
  · rw [Bool.eq_false_iff]
    intro h
    rw [head_trimStart (head_trimEnd hb h)] at h
    cases h
  · exact getLast_trimEnd hb

/-- The words that are read when nothing stands before the first one. -/
def finished (x : Text × List Text) : List Text := if x.1.isEmpty then x.2 else x.1 :: x.2

/-- The word that a byte starts or goes on, and the words behind it. -/
def addByte (b : UInt8) (x : Text × List Text) : Text × List Text :=
  if isBlankByte b then ([], finished x) else (b :: x.1, x.2)

theorem words_eq (t : Text) : words t = finished (t.foldr addByte ([], [])) := rfl

theorem exists_mem_finished (b : UInt8) (x : Text × List Text) :
    (∃ w ∈ finished x, b ∈ w) ↔ b ∈ x.1 ∨ ∃ w ∈ x.2, b ∈ w := by
  obtain ⟨first, rest⟩ := x
  cases first <;> simp [finished]

theorem finished_append (x : Text × List Text) (ws : List Text) :
    finished (x.1, x.2 ++ ws) = finished x ++ ws := by
  unfold finished
  split <;> rfl

theorem mem_addByte {b c : UInt8} {x : Text × List Text}
    (h : isBlankByte b = true ∨ b ∈ x.1 ∨ ∃ w ∈ x.2, b ∈ w) :
    isBlankByte b = true ∨ b ∈ (addByte c x).1 ∨ ∃ w ∈ (addByte c x).2, b ∈ w := by
  refine h.imp_right fun h => ?_
  unfold addByte
  split
  · exact .inr ((exists_mem_finished b x).mpr h)
  · exact h.imp_left (List.mem_cons_of_mem c)

/-- Every byte of an item is a blank or belongs to one of its words. -/
theorem mem_words {t : Text} {b : UInt8} (hb : b ∈ t) :
    isBlankByte b = true ∨ ∃ w ∈ words t, b ∈ w := by
  have fold : isBlankByte b = true ∨ b ∈ (t.foldr addByte ([], [])).1 ∨
      ∃ w ∈ (t.foldr addByte ([], [])).2, b ∈ w := by
    induction t with
    | nil => cases hb
    | cons c t ih =>
      rw [List.foldr_cons]
      rcases List.mem_cons.mp hb with rfl | hb
      · by_cases h : isBlankByte b = true
        · exact .inl h
        · exact .inr (.inl (by simp [addByte, h]))
      · exact mem_addByte (ih hb)
  exact fold.imp_right (exists_mem_finished b _).mpr

/-- The words before and after a blank. -/
theorem words_append_blank {b : UInt8} (hb : isBlankByte b = true) (u v : Text) :
    words (u ++ b :: v) = words u ++ words v := by
  have fold : ∀ ws : List Text, u.foldr addByte ([], ws) =
      ((u.foldr addByte ([], [])).1, (u.foldr addByte ([], [])).2 ++ ws) := by
    intro ws
    induction u with
    | nil => rfl
    | cons b u ih =>
      rw [List.foldr_cons, ih, List.foldr_cons]
      unfold addByte
      split
      · rw [finished_append]
      · rfl
  have hblank : addByte b (v.foldr addByte ([], [])) = ([], words v) := if_pos hb
  rw [words_eq, List.foldr_append, List.foldr_cons, hblank, fold, finished_append, words_eq u]

theorem words_ne_nil {t : Text} {b : UInt8} (hb : b ∈ t) (h : isBlankByte b = false) :
    words t ≠ [] := by
  rcases mem_words hb with h' | ⟨w, hw, -⟩
  · rw [h] at h'
    cases h'
  · exact List.ne_nil_of_mem hw

theorem words_of_noBlank {t : Text} (ht : t ≠ []) (h : ∀ b ∈ t, isBlankByte b = false) :
    words t = [t] := by
  have fold : t.foldr addByte ([], []) = (t, []) := by
    clear ht
    induction t with
    | nil => rfl
    | cons b t ih =>
      rw [List.foldr_cons, ih fun c hc => h c (List.mem_cons_of_mem _ hc), addByte,
        h b List.mem_cons_self]
      rfl
  rw [words_eq, fold]
  simp [finished, ht]

/-- **A word between two blanks of an item is the keyword that renames a column.** -/
theorem isKeyword_of_between {list u w v : Text}
    (hmem : u ++ 32 :: (w ++ 32 :: v) ∈ parts list)
    (hitem : isField (u ++ 32 :: (w ++ 32 :: v)) = true) (hne : w ≠ [])
    (hw : ∀ b ∈ w, isBlankByte b = false) : isKeyword "AS" w = true := by
  obtain ⟨part, -, htrim⟩ := List.mem_map.mp (List.mem_filter.mp hmem).1
  have hends : ∀ b, b ∈ (u ++ 32 :: (w ++ 32 :: v)).head? ∨
      b ∈ (u ++ 32 :: (w ++ 32 :: v)).getLast? → isBlankByte b = false := by
    rw [← htrim]
    exact fun b => ends_trimSpace
  have hu : words u ≠ [] := by
    cases u with
    | nil => exact absurd (hends 32 (.inl rfl)) (by decide)
    | cons b u => exact words_ne_nil List.mem_cons_self (hends b (.inl rfl))
  have hv : words v ≠ [] := by
    have hlast : ∀ b ∈ (32 :: v : Text).getLast?, isBlankByte b = false := by
      intro b hb
      refine hends b (.inr ?_)
      rw [← List.cons_append, ← List.append_assoc, List.getLast?_append, Option.mem_def.mp hb]
      rfl
    rcases List.eq_nil_or_concat v with rfl | ⟨v, b, rfl⟩
    · exact absurd (hlast 32 rfl) (by decide)
    · exact words_ne_nil (by simp) (hlast b (by simp [List.getLast?_cons]))
  rw [isField, words_append_blank (by decide), words_append_blank (by decide),
    words_of_noBlank hne hw] at hitem
  obtain ⟨a, as, ha⟩ := List.exists_cons_of_ne_nil hu
  obtain ⟨c, cs, hc⟩ := List.exists_cons_of_ne_nil hv
  rw [ha, hc] at hitem
  cases as with
  | nil =>
    cases cs with
    | nil =>
      simp only [List.cons_append, List.nil_append, Bool.and_eq_true] at hitem
      exact hitem.1.2
    | cons => simp at hitem
  | cons x as =>
    exfalso
    cases as <;> simp at hitem

/-! ### The bytes of items -/

/-- The keywords of items. -/
def keywords : List Text := ["AS", "ASC", "DESC"]

/-- Whether the byte stands in no item: it belongs to no name, is no point, star or blank, and no
keyword has it in any case. -/
def isForeign (b : UInt8) : Bool :=
  !(Sql.isNameByte b || b == byte '.' || b == byte '*' || isBlankByte b) && b < 0x80 &&
    keywords.all fun keyword =>
      !(keyword.chars.map CharClass.foldKey).contains (CharClass.foldKey (Char.ofNat b.toNat))

/-- No byte of the text is foreign to items. -/
def Native (t : Text) : Prop := ∀ b ∈ t, isForeign b = false

instance (t : Text) : Decidable (Native t) := List.decidableBAll (fun b => isForeign b = false) t

theorem native_append {a b : Text} : Native (a ++ b) ↔ Native a ∧ Native b := by
  simp [Native, or_imp, forall_and]

theorem native_of_isIdentifier {t : Text} (h : isIdentifier t = true) : Native t := by
  intro b hb
  have hname : Sql.isNameByte b = true := by
    cases t with
    | nil => cases h
    | cons c t =>
      simp only [isIdentifier, Bool.and_eq_true, List.all_eq_true] at h
      rcases List.mem_cons.mp hb with rfl | hb
      · have := h.1
        simp only [Bool.or_eq_true] at this
        rcases this with h' | h' <;> simp only [Sql.isNameByte, h', Bool.true_or, Bool.or_true]
      · exact h.2 b hb
  simp [isForeign, hname]

theorem native_of_isQualified {t : Text} (h : isQualified t = true) : Native t := by
  unfold isQualified at h
  split at h
  · exact native_of_isIdentifier h
  · rename_i x y hcut
    rw [Bool.and_eq_true] at h
    rw [Text.cut?_eq hcut, ← List.singleton_append, native_append, native_append]
    exact ⟨native_of_isIdentifier h.1, by decide, native_of_isIdentifier h.2⟩

theorem native_of_isColumn {t : Text} (h : isColumn t = true) : Native t := by
  simp only [isColumn, Bool.or_eq_true, beq_iff_eq] at h
  rcases h with (rfl | h) | h
  · decide
  · exact native_of_isQualified h
  · split at h
    · rename_i x y hcut
      rw [Bool.and_eq_true, beq_iff_eq] at h
      rw [Text.cut?_eq hcut, h.2, ← List.singleton_append, native_append, native_append]
      exact ⟨native_of_isIdentifier h.1, by decide, by decide⟩
    · cases h

/-- The bytes of a keyword in some case: one that is foreign would be a character of it. -/
theorem native_of_isKeyword {keyword word : Text} (hk : keyword ∈ keywords)
    (h : isKeyword keyword word = true) : Native word := by
  intro b hb
  rw [Bool.eq_false_iff]
  intro hforeign
  simp only [isForeign, Bool.and_eq_true, decide_eq_true_eq, List.all_eq_true,
    Bool.not_eq_true', List.contains_eq_mem, decide_eq_false_iff_not] at hforeign
  have hmem := List.mem_map_of_mem (f := CharClass.foldKey) (Text.char_mem_chars hb hforeign.1.2)
  simp only [isKeyword, Text.equalFold, beq_iff_eq] at h
  rw [← h] at hmem
  exact hforeign.2 keyword hk hmem

theorem native_of_words {t : Text} (h : ∀ w ∈ words t, Native w) : Native t := by
  intro b hb
  rcases mem_words hb with hblank | ⟨w, hw, hbw⟩
  · simp [isForeign, hblank]
  · exact h w hw b hbw

theorem native_of_isField {t : Text} (h : isField t = true) : Native t := by
  refine native_of_words ?_
  unfold isField at h
  split at h
  · rename_i column hw
    simpa [hw] using native_of_isColumn h
  · rename_i column keyword name hw
    simp only [Bool.and_eq_true] at h
    simpa [hw] using ⟨native_of_isColumn h.1.1, native_of_isKeyword (by decide) h.1.2,
      native_of_isIdentifier h.2⟩
  · cases h

theorem native_of_isOrder {t : Text} (h : isOrder t = true) : Native t := by
  refine native_of_words ?_
  unfold isOrder at h
  split at h
  · rename_i column hw
    simpa [hw] using native_of_isQualified h
  · rename_i column keyword hw
    simp only [Bool.and_eq_true, Bool.or_eq_true] at h
    have hk : Native keyword :=
      h.2.elim (native_of_isKeyword (by decide)) (native_of_isKeyword (by decide))
    simpa [hw] using ⟨native_of_isQualified h.1, hk⟩
  · cases h

end Raw

namespace Sql

open Raw

/-- What begins a mark or a quoted segment is foreign to items. -/
theorem inert_of_native {t : Text} (h : Native t) : Inert t := by
  have hall : leads.all isForeign = true := by decide
  intro b hb
  cases hi : isInert b with
  | true => rfl
  | false =>
    have := List.all_eq_true.mp hall b (mem_leads_of_not_isInert hi)
    rw [h b hb] at this
    cases this

theorem inert_of_isField {t : Text} (h : isField t = true) : Inert t :=
  inert_of_native (native_of_isField h)

theorem inert_of_isOrder {t : Text} (h : isOrder t = true) : Inert t :=
  inert_of_native (native_of_isOrder h)

end Sql

end QueryTree
