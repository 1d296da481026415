import Mathlib.Data.Bool.AllAny
import QueryTree.Proofs.Placeholder
import QueryTree.Proofs.Readable

/-!
# Reading rows that are inserted

The rows of an insert are written in parentheses with commas between them, or each as a selection,
with `UNION ALL` between them. They are read in the opposite order: the text is split at what stands
between rows, what stands around each row is taken off, and the row is split at its commas. Quoted
segments, groups in parentheses and `CASE ... END` are units here as well, so a comma between the
arguments of a function splits no row.

A cell is a value in which no separator starts outside of units. A value that ends with the word
`UNION` needs one look further: it must not be followed by `ALL`, and nothing that stands behind a
cell begins so.

## Main definitions

* `Sql.parts`: the texts between separators
* `Sql.RowLayout`, `InsertStyle.layout`: what stands around rows and between them
* `Sql.readRows`: the texts of the cells of rows
* `Sql.Undivided`, `CellText`: the texts of cells
* `cellKinds`: all values that are emitted are cells

## Main results

* `Sql.parts_join`: texts with separators between them are read back
* `readRows_writeRows`: rows of cells are read back
-/

namespace QueryTree

namespace Sql

/-! ### The reader -/

/-- The texts between the first `fuel` separators of a text. -/
def partsTo (sep : Text) : (fuel : Nat) → Text → List Text
  | 0, t => [t]
  | fuel + 1, t =>
    match split? sep t with
    | some (l, r) => l :: partsTo sep fuel r
    | none => [t]

/-- The texts between the separators that stand outside of units. Every separator takes a byte at
least. -/
def parts (sep t : Text) : List Text := partsTo sep t.length t

/-- What stands before, behind and between rows. -/
structure RowLayout where
  opener : Text
  closer : Text
  separator : Text

/-- What stands between two texts. -/
def between? (x y t : Text) : Option Text :=
  if t.hasPrefix x && Text.hasSuffix (t.drop x.length) y then
    some (Text.trimSuffix (t.drop x.length) y)
  else none

/-- The texts of the cells of a row. -/
def readRow (l : RowLayout) (t : Text) : Option (List Text) :=
  (between? l.opener l.closer t).map (parts ",")

/-- The texts of the cells of rows. -/
def readRows (l : RowLayout) (t : Text) : Option (List (List Text)) :=
  (parts l.separator t).mapM (readRow l)

/-- The text of a row with the given cells. -/
def writeRow (l : RowLayout) (ts : List Text) : Text := l.opener ++ Text.join "," ts ++ l.closer

/-- The text of rows with the given cells. -/
def writeRows (l : RowLayout) (rows : List (List Text)) : Text :=
  Text.join l.separator (rows.map (writeRow l))

end Sql

/-- How rows are laid out. -/
def InsertStyle.layout : InsertStyle → Sql.RowLayout
  | .values => ⟨"(", ")", ","⟩
  | .selectDual => ⟨"SELECT ", " FROM DUAL", " UNION ALL "⟩

/-- What stands between the list of columns and the rows. -/
def InsertStyle.lead : InsertStyle → Text
  | .values => " VALUES "
  | .selectDual => " "

namespace Sql

variable {K I : List Text} {before : Option UInt8} {a b t u rest sep : Text}

@[simp]
theorem between?_enclosed (x y t : Text) : between? x y (x ++ t ++ y) = some t := by
  have hpre : Text.hasPrefix (x ++ t ++ y) x = true := by
    rw [List.append_assoc]
    exact List.isPrefixOf_iff_prefix.mpr (List.prefix_append x (t ++ y))
  have hdrop : (x ++ t ++ y).drop x.length = t ++ y := by
    rw [List.append_assoc, List.drop_left]
  have hsuf : Text.hasSuffix (t ++ y) y = true :=
    List.isSuffixOf_iff_suffix.mpr (List.suffix_append t y)
  rw [between?, hpre, hdrop, hsuf, Text.trimSuffix_append]
  rfl

/-- The separator is found behind the text, and not in it. -/
structure IsPart (sep t : Text) : Prop where
  last : Runs [sep] [] none t []
  first : ∀ u, Runs [sep] [] none t (sep ++ u)

/-- **Texts with separators between them are read back.** -/
theorem parts_join (hsep : isGap sep = true) {ts : List Text} (hne : ts ≠ [])
    (h : ∀ t ∈ ts, IsPart sep t) : parts sep (Text.join sep ts) = ts := by
  have fuel : ∀ (ts : List Text) (n : Nat), ts ≠ [] → (∀ t ∈ ts, IsPart sep t) →
      (Text.join sep ts).length ≤ n → partsTo sep n (Text.join sep ts) = ts := by
    intro ts
    induction ts with
    | nil => exact fun _ hne => absurd rfl hne
    | cons t ts ih =>
      intro n _ h hn
      obtain ⟨hlast, hfirst⟩ := h t List.mem_cons_self
      cases ts with
      | nil =>
        have htext : Text.join sep [t] = t := by simp [Text.join]
        rw [htext]
        cases n with
        | zero => rfl
        | succ n => rw [partsTo, split?_eq_none hlast List.mem_cons_self]
      | cons u us =>
        rw [Text.join_cons_cons] at hn ⊢
        have hpos : 0 < sep.length := by
          cases sep with
          | nil => cases hsep
          | cons b w => exact Nat.succ_pos _
        simp only [List.length_append] at hn
        obtain ⟨n, rfl⟩ := Nat.exists_eq_succ_of_ne_zero (by omega : n ≠ 0)
        rw [partsTo, split?_eq_some (hfirst _) List.mem_cons_self hsep]
        simp only
        rw [ih n (List.cons_ne_nil u us) (fun x hx => h x (List.mem_cons_of_mem t hx)) (by omega)]
  exact fuel ts _ hne h (Nat.le_refl _)

/-! ### Cells -/

/-- What stands between cells and between rows. -/
def cellStops : List Text := [",", " UNION ALL "]

/-- What may stand behind a cell. -/
structure EndsCell (t : Text) : Prop where
  ends : Ends t
  notAll : startsWithWord " ALL " t = false

/-- No separator starts in the text or with the blank before it, where a cell may stand. -/
structure Undivided (t : Text) : Prop where
  runs : ∀ before rest, opensWord before = true → EndsCell rest →
    Runs cellStops [] before t rest
  apart : ∀ rest, EndsCell rest → startsWithWord " UNION ALL " (32 :: (t ++ rest)) = false

/-- A text that is read as one cell. -/
structure IsCell (t : Text) : Prop where
  valued : Valued t
  undivided : Undivided t

/-- Whether a text may stand behind a cell, whatever follows it. -/
def isCellEnd (w : Text) : Bool :=
  w.head?.any (fun b => b == 32 || b == byte ',' || b == byte ')') && differ " ALL " w

theorem endsCell_append {w : Text} (h : isCellEnd w = true) (rest : Text) :
    EndsCell (w ++ rest) := by
  simp only [isCellEnd, Bool.and_eq_true] at h
  refine ⟨?_, startsWithWord_of_differ h.2 rest⟩
  cases w with
  | nil => cases h.1
  | cons b w => exact ends_cons (by simpa [or_assoc] using h.1)

theorem endsCell_nil : EndsCell [] := ⟨ends_nil, rfl⟩

/-- A separator begins with a blank or a comma, so none starts at any other byte. -/
theorem not_stop {b : UInt8} (h : b ≠ 32 ∧ b ≠ byte ',') (t : Text) :
    ∀ k ∈ cellStops, startsWithWord k (b :: t) = false := by
  have hbyte : ∀ b : UInt8, (b == 32 || b == byte ',' ||
      cellStops.all fun k => differ k [b]) = true := Text.forall_byte (by decide +kernel)
  intro k hk
  have hb := hbyte b
  simp only [beq_eq_false_iff_ne.mpr h.1, beq_eq_false_iff_ne.mpr h.2, Bool.false_or,
    List.all_eq_true] at hb
  exact startsWithWord_of_differ (hb k hk) t

/-- A text without blanks and commas is undivided inside. -/
theorem Runs.undivided (h : Runs K I before t rest) (hbytes : ∀ b ∈ t, b ≠ 32 ∧ b ≠ byte ',') :
    Runs cellStops [] before t rest := by
  induction h with
  | nil => exact .nil
  | plain hb _ ih =>
    exact .plain { hb with noToken := not_stop (hbytes _ List.mem_cons_self) _ }
      (ih fun b hb => hbytes b (List.mem_cons_of_mem _ hb))
  | quoted hq hl _ ih => exact .quoted hq hl (ih fun b hb => hbytes b (List.mem_append_right _ hb))
  | group hc _ _ ih =>
    exact .group (hc.mono (List.nil_subset _) (List.nil_subset _))
      (ih fun b hb => hbytes b (by simp [hb]))
  | choice hcase hc hend _ _ ih =>
    exact .choice hcase hc hend (ih fun b hb => hbytes b (by simp [hb]))

/-- What starts with a word where a text without blanks stands goes on behind the text. -/
theorem startsWithWord_behind {word more : Text} (hword : word.all Text.isLetterByte = true)
    (ht : 32 ∉ t) (hrest : Ends rest) (h : startsWithWord (word ++ 32 :: more) (t ++ rest) = true) :
    startsWithWord (32 :: more) rest = true := by
  induction word generalizing t with
  | nil =>
    cases t with
    | nil => exact h
    | cons b t =>
      obtain rfl := startsWithWord_blank h
      exact absurd List.mem_cons_self ht
  | cons c word ih =>
    rw [List.all_cons, Bool.and_eq_true] at hword
    cases t with
    | nil =>
      cases rest with
      | nil => simp [startsWithWord_nil] at h
      | cons b rest =>
        simp only [List.nil_append, List.cons_append, startsWithWord_cons, Bool.and_eq_true,
          beq_iff_eq] at h
        have hletter := isLetterByte_of_lowerByte hword.1 h.1
        rcases hrest b rfl with rfl | rfl | rfl <;> cases hletter
    | cons b t =>
      simp only [List.cons_append, startsWithWord_cons, Bool.and_eq_true] at h
      exact ih hword.2 (fun hmem => ht (List.mem_cons_of_mem b hmem)) h.2

/-- A value without blanks and commas is undivided. -/
theorem Valued.undivided (h : Valued t) (ht : ∀ b ∈ t, b ≠ 32 ∧ b ≠ byte ',') : Undivided t where
  runs before rest hbefore hrest := (h.runs before rest hbefore hrest.ends).undivided ht
  apart rest hrest := by
    rw [Bool.eq_false_iff]
    intro hs
    have hword : (" UNION ALL " : Text) = 32 :: (("UNION" : Text) ++ 32 :: ("ALL " : Text)) := by
      decide
    rw [hword, startsWithWord_cons, Bool.and_eq_true] at hs
    have hall : startsWithWord " ALL " rest = true :=
      startsWithWord_behind (by decide) (fun hmem => (ht 32 hmem).1 rfl) hrest.ends hs.2
    rw [hrest.notAll] at hall
    cases hall

theorem Undivided.stops (h : Undivided t) (hrest : EndsCell rest) :
    ∀ k ∈ cellStops, startsWithWord k (32 :: (t ++ rest)) = false := by
  have hcases : ∀ k ∈ cellStops, k = " UNION ALL " ∨ differ k [32] = true := by decide
  intro k hk
  rcases hcases k hk with rfl | hd
  · exact h.apart rest hrest
  · exact startsWithWord_of_differ hd (t ++ rest)

/-! ### Values that are cells -/

theorem undivided_valueWord (h : t ∈ valueWords) : Undivided t := by
  have hall : ∀ t ∈ valueWords, ∀ b ∈ t, b ≠ 32 ∧ b ≠ byte ',' := by
    simp only [← List.all_iff_forall_prop]
    decide
  exact (valued_valueWord h).undivided (hall t h)

theorem undivided_placeholder (d : Dialect) (n : Nat) :
    Undivided (d.profile.placeholder (n + 1)) := by
  have hdigits : ∀ b ∈ Text.ofNat (n + 1), b ≠ 32 ∧ b ≠ byte ',' := by
    intro b hb
    have hdigit := List.all_eq_true.mp (Text.all_isDigitByte_ofNat (n + 1)) b hb
    constructor <;> rintro rfl <;> cases hdigit
  have numbered : ∀ lead : Text, (∀ b ∈ lead, b ≠ 32 ∧ b ≠ byte ',') →
      ∀ b ∈ lead ++ Text.ofNat (n + 1), b ≠ 32 ∧ b ≠ byte ',' := fun lead hlead b hb =>
    (List.mem_append.mp hb).elim (hlead b) (hdigits b)
  refine (valued_placeholder d n).undivided ?_
  cases d with
  | sqlServer => exact numbered "@p" (List.all_iff_forall_prop.mp (by decide))
  | postgres => exact numbered "$" (List.all_iff_forall_prop.mp (by decide))
  | oracle => exact numbered ":" (List.all_iff_forall_prop.mp (by decide))
  | mySql | sqlite =>
    have hmark : ∀ b ∈ ("?" : Text), b ≠ 32 ∧ b ≠ byte ',' :=
      List.all_iff_forall_prop.mp (by decide)
    exact hmark

theorem undivided_call {f : Text} (hf : f ∈ functionNames) (h : Valued t) :
    Undivided (f ++ "(" ++ t ++ ")") := by
  have hall : ∀ f ∈ functionNames, isPlain cellStops none f "(" = true ∧
      differ " UNION ALL " (32 :: (f ++ "(")) = true := by decide
  obtain ⟨hp, hd⟩ := hall f hf
  refine ⟨fun before rest _ _ => runs_call hp
    ((h.runs _ _ rfl (ends_paren rest)).mono (List.nil_subset _) (List.nil_subset _)),
    fun rest _ => ?_⟩
  have hs := startsWithWord_of_differ hd (t ++ ")" ++ rest)
  simpa using hs

theorem undivided_op (hs : sep ∈ valueOperators) (ha : Undivided a) (hb : Undivided b) :
    Undivided (a ++ sep ++ b) := by
  have hall : ∀ sep ∈ valueOperators, sep = sep.dropLast ++ " " ∧
      isCellEnd sep.dropLast = true ∧ isPlain cellStops none sep.dropLast " " = true := by decide
  obtain ⟨hsep, hend, hp⟩ := hall sep hs
  have hbehind : ∀ u, EndsCell (sep ++ u) := fun u => by
    rw [hsep, List.append_assoc]
    exact endsCell_append hend _
  refine ⟨fun before rest hbefore hrest => ?_, fun rest _ => ?_⟩
  · have hruns : Runs cellStops [] (lastByte before a) sep (b ++ rest) := by
      rw [hsep]
      exact runs_spaced hp (hb.stops hrest)
    refine (ha.runs before _ hbefore (hbehind _)).join hruns (hb.runs _ rest ?_ hrest)
    rw [hsep, lastByte_append]
    rfl
  · rw [List.append_assoc, List.append_assoc]
    exact ha.apart _ (hbehind _)

theorem undivided_minus (h : Undivided t) : Undivided ("-" ++ t) where
  runs _ rest _ hrest := Runs.append (runs_plain (by decide)) (h.runs _ rest rfl hrest)
  apart rest _ := startsWithWord_of_differ (t := [32, byte '-']) (by decide) (t ++ rest)

theorem undivided_case {c : Text}
    (h : ∀ rest, Runs [] [] (some (byte 'E')) (" WHEN " ++ c) (" " ++ rest)) :
    Undivided ("CASE WHEN " ++ c ++ " END") where
  runs _ _ hbefore hrest := runs_case h hbefore hrest.ends
  apart rest _ := by
    rw [List.append_assoc, List.append_assoc]
    exact startsWithWord_of_differ (t := 32 :: "CASE WHEN ") (by decide) _

end Sql

open Sql

section Names

variable {st : Settings} {a c t v : Text}

/-- Neither blanks nor commas stand in names. -/
theorem wordByte_ne {b : UInt8} (h : isWordByte b = true) : b ≠ 32 ∧ b ≠ byte ',' := by
  constructor <;> rintro rfl <;> cases h

theorem undivided_word (ht : t.all isWordByte = true)
    (hr : isReserved (t.takeWhile isNameByte) = false) : Undivided t :=
  (valued_word ht hr).undivided fun b hb => wordByte_ne (List.all_eq_true.mp ht b hb)

theorem undivided_ident (h : (Lexicon.readable st.quoted).Name v) : Undivided (st.ident v) := by
  cases hq : st.quoted with
  | true =>
    have hlen : ∀ rest, Ends rest → quotedLength (st.profile.quoteIdent v ++ rest) =
        (st.profile.quoteIdent v).length := fun rest hrest =>
      quotedLength_quoteIdent st.dialect v hrest.fresh
    have hne := quoteIdent_ne_nil st.dialect v
    rw [Settings.ident, if_pos hq]
    exact ⟨fun before rest _ hrest => runs_quoted hne (hlen rest hrest.ends), fun rest hrest =>
      not_startsWithWord_quoted hne (hlen rest hrest.ends) (by decide)⟩
  | false =>
    obtain ⟨hv, hr⟩ := h.resolve_left (by simp [hq])
    rw [Settings.ident, hq]
    refine undivided_word (all_isWordByte_of_names hv) ?_
    rw [if_neg Bool.false_ne_true, takeWhile_isNameByte hv, hr]

theorem undivided_column (ha : (Lexicon.readable st.quoted).Alias a)
    (hc : (Lexicon.readable st.quoted).Name c) :
    Undivided (st.ident a ++ "." ++ st.ident c) := by
  cases hq : st.quoted with
  | true =>
    rw [Settings.ident, Settings.ident, if_pos hq, if_pos hq]
    refine ⟨fun before rest _ hrest =>
      runs_quotedNames st.dialect a c (by decide) hrest.ends, fun rest hrest => ?_⟩
    rw [List.append_assoc, List.append_assoc]
    exact not_startsWithWord_quoted (quoteIdent_ne_nil st.dialect a)
      (quotedLength_quoteIdent st.dialect a (fresh_cons.mpr rfl)) (by decide)
  | false =>
    have hcn := (hc.resolve_left (by simp [hq])).1
    have han : a.all isNameByte = true := by
      rcases ha with rfl | h | h
      · rfl
      · exact absurd h (by simp [hq])
      · exact h.1
    refine (valued_column ha hc).undivided fun b hb => ?_
    rw [Settings.ident, Settings.ident, hq] at hb
    refine wordByte_ne (b := b) ?_
    have hbytes : ∀ b ∈ a ++ "." ++ c, isWordByte b = true := by
      rw [← List.all_eq_true, List.all_append, List.all_append, all_isWordByte_of_names han,
        all_isWordByte_of_names hcn]
      rfl
    exact hbytes b hb

end Names

/-! ### The kind of texts -/

section Kinds

variable {st : Settings} {L M : Lexicon} {n m : Nat} {t : Text}

mutual

/-- A lexicon that permits more makes more values. -/
theorem ValueText.mono (hname : ∀ v, L.Name v → M.Name v) (hraw : ∀ t, L.Raw t → M.Raw t)
    {n m : Nat} {t : Text} : ValueText st L n m t → ValueText st M n m t
  | .word h => .word h
  | .mark => .mark
  | .column ha hc => .column (ha.imp_right (hname _)) (hname _ hc)
  | .bare hc => .bare (hname _ hc)
  | .raw hf hi ht => .raw hf hi (hraw _ ht)
  | .call hf h => .call hf (h.mono hname hraw)
  | .op hs ha hb => .op hs (ha.mono hname hraw) (hb.mono hname hraw)
  | .minus h => .minus (h.mono hname hraw)
  | .choice hc ha hb =>
    .choice (hc.mono hname hraw) (ha.mono hname hraw) (hb.mono hname hraw)
  | .counted hc => .counted (hc.mono hname hraw)

theorem ConditionText.mono (hname : ∀ v, L.Name v → M.Name v) (hraw : ∀ t, L.Raw t → M.Raw t)
    {n m : Nat} {t : Text} : ConditionText st L n m t → ConditionText st M n m t
  | .compare ht ha hb => .compare ht (ha.mono hname hraw) (hb.mono hname hraw)
  | .group hc => .group (hc.mono hname hraw)
  | .join ht ha hb => .join ht (ha.mono hname hraw) (hb.mono hname hraw)
  | .negate hc => .negate (hc.mono hname hraw)

end

/-- The text of a cell whose marks are those from `n + 1` to `m`. -/
structure CellText (st : Settings) (n m : Nat) (t : Text) : Prop extends IsCell t where
  tidy : Sql.Tidy st.dialect n m t

theorem cellText_null (n : Nat) : CellText st n n "NULL" :=
  ⟨⟨valued_valueWord (by decide), undivided_valueWord (by decide)⟩,
    tidy_word st.dialect (by decide)⟩

theorem cellText_placeholder (n : Nat) :
    CellText st n (n + 1) (st.profile.placeholder (n + 1)) :=
  ⟨⟨valued_placeholder st.dialect n, undivided_placeholder st.dialect n⟩,
    tidy_placeholder st.dialect n⟩

/-- **All values that are emitted are cells**, provided that names are readable. -/
def cellKinds (st : Settings) : TextKinds st (.readable st.quoted) where
  Value n m t := ValueText st (.readable st.quoted) n m t ∧ Undivided t
  Condition := ConditionText st (.readable st.quoted)
  Unsigned _ := True
  word h := ⟨.word h, undivided_valueWord h⟩
  mark := ⟨.mark, undivided_placeholder st.dialect _⟩
  column ha hc := ⟨.column ha hc, undivided_column ha hc⟩
  bare hc := ⟨.bare hc, undivided_ident hc⟩
  raw hf hraw ht := ⟨.raw hf hraw ht, undivided_call hf (valued_raw ht)⟩
  apply {n m _ ts} hf h hne := by
    have hjoined : ValueText st (.readable st.quoted) n m (Text.join "," ts) :=
      (h.mono And.left).join (.op (by decide)) hne
    exact ⟨.call hf hjoined, undivided_call hf hjoined.valued⟩
  op {_ _ _ _ sep _} hs ha hb := by
    have hall : ∀ x ∈ valueOperators, x ∈ valueSeparators := by decide
    exact ⟨.op (hall sep hs) ha.1 hb.1, undivided_op hs ha.2 hb.2⟩
  minus h _ := ⟨.minus h.1, undivided_minus h.2⟩
  unsigned_parens _ := trivial
  choice hc ha hb := by
    obtain ⟨f, hf, rfl⟩ := hc.legible
    refine ⟨.choice hc ha.1 hb.1, ?_⟩
    simpa only [List.append_assoc] using undivided_case (runs_choice hf ha.1.valued hb.1.valued)
  counted hc := by
    obtain ⟨f, hf, rfl⟩ := hc.legible
    exact ⟨.counted hc, counted_eq f.text ▸ undivided_case (runs_counted hf)⟩
  compare ht ha hb := .compare ht ha.1 hb.1
  group := .group
  join := .join
  negate := .negate
  ne_nil := ConditionText.ne_nil

theorem cellText_of_cellKinds (h : (cellKinds st).Value n m t) : CellText st n m t := by
  refine ⟨⟨h.1.valued, h.2⟩, (h.1.mono (fun v hv => ?_) fun _ _ => trivial).tidy⟩
  exact hv.imp_right And.left

/-- What an expression with readable names emits for a value is a cell. -/
theorem Expr.lawful_render_cellKinds {e : Expr} (h : e.Named st (.readable st.quoted)) :
    (e.render st).Lawful (cellKinds st) (RawArgumentTo (.readable st.quoted) inlineDepth e) :=
  lawfulOf_renderTo (fun _ => minusFits_of_unsigned fun _ => trivial) inlineDepth e h trivial

end Kinds

/-! ### Rows of cells -/

section Rows

variable {t : Text} {ts : List Text}

theorem isPart_cell (h : Undivided t) : IsPart "," t where
  last := (h.runs none [] rfl endsCell_nil).mono (by decide) (List.nil_subset _)
  first u := (h.runs none _ rfl (endsCell_append (by decide) u)).mono (by decide)
    (List.nil_subset _)

/-- Values with commas between them, where groups end. -/
theorem valued_cells (hne : ts ≠ []) (h : ∀ t ∈ ts, IsCell t) : Valued (Text.join "," ts) := by
  induction ts with
  | nil => exact absurd rfl hne
  | cons t ts ih =>
    have ht := (h t List.mem_cons_self).valued
    cases ts with
    | nil => simpa [Text.join] using ht
    | cons u us =>
      rw [Text.join_cons_cons]
      exact valued_op (by decide) ht
        (ih (List.cons_ne_nil u us) fun x hx => h x (List.mem_cons_of_mem t hx))

/-- What stands between rows starts neither in cells nor with the blank before them. -/
theorem runs_cells (hne : ts ≠ []) (h : ∀ t ∈ ts, IsCell t) (before : Option UInt8) {rest : Text}
    (hbefore : opensWord before = true) (hrest : EndsCell rest) :
    Runs [" UNION ALL "] [] before (Text.join "," ts) rest ∧
      startsWithWord " UNION ALL " (32 :: (Text.join "," ts ++ rest)) = false := by
  have hstop : ([" UNION ALL "] : List Text) ⊆ cellStops := by decide
  induction ts generalizing before with
  | nil => exact absurd rfl hne
  | cons t ts ih =>
    have ht := (h t List.mem_cons_self).undivided
    cases ts with
    | nil =>
      have htext : Text.join "," [t] = t := by simp [Text.join]
      rw [htext]
      exact ⟨(ht.runs before rest hbefore hrest).mono hstop (List.nil_subset _),
        ht.apart rest hrest⟩
    | cons u us =>
      have hcomma : ∀ x : Text, EndsCell ("," ++ x) := endsCell_append (by decide)
      have hbehind := (ih (List.cons_ne_nil u us) (fun x hx => h x (List.mem_cons_of_mem t hx))
        (some (byte ',')) rfl).1
      rw [Text.join_cons_cons]
      refine ⟨((ht.runs before _ hbefore (hcomma _)).mono hstop (List.nil_subset _)).join
        (runs_plain (by decide)) hbehind, ?_⟩
      rw [List.append_assoc, List.append_assoc]
      exact ht.apart _ (hcomma _)

/-- A row is found between what stands between rows. -/
theorem isPart_writeRow (i : InsertStyle) (hne : ts ≠ []) (h : ∀ t ∈ ts, IsCell t) :
    IsPart i.layout.separator (writeRow i.layout ts) := by
  have anywhere : ∀ rest, Runs [i.layout.separator] [] none (writeRow i.layout ts) rest := by
    intro rest
    cases i with
    | values =>
      exact runs_call (f := []) (by decide)
        (((valued_cells hne h).runs _ _ rfl (ends_paren rest)).mono (List.nil_subset _)
          (List.nil_subset _))
    | selectDual =>
      have hend : EndsCell (" FROM DUAL" ++ rest) := endsCell_append (by decide) rest
      have hselect : Runs [" UNION ALL "] [] none "SELECT " (Text.join "," ts ++ _) :=
        runs_spaced (t := "SELECT") (by decide) fun k hk => by
          obtain rfl := List.mem_singleton.mp hk
          exact (runs_cells hne h none rfl hend).2
      exact hselect.join (runs_cells hne h _ rfl hend).1 (runs_plain (by decide))
  exact ⟨anywhere [], fun u => anywhere _⟩

/-- **Rows of cells are read back.** -/
theorem readRows_writeRows (i : InsertStyle) {rows : List (List Text)} (hne : rows ≠ [])
    (hrows : ∀ ts ∈ rows, ts ≠ []) (h : ∀ ts ∈ rows, ∀ t ∈ ts, IsCell t) :
    readRows i.layout (writeRows i.layout rows) = some rows := by
  have hgap : isGap i.layout.separator = true := by cases i <;> decide
  have hparts : parts i.layout.separator (writeRows i.layout rows) =
      rows.map (writeRow i.layout) := by
    refine parts_join hgap (by simpa using hne) fun t ht => ?_
    obtain ⟨ts, hts, rfl⟩ := List.mem_map.mp ht
    exact isPart_writeRow i (hrows ts hts) (h ts hts)
  have hread : ∀ ts ∈ rows, readRow i.layout (writeRow i.layout ts) = some ts := by
    intro ts hts
    rw [readRow, writeRow, between?_enclosed, Option.map_some,
      parts_join (by decide) (hrows ts hts) fun t ht => isPart_cell (h ts hts t ht).undivided]
  rw [readRows, hparts]
  clear hparts h hne hrows
  induction rows with
  | nil => rfl
  | cons ts rows ih =>
    rw [List.map_cons, List.mapM_cons, hread ts List.mem_cons_self,
      ih fun us hus => hread us (List.mem_cons_of_mem ts hus)]
    rfl

example : readRows InsertStyle.values.layout "(@p1,NULL),(CONCAT(a,', '),@p2)" =
    some ([["@p1", "NULL"], ["CONCAT(a,', ')", "@p2"]] : List (List Text)) := by
  decide

end Rows

end QueryTree
