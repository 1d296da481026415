import Mathlib.Data.List.Basic
import QueryTree.Proofs.Clauses
import QueryTree.Proofs.Frames
import QueryTree.Proofs.RawNames
import QueryTree.Sample.Conditions

/-!
# The items of a select list

A select list is written item by item, a separator after each, and every item is recorded on the
way. At the end the last separator is cut off, and a list that nothing is left of selects
everything. So the text is the recorded items with separators between them, as long as nothing is
left only where nothing was recorded.

Both could fail at names only. Where names are not quoted, an alias is written as it is given, and
one that begins with a comma puts a separator in front of the list. A text stands by itself when it
is not empty, does not begin with a comma and does not end with a separator. Whatever values are put
together with keeps this, since no operator and no function begins or ends so.

## Main definitions

* `SelfStanding`: the texts that a separator at either end is not taken for a part of
* `Lexicon.selfStanding`: names that stand by themselves where they are not quoted
* `selfStanding`: the kind of texts
* `Draft.ListsFields`

## Main results

* `listsFields_compile`: the text of a select list is its recorded items with separators
* `exists_leading_separator`: an alias that begins with a separator
-/

namespace QueryTree

open Emit

/-! ### Both ends of a text -/

/-- The text is not empty and begins with no comma. -/
def FreeAtHead (t : Text) : Prop := t ≠ [] ∧ t.head? ≠ some (byte ',')

/-- The text is not empty and ends with no separator. -/
def FreeAtEnd (t : Text) : Prop := t ≠ [] ∧ ¬ itemSeparator <:+ t

instance (t : Text) : Decidable (FreeAtHead t) := inferInstanceAs (Decidable (_ ∧ _))

instance (t : Text) : Decidable (FreeAtEnd t) := inferInstanceAs (Decidable (_ ∧ _))

/-- The text is not empty, begins with no comma and ends with no separator. -/
def SelfStanding (t : Text) : Prop := FreeAtHead t ∧ FreeAtEnd t

instance (t : Text) : Decidable (SelfStanding t) := inferInstanceAs (Decidable (_ ∧ _))

theorem FreeAtHead.append {t : Text} (h : FreeAtHead t) (u : Text) : FreeAtHead (t ++ u) := by
  obtain ⟨b, rest, rfl⟩ := List.exists_cons_of_ne_nil h.1
  exact ⟨nofun, h.2⟩

theorem getLast?_append_ne {w : Text} {b : UInt8} (hne : w ≠ []) (hw : w.getLast? ≠ some b)
    (t : Text) : (t ++ w).getLast? ≠ some b := by
  rwa [List.getLast?_append_of_ne_nil t hne]

/-- A text with no blank at its end ends with no separator. -/
theorem freeAtEnd_append {w : Text} (hne : w ≠ []) (hw : w.getLast? ≠ some (byte ' ')) (t : Text) :
    FreeAtEnd (t ++ w) := by
  refine ⟨by simp [hne], ?_⟩
  rintro ⟨p, hp⟩
  refine getLast?_append_ne hne hw t ?_
  rw [← hp, List.getLast?_append_of_ne_nil p (by decide)]
  rfl

/-- What ends a text ends it with no separator, unless there is a comma in front of it. -/
theorem FreeAtEnd.append {t : Text} (h : FreeAtEnd t) {x : Text}
    (hx : x.getLast? ≠ some (byte ',')) : FreeAtEnd (x ++ t) := by
  refine ⟨by simp [h.1], ?_⟩
  rintro ⟨p, hp⟩
  rcases List.append_eq_append_iff.mp hp with ⟨a, rfl, hsep⟩ | ⟨c, -, rfl⟩
  · -- the separator is cut in two by where `t` begins
    match a, hsep with
    | [], hsep => exact h.2 ⟨[], hsep⟩
    | [b], hsep =>
      obtain ⟨rfl, -⟩ := List.cons.inj hsep
      simp at hx
    | _ :: _ :: _, hsep =>
      obtain ⟨-, hsep⟩ := List.cons.inj hsep
      obtain ⟨-, hsep⟩ := List.cons.inj hsep
      exact h.1 (List.append_eq_nil_iff.mp hsep.symm).2
  · exact h.2 ⟨c, rfl⟩

/-- A text that another one stands at the end of, behind something that ends with no comma. -/
theorem SelfStanding.between {a sep b : Text} (ha : SelfStanding a)
    (hsep : sep ≠ [] ∧ sep.getLast? ≠ some (byte ',')) (hb : SelfStanding b) :
    SelfStanding (a ++ sep ++ b) :=
  ⟨(ha.1.append sep).append b, hb.2.append (getLast?_append_ne hsep.1 hsep.2 a)⟩

/-- A text in a call of a function. -/
theorem selfStanding_call {f : Text} (hf : f ∈ functionNames) (t : Text) :
    SelfStanding (f ++ "(" ++ t ++ ")") := by
  have hall : ∀ f ∈ functionNames, FreeAtHead (f ++ "(") := by decide
  exact ⟨((hall f hf).append t).append ")", freeAtEnd_append (by decide) (by decide) _⟩

/-- A number behind a text that begins with no comma. -/
theorem selfStanding_ofNat {v : Text} (hv : v = [] ∨ FreeAtHead v) (n : Nat) :
    SelfStanding (v ++ Text.ofNat n) := by
  have hne := Text.ofNat_ne_nil n
  have digits := List.all_eq_true.mp (Text.all_isDigitByte_ofNat n)
  refine ⟨?_, freeAtEnd_append hne ?_ v⟩
  · rcases hv with rfl | hv
    · refine ⟨hne, fun h => ?_⟩
      have hdigit := digits _ (List.mem_of_head? h)
      exact absurd hdigit (by decide)
    · exact hv.append _
  · intro h
    have hdigit := digits _ (List.mem_of_getLast? h)
    exact absurd hdigit (by decide)

/-! ### The kind of texts -/

theorem selfStanding_enclose {opener closer : UInt8} (ho : opener ≠ byte ',')
    (hc : closer ≠ byte ' ') (t : Text) : SelfStanding (Sql.enclose opener closer t) := by
  refine ⟨⟨nofun, by simpa [Sql.enclose] using ho⟩, ?_⟩
  have h : FreeAtEnd ((opener :: t.double closer) ++ [closer]) :=
    freeAtEnd_append (by simp) (by simpa using hc) _
  exact h

theorem selfStanding_quoteIdent (d : Dialect) (name : Text) :
    SelfStanding (d.profile.quoteIdent name) := by
  cases d <;> exact selfStanding_enclose (by decide) (by decide) name

/-- Names that stand by themselves where they are not quoted. -/
def Lexicon.selfStanding (quoted : Bool) : Lexicon where
  Name v := quoted = true ∨ SelfStanding v
  Raw _ := True
  Table _ := True
  Label v := quoted = true ∨ FreeAtEnd v
  numbered v i h := by
    by_cases hq : quoted = true
    · exact .inl hq
    · refine .inr (selfStanding_ofNat ?_ _)
      rcases h with rfl | h | h
      · exact .inl rfl
      · exact absurd h hq
      · exact .inr h.1

section Names

variable {st : Settings} {v : Text}

theorem selfStanding_ident (h : (Lexicon.selfStanding st.quoted).Name v) :
    SelfStanding (st.ident v) := by
  unfold Settings.ident
  split
  · exact selfStanding_quoteIdent st.dialect v
  · rename_i hq
    exact h.resolve_left hq

theorem freeAtEnd_ident_of_label (h : (Lexicon.selfStanding st.quoted).Label v) :
    FreeAtEnd (st.ident v) := by
  unfold Settings.ident
  split
  · exact (selfStanding_quoteIdent st.dialect v).2
  · rename_i hq
    exact h.resolve_left hq

/-- An alias may be empty; what is qualified by it stands by itself all the same. -/
theorem freeAtHead_alias (h : (Lexicon.selfStanding st.quoted).Alias v) (t : Text) :
    FreeAtHead (st.ident v ++ "." ++ t) := by
  rcases h with rfl | h
  · unfold Settings.ident
    split
    · exact ((selfStanding_quoteIdent st.dialect []).1.append _).append _
    · exact (by decide : FreeAtHead (([] : Text) ++ ".")).append t
  · exact ((selfStanding_ident h).1.append _).append _

end Names

theorem selfStanding_placeholder (d : Dialect) (n : Nat) :
    SelfStanding (d.profile.placeholder n) := by
  cases d with
  | mySql | sqlite => exact (by decide : SelfStanding "?")
  | sqlServer => exact selfStanding_ofNat (v := "@p") (.inr (by decide)) n
  | postgres => exact selfStanding_ofNat (v := "$") (.inr (by decide)) n
  | oracle => exact selfStanding_ofNat (v := ":") (.inr (by decide)) n

/-- The texts that stand by themselves; of conditions it matters only that they are not empty. -/
def selfStanding (st : Settings) : TextKinds st (.selfStanding st.quoted) where
  Value _ _ := SelfStanding
  Condition _ _ t := t ≠ []
  Unsigned _ := True
  word {_ t} h := (by decide : ∀ t ∈ valueWords, SelfStanding t) t h
  mark := selfStanding_placeholder st.dialect _
  column ha hc := ⟨freeAtHead_alias ha _,
    (selfStanding_ident hc).2.append (getLast?_append_ne (by decide) (by decide) _)⟩
  bare hc := selfStanding_ident hc
  raw hf _ _ := selfStanding_call hf _
  apply hf _ _ := selfStanding_call hf _
  op {_ _ _ _ sep _} hs ha hb := by
    have hall : ∀ x ∈ valueOperators, x ≠ [] ∧ x.getLast? ≠ some (byte ',') := by decide
    exact ha.between (hall sep hs) hb
  minus ht _ := ⟨(by decide : FreeAtHead "-").append _, ht.2.append (by decide)⟩
  unsigned_parens _ := trivial
  choice {_ _ _ _ c a b} _ _ _ := by
    refine ⟨?_, freeAtEnd_append (by decide) (by decide) _⟩
    simp only [List.append_assoc]
    exact (by decide : FreeAtHead "CASE WHEN ").append _
  counted {_ _ c} _ := by
    refine ⟨?_, freeAtEnd_append (by decide) (by decide) _⟩
    simp only [List.append_assoc]
    exact (by decide : FreeAtHead "CASE WHEN ").append _
  compare {_ _ _ _ token _} ht _ _ := ne_nil_of_tokens (.inl ht)
  group _ := by simp [show (")" : Text) ≠ [] by decide]
  join ht _ _ := ne_nil_of_tokens (.inr ht)
  negate := Sql.negate_ne_nil
  ne_nil h := h

/-! ### Items -/

theorem Raw.byte_ne_comma {t : Text} (h : Native t) : byte ',' ∉ t := by
  intro hb
  have hforeign : isForeign (byte ',') = true := by decide
  rw [h _ hb] at hforeign
  cases hforeign

theorem Raw.ne_nil_of_isField_or_isOrder {t : Text} (h : isField t = true ∨ isOrder t = true) :
    t ≠ [] := by
  rintro rfl
  revert h
  decide

/-- A raw item holds no comma. -/
theorem selfStanding_of_raw {t : Text} (h : Raw.isField t = true ∨ Raw.isOrder t = true) :
    SelfStanding t := by
  have hne := Raw.ne_nil_of_isField_or_isOrder h
  have hcomma := Raw.byte_ne_comma (h.elim Raw.native_of_isField Raw.native_of_isOrder)
  refine ⟨⟨hne, fun hb => hcomma (List.mem_of_head? hb)⟩, hne, fun hsep => ?_⟩
  exact hcomma (hsep.subset (by decide))

variable {st : Settings}

theorem ItemText.selfStanding {n m : Nat} {t : Text}
    (h : ItemText st (.selfStanding st.quoted) (fun _ _ => SelfStanding) n m t) :
    SelfStanding t := by
  induction h with
  | value h => exact h
  | named h hv =>
    exact ⟨(h.1.append _).append _,
      (freeAtEnd_ident_of_label hv).append (getLast?_append_ne (by decide) (by decide) _)⟩
  | @columns a ha =>
    have hdot : st.ident a ++ (".*" : Text) = st.ident a ++ "." ++ "*" := by
      simp [show (".*" : Text) = "." ++ "*" by decide]
    rw [hdot]
    exact ⟨freeAtHead_alias ha _, freeAtEnd_append (by decide) (by decide) _⟩
  | raw h => exact selfStanding_of_raw h
  | directed h d ih =>
    refine ⟨(ih.1.append _).append _, ?_⟩
    cases d <;> exact freeAtEnd_append (by decide) (by decide) _

/-! ### Select lists -/

theorem listed_eq_join {items : List Text} (h : items ≠ []) :
    listed items = Text.join itemSeparator items ++ itemSeparator := by
  induction items with
  | nil => exact absurd rfl h
  | cons i items ih =>
    cases items with
    | nil => simp [listed, Text.join]
    | cons j items =>
      rw [Text.join_cons_cons, List.append_assoc, ← ih (List.cons_ne_nil j items)]
      simp [listed]

/-- What the expression emits as a select list are the items that it records: none, or together a
text that stands by itself. -/
theorem Expr.items_of_yields_projection {e : Expr} {s s' : Slate} {t : Text}
    (he : e.Named st (.selfStanding st.quoted)) (hs : s.aliases.Within (.selfStanding st.quoted))
    (h : Yields (e.render st).projection s t s') :
    ∃ items, s'.fields = s.fields ++ items ∧ t = listed items ∧
      (items ≠ [] → SelfStanding (Text.join itemSeparator items)) := by
  obtain ⟨items, hfields, rfl⟩ :=
    (confined_render Slate.isFrame_sameFields e).projection s t s' h
  refine ⟨items, hfields, rfl, fun hne => ?_⟩
  have hlist := (lawfulOf_renderTo (K := QueryTree.selfStanding st)
    (fun _ => minusFits_of_unsigned fun _ => trivial) inlineDepth e he trivial).projection
      s _ s' hs h
  have hof : ListOf (fun _ _ => SelfStanding) _ _ (listed items) :=
    hlist.2.listOf_of ItemText.selfStanding fun ha hb => ha.between (by decide) hb
  rw [listed_eq_join hne] at hof
  rcases hof with ⟨hnil, -⟩ | ⟨u, hu, hself⟩
  · exact absurd hnil (by simp [show itemSeparator ≠ [] by decide])
  · rwa [List.append_cancel_right hu]

namespace Draft

/-- The text of the draft is its select items with separators between them. There is an item, and
no separator stands at either end of the text. -/
structure ListsFields (d : Draft) : Prop where
  text : d.text = Text.join itemSeparator d.slate.fields
  nonempty : d.slate.fields ≠ []
  leading : ¬ itemSeparator <+: d.text
  trailing : ¬ itemSeparator <:+ d.text

/-- Everything is selected where nothing is recorded. -/
theorem listsFields_selectAll {s : Slate} (h : s.fields = []) :
    (selectAll ⟨st, [], s⟩).ListsFields := by
  have hfields : (selectAll ⟨st, [], s⟩).slate.fields = [("*" : Text)] := by
    show s.fields ++ [_] = _
    rw [h]
    rfl
  have htext : (selectAll ⟨st, [], s⟩).text = ("*" : Text) := rfl
  exact ⟨by rw [htext, hfields]; rfl, by rw [hfields]; nofun, by rw [htext]; decide,
    by rw [htext]; decide⟩

theorem listsFields_of_selfStanding {s : Slate} (hne : s.fields ≠ [])
    (h : SelfStanding (Text.join itemSeparator s.fields)) :
    ListsFields ⟨st, Text.join itemSeparator s.fields, s⟩ where
  text := rfl
  nonempty := hne
  leading := by
    rintro ⟨u, hu⟩
    have hu : itemSeparator ++ u = Text.join itemSeparator s.fields := hu
    exact h.1.2 (by rw [← hu]; rfl)
  trailing := h.2.2

/-- What is left to do once items are written. -/
theorem finish_listed {s : Slate} (hne : s.fields ≠ [])
    (h : SelfStanding (Text.join itemSeparator s.fields)) :
    (⟨st, listed s.fields, s⟩ : Draft).finish .select 0 =
      (⟨st, Text.join itemSeparator s.fields, s⟩, .ok ()) := by
  have htrim : (listed s.fields).trimSuffix itemSeparator = Text.join itemSeparator s.fields := by
    rw [listed_eq_join hne, Text.trimSuffix_append]
  have hlength : (Text.join itemSeparator s.fields).length ≠ 0 := by
    simpa using h.1.1
  simp only [finish, trimSuffix, htrim, hlength, if_false]

end Draft

/-- **The text of a select list is its recorded items with separators between them.** There is an
item, and no separator stands at either end, provided that a name that is not quoted is not empty,
does not begin with a comma and does not end with a separator. -/
theorem listsFields_compile {e : Expr} {ds : List Direction} {d : Draft}
    (he : e.Named st (.selfStanding st.quoted))
    (h : (Draft.new st).compile e .select ds = (d, .ok ())) : d.ListsFields := by
  unfold Draft.compile at h
  split at h
  · cases h
    exact Draft.listsFields_selectAll rfl
  · split at h
    · rename_i d' hrun
      obtain ⟨t, s, hy, rfl⟩ := Draft.run_eq_ok hrun
      obtain ⟨items, hfields, rfl, hself⟩ :=
        Expr.items_of_yields_projection he (AliasTable.within_empty _) hy
      obtain rfl : s.fields = items := hfields
      by_cases hne : s.fields = []
      · have hlist : (⟨st, listed s.fields, s⟩ : Draft).finish .select 0 = (d, .ok ()) := h
        rw [hne] at hlist
        cases hlist
        exact Draft.listsFields_selectAll hne
      · have hlist : (⟨st, listed s.fields, s⟩ : Draft).finish .select 0 = (d, .ok ()) := h
        rw [Draft.finish_listed hne (hself hne)] at hlist
        cases hlist
        exact Draft.listsFields_of_selfStanding hne (hself hne)
    · rename_i hno
      exact absurd h (hno d ·)

namespace Sample

/-- The names of customers stand by themselves. -/
theorem customerRow_selfStanding (d : Dialect) :
    customerRow.Named (.standard d world) (.selfStanding false) := by
  have columns : ∀ v ∈ customerColumns, SelfStanding v := by decide
  exact customerRow_named_of rfl (.inr (by decide)) trivial fun v hv => .inr (columns v hv)

/-- A name, a number under a name of its own, and all columns of the customer. -/
def namedAndAll : Expr :=
  .new none [("Name", .field customerRow "Name"),
    ("Next", .binary .add (.field customerRow "Age") (.value (.int .int 1))),
    ("Customer", .param customerRow)]

/-- The age of a customer, in a row whose alias begins with a separator. -/
def oddlyAliasedAge : Expr := .field { customerRow with name := ", x" } "Age"

end Sample

open Sample in
theorem listsFields_compile_namedAndAll :
    ∃ d, (Draft.new (.standard .sqlServer world)).compile namedAndAll .select [] = (d, .ok ()) ∧
      d.text = "c.name AS Name, c.age + @p1 AS Next, c.*" ∧
      d.slate.fields = ["c.name AS Name", "c.age + @p1 AS Next", "c.*"] ∧ d.ListsFields := by
  have hrow := customerRow_selfStanding .sqlServer
  have hlabel : ∀ v : Text, FreeAtEnd v → v = [] ∨ (Lexicon.selfStanding false).Label v :=
    fun v hv => .inr (.inr hv)
  have hnamed : namedAndAll.Named (.standard .sqlServer world) (.selfStanding false) :=
    ⟨hlabel _ (by decide), hrow, hlabel _ (by decide), ⟨hrow, trivial⟩, hlabel _ (by decide), hrow,
      trivial⟩
  have items : selection? namedAndAll = some (("c.name AS Name, c.age + @p1 AS Next, c.*" : Text),
      (["c.name AS Name", "c.age + @p1 AS Next", "c.*"] : List Text)) := by
    decide +kernel
  obtain ⟨d, hd, ht, hf⟩ := compile_of_selection? items
  exact ⟨d, hd, ht, hf, listsFields_compile hnamed hd⟩

open Sample in
/-- An alias that is not quoted puts a separator in front of the list. -/
theorem exists_leading_separator :
    ∃ d, (Draft.new (.standard .sqlServer world)).compile oddlyAliasedAge .select [] =
        (d, .ok ()) ∧ d.text = ", x.age" ∧ itemSeparator <+: d.text := by
  have items : selection? oddlyAliasedAge =
      some ((", x.age" : Text), ([", x.age"] : List Text)) := by
    decide
  obtain ⟨d, hd, ht, -⟩ := compile_of_selection? items
  exact ⟨d, hd, ht, by rw [ht]; decide⟩

end QueryTree
