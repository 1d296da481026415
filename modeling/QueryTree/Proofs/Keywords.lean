import QueryTree.Proofs.ClauseEnds
import QueryTree.Proofs.Dialects
import QueryTree.Proofs.Guarded
import QueryTree.Proofs.Paging

/-!
# What stands behind the keywords

A selection is written keyword by keyword, and whether a clause has any text is only known when it
has been compiled. The clauses see to this in three ways. A condition without text takes its keyword
back, or `1 = 1` is written where the keyword has to stay, and an empty select list becomes `*`. The
lists of groups and orders do nothing of the kind: their keyword stays whatever follows.

Orders are compiled one by one with a separator in front of each but the first. An order that is
compiled to nothing cuts off the separator in front of it, as every list cuts off its last one. An
order that is not given is not compiled at all, so the separator in front of it stays.

## Main definitions

* `OrderText.ordered`: how orders are put together
* `Select.Clauses`: the texts of the clauses of a selection
* `Select.Clauses.Of`: what each of them is compiled from
* `Select.Clauses.Stand`: which of them stand by themselves

## Main results

* `OrderText.selfStanding_ordered_iff`: when the texts of orders make up one that stands by itself
* `Select.clauses_of_write`: a selection is written as the texts of its clauses
* `Select.clauses_stand`: when the texts of all clauses stand by themselves
-/

namespace QueryTree

variable {st : Settings}

/-! ### Lists with gaps -/

section Lists

variable {α β : Type} {R : α → β → Prop} {m w : α → Prop} {m' w' : β → Prop} {l : List α}
  {l' : List β}

/-- Behind every element that is missing stands one that is written. -/
def Covered (missing written : α → Prop) (l : List α) : Prop :=
  ∀ x rest, x :: rest <:+ l → missing x → ∃ y ∈ rest, written y

theorem covered_cons {x : α} :
    Covered m w (x :: l) ↔ (m x → ∃ y ∈ l, w y) ∧ Covered m w l := by
  refine ⟨fun h => ⟨h x l List.suffix_rfl, fun y rest hl => h y rest (hl.trans ?_)⟩,
    fun h y rest hl => ?_⟩
  · exact List.suffix_cons x l
  · rcases List.suffix_cons_iff.mp hl with heq | hl
    · obtain ⟨rfl, rfl⟩ := List.cons.inj heq
      exact h.1
    · exact h.2 y rest hl

theorem forall_mem_of_forall₂ (h : List.Forall₂ R l l') (hw : ∀ x y, R x y → w' y) :
    ∀ y ∈ l', w' y :=
  ((List.forall₂_and_left l' l).mp
    (List.Forall₂.flip (h.imp fun x y hxy => ⟨hw x y hxy, hxy⟩))).1

theorem exists_mem_iff_of_forall₂ (h : List.Forall₂ R l l')
    (hw : ∀ x y, R x y → (w x ↔ w' y)) : (∃ x ∈ l, w x) ↔ ∃ y ∈ l', w' y := by
  induction h with
  | nil => simp
  | cons hxy _ ih => simp [hw _ _ hxy, ih]

theorem exists_head?_iff_of_forall₂ (h : List.Forall₂ R l l')
    (hw : ∀ x y, R x y → (w x ↔ w' y)) : (∃ x ∈ l.head?, w x) ↔ ∃ y ∈ l'.head?, w' y := by
  cases h with
  | nil => simp
  | cons hxy _ => simp [hw _ _ hxy]

theorem covered_iff_of_forall₂ (h : List.Forall₂ R l l') (hm : ∀ x y, R x y → (m x ↔ m' y))
    (hw : ∀ x y, R x y → (w x ↔ w' y)) : Covered m w l ↔ Covered m' w' l' := by
  induction h with
  | nil => simp [Covered]
  | cons hxy hl ih =>
    rw [covered_cons, covered_cons, hm _ _ hxy, exists_mem_iff_of_forall₂ hl hw, ih]

end Lists

/-! ### Orders -/

/-- The text of an order, and whether the order is not given at all. -/
structure OrderText where
  missing : Bool
  text : Text

namespace OrderText

/-- The orders behind the first one: a separator stands in front of what has a text and of what is
not given. -/
def following : List OrderText → Text
  | [] => []
  | y :: ys =>
    (if y.missing || !y.text.isEmpty then itemSeparator ++ y.text else []) ++ following ys

/-- The orders one after the other. -/
def ordered : List OrderText → Text
  | [] => []
  | y :: ys => y.text ++ following ys

/-- The text is that of the order. -/
def Of (st : Settings) (o : Expr × List Direction) (y : OrderText) : Prop :=
  y.missing = o.1.isHole ∧ o.1.HasText st .orderBy o.2 y.text

/-- An order has a text. -/
def IsWritten (y : OrderText) : Prop := y.text ≠ []

/-- The text of an order stands by itself, and it has none where it is not given. -/
structure Stands (y : OrderText) : Prop where
  text : y.text = [] ∨ SelfStanding y.text
  missing : y.missing = true → y.text = []

theorem freeAtHead_ordered_iff {ys : List OrderText} (h : ∀ y ∈ ys, y.Stands) :
    FreeAtHead (ordered ys) ↔ ∃ y ∈ ys.head?, y.IsWritten := by
  have hhead : ∀ ys, ¬ FreeAtHead (following ys) := by
    intro ys
    induction ys with
    | nil => exact fun h => h.1 rfl
    | cons y ys ih =>
      rw [following]
      split
      · exact fun h => h.2 rfl
      · exact ih
  cases ys with
  | nil => exact ⟨fun h => absurd rfl h.1, fun ⟨y, hy, _⟩ => nomatch hy⟩
  | cons y ys =>
    simp only [List.head?_cons, Option.mem_some_iff, exists_eq_left', ordered]
    rcases (h y (by simp)).text with hnil | hself
    · simp [hnil, IsWritten, hhead ys]
    · exact ⟨fun _ => hself.1.1, fun _ => hself.1.append _⟩

/-- What orders leave at the end of a text: a separator that a missing order has left is covered by
an order behind it only. -/
theorem freeAtEnd_following_iff {ys : List OrderText} (h : ∀ y ∈ ys, y.Stands) (a : Text) :
    FreeAtEnd (a ++ following ys) ↔
      Covered (·.missing = true) IsWritten ys ∧ (FreeAtEnd a ∨ ∃ y ∈ ys, y.IsWritten) := by
  induction ys generalizing a with
  | nil =>
    have hnone : Covered (fun y : OrderText => y.missing = true) IsWritten [] := fun x rest hl =>
      absurd (List.suffix_nil.mp hl) (List.cons_ne_nil x rest)
    simp [following, hnone]
  | cons y ys ih =>
    have ih := ih fun y hy => h y (by simp [hy])
    obtain ⟨htext, hmissing⟩ := h y (by simp)
    rw [following, covered_cons]
    rcases htext with hnil | hself
    · have hwritten : ¬ y.IsWritten := fun h => h hnil
      cases hm : y.missing with
      | true =>
        have hsep : ¬ FreeAtEnd (a ++ itemSeparator) := fun h => h.2 (List.suffix_append a _)
        simp only [hnil, Bool.true_or, if_true, List.append_nil, ← List.append_assoc, ih, hsep,
          false_or, forall_const, List.exists_mem_cons_iff, hwritten]
        tauto
      | false => simp [hnil, ih, hwritten]
    · have hwritten : y.IsWritten := hself.1.1
      have hpresent : y.missing = false := by
        cases hm : y.missing with
        | true => exact absurd (hmissing hm) hself.1.1
        | false => rfl
      have hfree : FreeAtEnd (a ++ itemSeparator ++ y.text) :=
        hself.2.append (getLast?_append_ne (by decide) (by decide) a)
      have hne : y.text.isEmpty = false := by simpa using hself.1.1
      simp only [hpresent, hne, Bool.not_false, Bool.or_true, if_true, ← List.append_assoc, ih,
        hfree, true_or, and_true, Bool.false_eq_true, false_imp_iff, true_and,
        List.exists_mem_cons_iff, hwritten, or_true]

/-- **A list of orders stands by itself** if the first order has a text and one stands behind every
order that is not given. -/
theorem selfStanding_ordered_iff {ys : List OrderText} (h : ∀ y ∈ ys, y.Stands) :
    SelfStanding (ordered ys) ↔
      (∃ y ∈ ys.head?, y.IsWritten) ∧ Covered (·.missing = true) IsWritten ys := by
  rw [SelfStanding, freeAtHead_ordered_iff h]
  refine and_congr_right fun ⟨y, hy, hwritten⟩ => ?_
  obtain ⟨ys, rfl⟩ := List.head?_eq_some_iff.mp hy
  have hself := (h y (by simp)).text.resolve_left hwritten
  have hpresent : ¬ y.missing = true := fun hm => hwritten ((h y (by simp)).missing hm)
  rw [ordered, freeAtEnd_following_iff fun y hy => h y (by simp [hy]), covered_cons]
  simp [hself.2, hpresent]

/-- What the text of an order tells of the order. -/
theorem Of.stands {o : Expr × List Direction} {y : OrderText}
    (ho : o.1.Named st (.selfStanding st.quoted)) (h : Of st o y) :
    y.Stands ∧ (y.IsWritten ↔ ¬ o.1.Silent st .orderBy) := by
  obtain ⟨hmissing, htext⟩ := h
  rcases htext.item rfl ho with ⟨hnil, hsilent⟩ | ⟨hself, hvocal⟩
  · exact ⟨⟨.inl hnil, fun _ => hnil⟩, by simp [IsWritten, hnil, hsilent]⟩
  · refine ⟨⟨.inr hself, fun hm => ?_⟩, by simp [IsWritten, hself.1.1, hvocal]⟩
    exact absurd (Expr.silent_of_isHole (hmissing ▸ hm)) hvocal

end OrderText

namespace Draft

variable {d d' : Draft}

theorem Standing.writeFollowing {os : List (Expr × List Direction)} (hd : Standing st d)
    (ho : ∀ o ∈ os, o.1.Named st (.selfStanding st.quoted))
    (h : Select.writeOrders d false os = .ok d') :
    Standing st d' ∧ ∃ ys, List.Forall₂ (OrderText.Of st) os ys ∧
      d'.text = d.text ++ OrderText.following ys := by
  induction os generalizing d with
  | nil =>
    cases h
    exact ⟨hd, [], .nil, by simp [OrderText.following]⟩
  | cons o os ih =>
    obtain ⟨e, ds⟩ := o
    rw [Select.writeOrders] at h
    obtain ⟨d₁, h₁, h⟩ := bind_eq_ok.mp h
    obtain ⟨hd₁, t, ht, htext⟩ :=
      (hd.write itemSeparator).clause_list (c := .orderBy) rfl (ho (e, ds) (by simp)) h₁
    obtain ⟨hd', ys, hys, hrest⟩ := ih hd₁ (fun o ho' => ho o (by simp [ho'])) h
    refine ⟨hd', ⟨e.isHole, t⟩ :: ys, .cons ⟨rfl, ht⟩ hys, ?_⟩
    rw [hrest, htext, OrderText.following]
    have hwrite : (d.write itemSeparator).text = d.text ++ itemSeparator := rfl
    cases t with
    | nil => cases e.isHole <;> simp [hwrite, Text.trimSuffix_append]
    | cons b t => simp [hwrite]

theorem Standing.writeOrders {os : List (Expr × List Direction)} (hd : Standing st d)
    (htrim : d.IsTrimmed) (ho : ∀ o ∈ os, o.1.Named st (.selfStanding st.quoted))
    (h : Select.writeOrders d true os = .ok d') :
    Standing st d' ∧ ∃ ys, List.Forall₂ (OrderText.Of st) os ys ∧
      d'.text = d.text ++ OrderText.ordered ys := by
  cases os with
  | nil =>
    cases h
    exact ⟨hd, [], .nil, by simp [OrderText.ordered]⟩
  | cons o os =>
    obtain ⟨e, ds⟩ := o
    rw [Select.writeOrders] at h
    obtain ⟨d₁, h₁, h⟩ := bind_eq_ok.mp h
    obtain ⟨hd₁, t, ht, htext⟩ := hd.clause_list (c := .orderBy) rfl (ho (e, ds) (by simp)) h₁
    obtain ⟨hd', ys, hys, hrest⟩ := hd₁.writeFollowing (fun o ho' => ho o (by simp [ho'])) h
    refine ⟨hd', ⟨e.isHole, t⟩ :: ys, .cons ⟨rfl, ht⟩ hys, ?_⟩
    have htrim : d.text.trimSuffix itemSeparator = d.text := htrim
    rw [hrest, htext, OrderText.ordered, htrim]
    cases t <;> simp

/-! ### Conditions and joins in a draft -/

/-- A keyword with what stands behind it, or nothing. -/
def behind (keyword : Text) : Option Text → Text
  | some t => keyword ++ t
  | none => []

/-- The text of the conjunction of conditions, if it has one. -/
def Conjoined (st : Settings) (c : Clause) (conds : List Expr) : Option Text → Prop
  | some t => conds ≠ [] ∧ t ≠ [] ∧ (Expr.allOf conds).HasText st c [] t
  | none => conds = [] ∨ (Expr.allOf conds).HasText st c [] []

theorem Standing.conditions {keyword : Text} {conds : List Expr} {c : Clause} (hd : Standing st d)
    (hc : c.isCondition = true) (hn : ∀ e ∈ conds, e.Named st (.selfStanding st.quoted))
    (h : d.conditions keyword conds c = .ok d') :
    Standing st d' ∧ ∃ t, Conjoined st c conds t ∧ d'.text = d.text ++ behind keyword t := by
  unfold Draft.conditions at h
  split at h
  · rename_i hempty
    cases h
    exact ⟨hd, none, .inl (List.isEmpty_iff.mp hempty), by simp [behind]⟩
  · rename_i hempty
    obtain ⟨d₁, h₁, h⟩ := bind_eq_ok.mp h
    cases h
    obtain ⟨hd₁, t, htext, ht⟩ := (hd.write keyword).clause_condition hc (Expr.named_joined hn) h₁
    have hlength : d₁.text.length = (d.write keyword).text.length ↔ t = [] := by
      rw [htext, List.length_append]
      simp
    split
    · rename_i hlen
      obtain rfl := hlength.mp hlen
      exact ⟨⟨hd₁.settings, hd₁.aliases⟩, none, .inr ht, by simp [behind]⟩
    · rename_i hlen
      refine ⟨hd₁, some t, ⟨by simpa using hempty, fun hnil => hlen (hlength.mpr hnil), ht⟩, ?_⟩
      rw [htext, behind, ← List.append_assoc]
      rfl

/-- The text is the table of the row of a parameter with an alias. -/
def NamesTable (st : Settings) (p : Option Param) (t : Text) : Prop :=
  ∃ q e name, p = some q ∧ st.entityOf q.type = .ok e ∧ t = st.tableRef e.table name

theorem Standing.source {p : Option Param} {e : Entity} {name : Text} (hd : Standing st d)
    (hp : ∀ q ∈ p, q.Named st (.selfStanding st.quoted)) (h : d.source p = .ok (e, name, d')) :
    Standing st d' ∧ d'.text = d.text ∧ NamesTable st p (st.tableRef e.table name) := by
  obtain ⟨q, rfl, he, rfl, rfl⟩ := source_eq_ok h
  obtain ⟨hname, hentity⟩ := hp q rfl
  rw [hd.settings] at he
  obtain ⟨-, hw⟩ := hd.aliases.bind hname fun h => .inr ((hentity e he).1 h)
  exact ⟨⟨hd.settings, hw⟩, rfl, q, e, _, rfl, he, rfl⟩

theorem Standing.joinRefs {js : List Join} {refs : List Text} (hd : Standing st d)
    (hj : ∀ j ∈ js, j.Named st (.selfStanding st.quoted))
    (h : Select.joinRefs d js = .ok (refs, d')) : Standing st d' ∧ d'.text = d.text ∧
      List.Forall₂ (fun (j : Join) ref => NamesTable st j.row ref) js refs := by
  induction js generalizing d refs with
  | nil =>
    cases h
    exact ⟨hd, rfl, .nil⟩
  | cons j js ih =>
    rw [Select.joinRefs] at h
    obtain ⟨⟨e, name, d₁⟩, h₁, h⟩ := bind_eq_ok.mp h
    obtain ⟨⟨rest, d₂⟩, h₂, h⟩ := bind_eq_ok.mp h
    cases h
    obtain ⟨hd₁, htext₁, hname⟩ := hd.source (hj j (by simp)).1 h₁
    obtain ⟨hd₂, htext₂, hrest⟩ := ih hd₁ (fun j hj' => hj j (by simp [hj'])) h₂
    refine ⟨hd₂, htext₂.trans htext₁, .cons ?_ hrest⟩
    rw [hd₂.settings]
    exact hname

end Draft

/-- The texts of a join: its table, and the condition behind `ON`. -/
structure JoinText where
  kind : JoinKind
  table : Text
  condition : Text

namespace JoinText

/-- The join as it is written. -/
def text (y : JoinText) : Text :=
  " " ++ y.kind.keywords ++ " " ++ y.table ++ " ON " ++ y.condition

/-- The texts are those of the join; one without a text is written as a condition that always
holds. -/
structure Of (st : Settings) (j : Join) (y : JoinText) : Prop where
  kind : y.kind = j.kind
  table : Draft.NamesTable st j.row y.table
  condition : ∃ t, j.condition.HasText st .join [] t ∧
    y.condition = if t = [] then ("1 = 1" : Text) else t

end JoinText

namespace Draft

variable {d d' : Draft}

theorem clause_of_isHole {e : Expr} (he : e.isHole = true) {c : Clause} (hc : c.isCondition = true)
    (d : Draft) (ds : List Direction) : d.clause e c ds = .ok d := by
  rw [Draft.clause, compile_of_isHole he, compileHole_condition d hc]

/-- A condition that emits nothing is written as one that always holds. -/
theorem Standing.joinCondition {e : Expr} (hd : Standing st d)
    (he : e.Named st (.selfStanding st.quoted)) (h : d.clause e .join [] = .ok d') :
    ∃ t, e.HasText st .join [] t ∧ ∀ x : Draft,
      x = (if d'.text.length = d.text.length then d'.write "1 = 1" else d') →
        Standing st x ∧ x.text = d.text ++ if t = [] then ("1 = 1" : Text) else t := by
  obtain ⟨hd', t, htext, ht⟩ := hd.clause_condition (c := .join) rfl he h
  have hlength : d'.text.length = d.text.length ↔ t = [] := by
    rw [htext, List.length_append]
    simp
  refine ⟨t, ht, ?_⟩
  rintro _ rfl
  rw [if_congr hlength rfl rfl]
  split
  · rename_i hnil
    refine ⟨hd'.write _, ?_⟩
    show d'.text ++ _ = _
    rw [htext, hnil, List.append_nil]
  · exact ⟨hd', htext⟩

theorem Standing.writeJoins {js : List Join} {refs : List Text} (hd : Standing st d)
    (hj : ∀ j ∈ js, j.Named st (.selfStanding st.quoted))
    (hrefs : List.Forall₂ (fun (j : Join) ref => NamesTable st j.row ref) js refs)
    (h : Select.writeJoins d (js.zip refs) = .ok d') :
    Standing st d' ∧ ∃ ys, List.Forall₂ (JoinText.Of st) js ys ∧
      d'.text = d.text ++ ys.flatMap JoinText.text := by
  induction hrefs generalizing d with
  | nil =>
    cases h
    exact ⟨hd, [], .nil, by simp⟩
  | @cons j ref js refs href _ ih =>
    rw [List.zip_cons_cons, Select.writeJoins] at h
    -- a condition that is not given would compile to nothing as well
    obtain ⟨d₁, h₁, h⟩ : ∃ d₁,
        (d.write (" " ++ j.kind.keywords ++ " " ++ ref ++ " ON ")).clause j.condition .join [] =
          .ok d₁ ∧ Select.writeJoins (if d₁.text.length =
            (d.write (" " ++ j.kind.keywords ++ " " ++ ref ++ " ON ")).text.length
              then d₁.write "1 = 1" else d₁) (js.zip refs) = .ok d' := by
      split at h
      · rename_i hhole
        obtain ⟨d₁, h₁, h⟩ := bind_eq_ok.mp h
        cases h₁
        exact ⟨_, clause_of_isHole hhole rfl _ _, h⟩
      · exact bind_eq_ok.mp h
    obtain ⟨t, ht, hnext⟩ := (hd.write _).joinCondition (hj j (by simp)).2 h₁
    obtain ⟨hd₂, htext⟩ := hnext _ rfl
    obtain ⟨hd', ys, hys, hrest⟩ := ih hd₂ (fun j hj' => hj j (by simp [hj'])) h
    refine ⟨hd', ⟨j.kind, ref, if t = [] then ("1 = 1" : Text) else t⟩ :: ys,
      .cons ⟨rfl, href, t, ht, rfl⟩ hys, ?_⟩
    rw [hrest, htext, List.flatMap_cons, JoinText.text]
    simp [Draft.write]

end Draft

/-! ### Selections -/

namespace Select

open Draft QueryTree.Expr

/-- The texts of the clauses of a selection. -/
structure Clauses where
  projection : Text
  source : Text
  joins : List JoinText
  wheres : Option Text
  groups : Option Text
  havings : Option Text
  orders : List OrderText

namespace Clauses

/-- The text of the orders, if there are any. -/
def ordering (x : Clauses) : Option Text :=
  if x.orders = [] then none else some (OrderText.ordered x.orders)

/-- The clauses behind their keywords, without what is written for the paging. -/
def text (x : Clauses) (distinct : Bool) : Text :=
  (if distinct then ("SELECT DISTINCT " : Text) else "SELECT ") ++ x.projection ++ " FROM " ++
    x.source ++ x.joins.flatMap JoinText.text ++ behind " WHERE " x.wheres ++
    behind " GROUP BY " x.groups ++ behind " HAVING " x.havings ++ behind " ORDER BY " x.ordering

/-- The texts are what the clauses of the selection are compiled to. -/
structure Of (st : Settings) (s : Select) (x : Clauses) : Prop where
  projection : s.projection.HasText st .select [] x.projection
  source : NamesTable st s.source x.source
  joins : List.Forall₂ (JoinText.Of st) s.joins x.joins
  wheres : Conjoined st .where_ s.wheres x.wheres
  groups : match x.groups with
    | some t => s.groups ≠ [] ∧ (Expr.ofItems s.groups).HasText st .groupBy [] t
    | none => s.groups = []
  havings : Conjoined st .having s.havings x.havings
  orders : List.Forall₂ (OrderText.Of st) s.orders x.orders

/-- The texts behind the keywords stand by themselves. Behind `GROUP BY` this takes a group that is
not silent, or nothing stands there; behind `ORDER BY` it takes that the first order is not silent,
and that one that is not stands behind every order that is not given. -/
structure Stand (st : Settings) (s : Select) (x : Clauses) : Prop where
  projection : SelfStanding x.projection
  joins : ∀ y ∈ x.joins, SelfStanding y.condition
  wheres : ∀ t ∈ x.wheres, SelfStanding t
  groups : ∀ t ∈ x.groups, t = [] ∧ (∀ e ∈ s.groups, e.Silent st .groupBy) ∨
    SelfStanding t ∧ ∃ e ∈ s.groups, ¬ e.Silent st .groupBy
  havings : ∀ t ∈ x.havings, SelfStanding t
  orders : ∀ t ∈ x.ordering, SelfStanding t ↔
    (∃ o ∈ s.orders.head?, ¬ o.1.Silent st .orderBy) ∧
      Covered (·.1.isHole = true) (fun o => ¬ o.1.Silent st .orderBy) s.orders

end Clauses

variable {s : Select} {d d' : Draft}

/-- The clauses of a selection behind its groups. -/
theorem clauses_of_writeTail (hd : Standing st d) (hs : s.Named st (.selfStanding st.quoted))
    (h : (do
      let d ← d.conditions " HAVING " s.havings .having
      let d ← if s.orders.isEmpty then .ok d
        else writeOrders (d.write " ORDER BY ") true s.orders
      return s.writePage d) = .ok d') :
    ∃ havings orders, Conjoined st .having s.havings havings ∧
      List.Forall₂ (OrderText.Of st) s.orders orders ∧
      d'.text = d.text ++ behind " HAVING " havings ++ behind " ORDER BY "
        (if orders = [] then none else some (OrderText.ordered orders)) ++
          s.pagingTail st.profile := by
  obtain ⟨d₁, h₁, h⟩ := bind_eq_ok.mp h
  obtain ⟨hd₁, havings, hh, htext₁⟩ := hd.conditions rfl hs.havings h₁
  have hpage : ∀ {d : Draft}, Standing st d → (s.writePage d).text =
      d.text ++ s.pagingTail st.profile := fun hd => by rw [writePage_eq, hd.settings]; rfl
  split at h
  · rename_i hnone
    obtain ⟨d₂, h₂, h⟩ := bind_eq_ok.mp h
    cases h₂
    cases h
    have horders : s.orders = [] := List.isEmpty_iff.mp hnone
    exact ⟨havings, [], hh, horders ▸ .nil, by rw [hpage hd₁, htext₁]; simp [behind]⟩
  · rename_i hsome
    obtain ⟨d₂, h₂, h⟩ := bind_eq_ok.mp h
    cases h
    obtain ⟨hd₂, orders, ho, htext₂⟩ := (hd₁.write " ORDER BY ").writeOrders
      (isTrimmed_write d₁ (by decide) (by decide)) hs.orders h₂
    have hne : orders ≠ [] := by
      rintro rfl
      rw [List.forall₂_nil_right_iff.mp ho] at hsome
      exact hsome rfl
    refine ⟨havings, orders, hh, ho, ?_⟩
    rw [hpage hd₂, htext₂, if_neg hne, behind, ← List.append_assoc, ← htext₁]
    rfl

/-- **A selection is written as the texts of its clauses**, each behind its keyword. -/
theorem clauses_of_write (hd : Standing st d) (hs : s.Named st (.selfStanding st.quoted))
    (h : s.write d = .ok d') : ∃ x : Clauses, x.Of st s ∧
      d'.text = d.text ++ x.text s.distinct ++ s.pagingTail st.profile := by
  unfold Select.write at h
  split at h
  · cases h
  · obtain ⟨⟨e, name, d₁⟩, h₁, h⟩ := bind_eq_ok.mp h
    obtain ⟨hd₁, htext₁, hsource⟩ := hd.source hs.source h₁
    obtain ⟨⟨refs, d₂⟩, h₂, h⟩ := bind_eq_ok.mp h
    obtain ⟨hd₂, htext₂, hrefs⟩ := hd₁.joinRefs hs.joins h₂
    obtain ⟨d₃, h₃, h⟩ := bind_eq_ok.mp h
    have hkeyword :
        (d₂.write (if s.distinct then "SELECT DISTINCT " else "SELECT ")).IsTrimmed := by
      cases s.distinct <;> exact isTrimmed_write d₂ (by decide) (by decide)
    obtain ⟨hd₃, projection, htext₃, hprojection⟩ :=
      (hd₂.write _).clause_select hkeyword hs.projection h₃
    obtain ⟨d₄, h₄, h⟩ := bind_eq_ok.mp h
    rw [hd₃.settings] at h₄
    obtain ⟨hd₄, joins, hjoins, htext₄⟩ := (hd₃.write _).writeJoins hs.joins hrefs h₄
    obtain ⟨d₅, h₅, h⟩ := bind_eq_ok.mp h
    obtain ⟨hd₅, wheres, hwheres, htext₅⟩ := hd₄.conditions rfl hs.wheres h₅
    have hbefore : d₅.text = d.text ++ (if s.distinct then ("SELECT DISTINCT " : Text)
        else "SELECT ") ++ projection ++ " FROM " ++ st.tableRef e.table name ++
          joins.flatMap JoinText.text ++ behind " WHERE " wheres := by
      rw [htext₅, htext₄]
      simp only [Draft.write, htext₃, htext₂, htext₁, List.append_assoc]
    by_cases hg : s.groups.isEmpty = true
    · rw [if_pos hg] at h
      obtain ⟨d₆, h₆, h⟩ := bind_eq_ok.mp h
      cases h₆
      obtain ⟨havings, orders, hhavings, horders, htext⟩ := clauses_of_writeTail hd₅ hs h
      refine ⟨⟨projection, st.tableRef e.table name, joins, wheres, none, havings, orders⟩,
        ⟨hprojection, hsource, hjoins, hwheres, List.isEmpty_iff.mp hg, hhavings, horders⟩, ?_⟩
      rw [htext, hbefore]
      simp only [Clauses.text, Clauses.ordering, behind, List.append_assoc, List.append_nil]
    · rw [if_neg hg] at h
      obtain ⟨d₆, h₆, h⟩ := bind_eq_ok.mp h
      have htrim : (d₅.write " GROUP BY ").IsTrimmed :=
        isTrimmed_write d₅ (by decide) (by decide)
      obtain ⟨hd₆, groups, hgroups, htext₆⟩ := (hd₅.write " GROUP BY ").clause_list
        (c := .groupBy) rfl (Expr.named_ofItems hs.groups) h₆
      obtain ⟨havings, orders, hhavings, horders, htext⟩ := clauses_of_writeTail hd₆ hs h
      refine ⟨⟨projection, st.tableRef e.table name, joins, wheres, some groups, havings, orders⟩,
        ⟨hprojection, hsource, hjoins, hwheres, ⟨by simpa using hg, hgroups⟩, hhavings, horders⟩,
        ?_⟩
      have hgrouped : d₆.text = d₅.text ++ behind " GROUP BY " (some groups) := by
        have hwrite : (d₅.write " GROUP BY ").text = d₅.text ++ " GROUP BY " := rfl
        have htrim : (d₅.write " GROUP BY ").text.trimSuffix itemSeparator =
          (d₅.write " GROUP BY ").text := htrim
        rw [htext₆, htrim, hwrite, behind, ← List.append_assoc]
        by_cases hnil : groups = [] <;> simp [hnil]
      rw [htext, hgrouped, hbefore]
      simp only [Clauses.text, Clauses.ordering, List.append_assoc]

/-- **Which texts of clauses stand by themselves.** -/
theorem Clauses.Of.stand {x : Clauses} (hs : s.Named st (.selfStanding st.quoted))
    (h : x.Of st s) : x.Stand st s where
  projection := h.projection.projection hs.projection
  joins := by
    refine forall_mem_of_forall₂ ((List.forall₂_and_left _ _).mpr ⟨hs.joins, h.joins⟩) ?_
    rintro j y ⟨hj, hy⟩
    obtain ⟨t, ht, hcondition⟩ := hy.condition
    rw [hcondition]
    split
    · decide
    · rename_i hne
      exact (ht.condition rfl hj.2).resolve_left hne
  wheres t ht := by
    obtain ⟨-, hne, htext⟩ : Conjoined st .where_ s.wheres (some t) := ht ▸ h.wheres
    exact (htext.condition rfl (Expr.named_joined hs.wheres)).resolve_left hne
  groups t ht := by
    have hgroups := h.groups
    rw [ht] at hgroups
    exact hgroups.2.items hgroups.1 rfl hs.groups
  havings t ht := by
    obtain ⟨-, hne, htext⟩ : Conjoined st .having s.havings (some t) := ht ▸ h.havings
    exact (htext.condition rfl (Expr.named_joined hs.havings)).resolve_left hne
  orders t ht := by
    have horders := (List.forall₂_and_left _ _).mpr ⟨hs.orders, h.orders⟩
    have hwritten : ∀ o y, o.1.Named st (.selfStanding st.quoted) ∧ OrderText.Of st o y →
        (y.IsWritten ↔ ¬ o.1.Silent st .orderBy) := fun o y ho => (ho.2.stands ho.1).2
    unfold Clauses.ordering at ht
    split at ht
    · cases ht
    · cases ht
      rw [OrderText.selfStanding_ordered_iff
        (forall_mem_of_forall₂ horders fun o y ho => (ho.2.stands ho.1).1)]
      have hwritten := fun o y ho => (hwritten o y ho).symm
      exact and_congr (exists_head?_iff_of_forall₂ horders hwritten).symm
        (covered_iff_of_forall₂ horders (fun o y ho => by rw [ho.2.1]) hwritten).symm

/-- **No keyword and no separator dangles, but for lists.** Where a selection compiles, its text is
that of its clauses, each behind its keyword. Behind `SELECT`, every `ON`, `WHERE` and `HAVING`
stands a text that is not empty and has no separator at either end. The same holds of `GROUP BY`
exactly if some group is compiled to a text, and of `ORDER BY` exactly if the first order is, and
one behind every order that is not given. Names have to be quoted, or to stand by themselves. -/
theorem clauses_stand {ts : List Transform}
    (hn : st.quoted = true ∨ s.Named st (.selfStanding st.quoted) ∧
      ∀ t ∈ ts, t.Named st (.selfStanding st.quoted))
    (h : s.compile ts st = .ok d) :
    ∃ conds, transformAll Transform.select ts s = .ok { s with wheres := conds } ∧
      ∃ x : Clauses, x.Of st { s with wheres := conds } ∧
        d.text = x.text s.distinct ++ s.pagingTail st.profile ∧ x.Stand st s := by
  obtain ⟨hs, hts⟩ : s.Named st (.selfStanding st.quoted) ∧
      ∀ t ∈ ts, t.Named st (.selfStanding st.quoted) := by
    refine hn.elim (fun hq => ?_) id
    have hL := permissive_selfStanding hq
    exact ⟨s.named_of_permissive hL, fun t _ => t.named_of_permissive hL⟩
  unfold Select.compile at h
  obtain ⟨s', htransform, h⟩ := bind_eq_ok.mp h
  have hs' := hs.transformAll hts htransform
  obtain ⟨conds, rfl⟩ := exists_of_transformAll htransform
  obtain ⟨x, hx, htext⟩ := clauses_of_write (standing_new st) hs' h
  have hstand := hx.stand hs'
  exact ⟨conds, htransform, x, hx, htext, hstand.projection, hstand.joins, hstand.wheres,
    hstand.groups, hstand.havings, hstand.orders⟩

end Select

namespace Sample

/-- The customers that meet conditions, with these groups and orders. -/
def customersBy (conds groups : List Expr) (orders : List (Expr × List Direction)) : Select :=
  { customersWith conds with groups := groups, orders := orders }

/-- The empty list of names. -/
def noNames : Expr := .value (.string "")

/-- The customers of a name, by their ages. -/
def agesOfNamed : Select :=
  customersBy [hasName "x"] [.field customerRow "Age", noNames]
    [(.field customerRow "Age", []), (noNames, [])]

end Sample

open Sample in
/-- One of two groups is compiled to nothing, and so is the second order. -/
theorem Select.clauses_stand_named :
    ∃ d, agesOfNamed.compile [] (.standard .sqlServer world) = .ok d ∧
      d.text =
        "SELECT * FROM customers AS c WHERE c.name = @p1 GROUP BY c.age ORDER BY c.age ASC" ∧
      ∃ x : Clauses, d.text = x.text false ∧ x.Stand (.standard .sqlServer world) agesOfNamed := by
  have hrow := customerRow_selfStanding .sqlServer
  have hs : agesOfNamed.Named (.standard .sqlServer world) (.selfStanding false) :=
    { source := fun p hp => Option.some.inj hp ▸ hrow
      joins := nofun
      projection := trivial
      wheres := List.forall_mem_singleton.mpr ⟨hrow, trivial⟩
      groups := List.forall_mem_cons.mpr ⟨hrow, List.forall_mem_singleton.mpr trivial⟩
      havings := nofun
      orders := List.forall_mem_cons.mpr ⟨hrow, List.forall_mem_singleton.mpr trivial⟩ }
  have text : statementText? (.select agesOfNamed) [] (.standard .sqlServer world) = some
      ("SELECT * FROM customers AS c WHERE c.name = @p1 GROUP BY c.age ORDER BY c.age ASC" :
        Text) := by
    decide +kernel
  obtain ⟨d, hd, ht⟩ := compile_of_statementText? text
  have hts : ∀ t ∈ ([] : List Transform), t.Named (.standard .sqlServer world)
      (.selfStanding false) := nofun
  obtain ⟨-, -, x, -, hx, hstand⟩ := clauses_stand (.inr ⟨hs, hts⟩) hd
  exact ⟨d, hd, ht, x, by rw [hx]; exact List.append_nil _, hstand⟩

open Sample in
/-- **A list that is compiled to nothing leaves its keyword behind**, and an order that is not given
leaves its separator. -/
theorem Select.exists_dangling_keyword :
    (∃ d, (customersBy [] [noNames] []).compile [] (.standard .sqlServer world) = .ok d ∧
      d.text = "SELECT * FROM customers AS c GROUP BY ") ∧
    (∃ d, (customersBy [] [] [(noNames, [])]).compile [] (.standard .sqlServer world) = .ok d ∧
      d.text = "SELECT * FROM customers AS c ORDER BY ") ∧
    ∃ d, (customersBy [] [] [(.field customerRow "Age", []), (.hole, [])]).compile []
      (.standard .sqlServer world) = .ok d ∧
        d.text = "SELECT * FROM customers AS c ORDER BY c.age ASC, " := by
  have groups : statementText? (.select (customersBy [] [noNames] [])) []
      (.standard .sqlServer world) = some ("SELECT * FROM customers AS c GROUP BY " : Text) := by
    decide +kernel
  have orders : statementText? (.select (customersBy [] [] [(noNames, [])])) []
      (.standard .sqlServer world) = some ("SELECT * FROM customers AS c ORDER BY " : Text) := by
    decide +kernel
  have missing : statementText? (.select (customersBy [] []
      [(.field customerRow "Age", []), (.hole, [])])) [] (.standard .sqlServer world) =
        some ("SELECT * FROM customers AS c ORDER BY c.age ASC, " : Text) := by
    decide +kernel
  exact ⟨compile_of_statementText? groups, compile_of_statementText? orders,
    compile_of_statementText? missing⟩

end QueryTree
