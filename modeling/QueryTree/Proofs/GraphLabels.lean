import Mathlib.Algebra.Ring.Parity
import Mathlib.Tactic.Tauto
import QueryTree.Proofs.Forest

/-!
# Labels as quoted strings

A label stands in the text of a graph between two double quotes. Whoever reads it takes every
backslash together with the byte behind it, and the first double quote that is left ends the label.
So what stands between the quotes is read as one label exactly if each double quote in it is behind
an odd number of backslashes and an even number of them stands at the end.

The label of a node is written with a backslash before each double quote, so its own quotes have to
stand behind an even number of backslashes. Nothing takes care of that: a backslash that the name
has before the quote makes a pair with the one that is written, and the quote ends the label. Types
without a name have such backslashes whenever a field has a tag. The label of an edge is written as
it is, so that already the double quote in the name of a binding ends it.

## Main definitions

* `Graph.readLabel?`: the reader of a label
* `Graph.backslashes`: the backslashes at the end of a text
* `Graph.IsEscaped`, `Graph.IsEscapable`: what may stand in an edge and in a node
* `Expr.Legible`, `Graph.Call.Legible`: the names for which this is so

## Main results

* `Graph.readLabel?_iff`, `Graph.isEscaped_escapeLabel_iff`: when a label is read as it was written
* `Graph.isEscapable_nodeOf_iff`, `Graph.forall_isEscaped_iff`: from labels to names
* `Graph.labels_read_iff`: all labels of a drawn graph
* `Graph.exists_torn_labels`: a binding and a string for which it is not so
-/

namespace QueryTree

namespace Graph

/-! ### Reading a label -/

/-- Reads a label from behind its opening quote: what stands before the quote that ends it, and what
follows. A backslash takes the byte behind it along. -/
def readLabel? : (taken : Bool) → Text → Option (Text × Text)
  | _, [] => none
  | taken, b :: rest =>
    if b = byte '"' ∧ taken = false then some ([], rest)
    else (readLabel? (!taken && b == byte '\\') rest).map fun (t, after) => (b :: t, after)

/-- Whether the byte behind a text is taken along by a backslash in it. -/
def takesNext (taken : Bool) (t : Text) : Bool :=
  t.foldl (fun taken b => !taken && b == byte '\\') taken

/-- A property of all that stands before a double quote of a text. -/
def AtQuotes (P : Text → Prop) (t : Text) : Prop := ∀ u v, t = u ++ byte '"' :: v → P u

/-- The number of backslashes at the end of a text. -/
def backslashes (t : Text) : Nat := (t.reverse.takeWhile (· == byte '\\')).length

/-- Every double quote of the text is escaped, and what follows the text is not. -/
def IsEscaped (t : Text) : Prop := AtQuotes (fun u => Odd (backslashes u)) t ∧ Even (backslashes t)

/-- No double quote of the text is escaped yet, nor is what follows the text. -/
def IsEscapable (t : Text) : Prop :=
  AtQuotes (fun u => Even (backslashes u)) t ∧ Even (backslashes t)

variable {P : Text → Prop} {b : UInt8} {s t rest : Text} {taken : Bool}

theorem atQuotes_nil (P : Text → Prop) : AtQuotes P [] := by
  intro u v h
  simp at h

theorem atQuotes_cons :
    AtQuotes P (b :: t) ↔ (b = byte '"' → P []) ∧ AtQuotes (fun u => P (b :: u)) t := by
  constructor
  · refine fun h => ⟨fun hb => h [] t (by rw [hb]; rfl), fun u v ht => h (b :: u) v ?_⟩
    rw [ht, List.cons_append]
  · rintro ⟨hb, ht⟩ u v h
    cases u with
    | nil => exact hb (List.cons.inj h).1
    | cons c u =>
      obtain ⟨rfl, htail⟩ := List.cons.inj h
      exact ht u v htail

theorem atQuotes_append :
    AtQuotes P (s ++ t) ↔ AtQuotes P s ∧ AtQuotes (fun u => P (s ++ u)) t := by
  induction s generalizing P with
  | nil => simp [atQuotes_nil]
  | cons b s ih => simp only [List.cons_append, atQuotes_cons, ih, and_assoc]

theorem atQuotes_of_notMem (h : byte '"' ∉ t) : AtQuotes P t := by
  rintro u v rfl
  simp at h

theorem takesNext_cons (taken : Bool) (b : UInt8) (t : Text) :
    takesNext taken (b :: t) = takesNext (!taken && b == byte '\\') t := rfl

theorem takesNext_append (taken : Bool) (s t : Text) :
    takesNext taken (s ++ t) = takesNext (takesNext taken s) t :=
  List.foldl_append

theorem backslashes_concat (t : Text) (b : UInt8) :
    backslashes (t ++ [b]) = if b == byte '\\' then backslashes t + 1 else 0 := by
  rw [backslashes, List.reverse_concat, List.takeWhile_cons]
  split <;> rfl

/-- A byte is taken along exactly if it stands behind an odd number of backslashes. -/
theorem takesNext_iff (t : Text) : takesNext false t = true ↔ Odd (backslashes t) := by
  induction t using List.reverseRecOn with
  | nil => simp [takesNext, backslashes]
  | append_singleton t b ih =>
    have hstep : takesNext (takesNext false t) [b] = (!takesNext false t && b == byte '\\') := rfl
    rw [takesNext_append, hstep, backslashes_concat]
    cases b == byte '\\' with
    | false => simp
    | true =>
      rw [Bool.and_true, if_pos rfl, Nat.odd_add_one, ← ih, Bool.not_eq_true', Bool.not_eq_true]

theorem takesNext_eq_false_iff (t : Text) : takesNext false t = false ↔ Even (backslashes t) := by
  rw [← Nat.not_odd_iff_even, ← takesNext_iff, Bool.not_eq_true]

theorem isEscaped_iff :
    IsEscaped t ↔ AtQuotes (fun u => takesNext false u = true) t ∧ takesNext false t = false := by
  simp only [IsEscaped, takesNext_iff, takesNext_eq_false_iff]

theorem isEscapable_iff :
    IsEscapable t ↔
      AtQuotes (fun u => takesNext false u = false) t ∧ takesNext false t = false := by
  simp only [IsEscapable, takesNext_eq_false_iff]

theorem readLabel?_from (taken : Bool) (t rest : Text) :
    readLabel? taken (t ++ byte '"' :: rest) = some (t, rest) ↔
      AtQuotes (fun u => takesNext taken u = true) t ∧ takesNext taken t = false := by
  induction t generalizing taken with
  | nil =>
    rw [and_iff_right (atQuotes_nil _)]
    cases taken with
    | false => exact iff_of_true rfl rfl
    | true => simp [readLabel?, takesNext, Option.map_eq_some_iff]
  | cons b t ih =>
    rw [List.cons_append, readLabel?, atQuotes_cons, takesNext_cons]
    simp only [takesNext_cons]
    split
    · rename_i hends
      have hfirst : takesNext taken [] = false := hends.2
      simp [hends.1, hfirst]
    · rename_i hgoes
      have hfirst : b = byte '"' → takesNext taken [] = true := fun hb =>
        Bool.not_eq_false _ ▸ fun htaken => hgoes ⟨hb, htaken⟩
      rw [and_iff_right hfirst, ← ih]
      simp [Option.map_eq_some_iff]

/-- **When a label that is written as it is, is read as it was written.** -/
theorem readLabel?_iff (t rest : Text) :
    readLabel? false (t ++ byte '"' :: rest) = some (t, rest) ↔ IsEscaped t := by
  rw [readLabel?_from, isEscaped_iff]

theorem escapeLabel_cons (b : UInt8) (t : Text) : escapeLabel (b :: t) =
    (if b = byte '"' then [byte '\\', b] else [b]) ++ escapeLabel t := rfl

theorem takesNext_escapeLabel (taken : Bool) (t : Text)
    (h : AtQuotes (fun u => takesNext taken u = false) t) :
    takesNext taken (escapeLabel t) = takesNext taken t := by
  induction t generalizing taken with
  | nil => rfl
  | cons b t ih =>
    rw [atQuotes_cons] at h
    obtain ⟨hfirst, hrest⟩ := h
    rw [escapeLabel_cons]
    split
    · rename_i hb
      have htaken : taken = false := hfirst hb
      subst hb htaken
      exact ih false hrest
    · exact ih _ hrest

/-- Escaping a text escapes all its quotes exactly if none of them was escaped before. -/
theorem atQuotes_escapeLabel (taken : Bool) (t : Text) :
    AtQuotes (fun u => takesNext taken u = true) (escapeLabel t) ↔
      AtQuotes (fun u => takesNext taken u = false) t := by
  induction t generalizing taken with
  | nil => exact iff_of_true (atQuotes_nil _) (atQuotes_nil _)
  | cons b t ih =>
    rw [escapeLabel_cons, atQuotes_cons]
    split
    · rename_i hb
      subst hb
      simp only [List.cons_append, List.nil_append, atQuotes_cons, takesNext_cons]
      cases taken with
      | false => simpa [takesNext] using ih false
      | true => simp [takesNext]
    · rename_i hb
      simp only [List.cons_append, List.nil_append, atQuotes_cons, takesNext_cons, hb,
        false_imp_iff, true_and, ih]

/-- **What is written for the label of a node is escaped exactly if the label is escapable.** -/
theorem isEscaped_escapeLabel_iff (t : Text) : IsEscaped (escapeLabel t) ↔ IsEscapable t := by
  rw [isEscaped_iff, isEscapable_iff, atQuotes_escapeLabel]
  exact and_congr_right fun h => by rw [takesNext_escapeLabel false t h]

/-! ### From labels to names -/

/-- Whether a text has neither double quotes nor backslashes. -/
def isPlain (t : Text) : Bool := t.all fun b => b != byte '"' && b != byte '\\'

theorem notMem_of_isPlain (h : isPlain t = true) : byte '"' ∉ t := fun hmem => by
  have hb := List.all_eq_true.mp h _ hmem
  simp at hb

theorem takesNext_of_isPlain (h : isPlain t = true) : takesNext false t = false := by
  induction t with
  | nil => rfl
  | cons b t ih =>
    rw [isPlain, List.all_cons, Bool.and_eq_true, Bool.and_eq_true] at h
    have hb : (b == byte '\\') = false := by simpa [bne] using h.1.2
    rw [takesNext_cons, hb, Bool.and_false]
    exact ih h.2

theorem isEscaped_of_isPlain (h : isPlain t = true) : IsEscaped t :=
  isEscaped_iff.mpr ⟨atQuotes_of_notMem (notMem_of_isPlain h), takesNext_of_isPlain h⟩

theorem isEscapable_of_isPlain (h : isPlain t = true) : IsEscapable t :=
  isEscapable_iff.mpr ⟨atQuotes_of_notMem (notMem_of_isPlain h), takesNext_of_isPlain h⟩

/-- What a label begins with does not matter if it has no quotes and completes its last escape. -/
theorem isEscapable_append_left (hquotes : byte '"' ∉ s) (hs : takesNext false s = false) :
    IsEscapable (s ++ t) ↔ IsEscapable t := by
  rw [isEscapable_iff, isEscapable_iff, atQuotes_append, and_iff_right (atQuotes_of_notMem hquotes)]
  simp only [takesNext_append, hs]

/-- What stands at the end of a name does not matter if a byte of the label is behind it. -/
theorem isEscapable_concat (hquote : b ≠ byte '"') (hslash : b ≠ byte '\\') :
    IsEscapable (t ++ [b]) ↔ AtQuotes (fun u => Even (backslashes u)) t := by
  have hlast : takesNext (takesNext false t) [b] = false := by
    show (!takesNext false t && b == byte '\\') = false
    rw [beq_eq_false_iff_ne.mpr hslash, Bool.and_false]
  rw [isEscapable_iff, atQuotes_append, takesNext_append, hlast, and_iff_left rfl,
    and_iff_left (atQuotes_of_notMem (by simpa using hquote.symm))]
  simp only [takesNext_eq_false_iff]

theorem isPlain_append : isPlain (s ++ t) = (isPlain s && isPlain t) := List.all_append

theorem isPlain_ofNat (n : Nat) : isPlain (Text.ofNat n) = true := by
  refine List.all_eq_true.mpr fun b hb => ?_
  have hdigit := List.all_eq_true.mp (Text.all_isDigitByte_ofNat n) b hb
  simpa using Text.not_mem_of_test (l := [byte '"', byte '\\']) (by decide) hdigit

theorem isPlain_ofInt (n : Int) : isPlain (Text.ofInt n) = true := by
  cases n with
  | ofNat n => exact isPlain_ofNat n
  | negSucc n =>
    rw [Text.ofInt, isPlain, List.all_cons]
    exact isPlain_ofNat (n + 1)

theorem isPlain_itemLabel (i : Nat) : isPlain (itemLabel i) = true := by
  rw [itemLabel, isPlain_append, isPlain_append, isPlain_ofNat]
  decide

theorem isPlain_binaryName (op : BinaryOp) : isPlain op.name = true := by
  cases op with
  | unknown n =>
    rw [BinaryOp.name, isPlain_append, isPlain_append, isPlain_ofInt]
    decide
  | _ => decide

theorem isPlain_unaryName (op : UnaryOp) : isPlain op.name = true := by
  cases op with
  | unknown n =>
    rw [UnaryOp.name, isPlain_append, isPlain_append, isPlain_ofInt]
    decide
  | _ => decide

end Graph

namespace Expr

/-- The bindings of a shape or a record. -/
def bindings : Expr → List Branch
  | new _ bs | init _ bs => bs
  | _ => []

/-- What the names in the label of an expression have to be for it to be read as one label. A string
and the parameters of a lambda have a byte of the label behind them, so that backslashes at their
end do no harm. -/
def Legible (pre : Prelude) : Expr → Prop
  | const (.string t) _ => Graph.AtQuotes (fun u => Even (Graph.backslashes u)) t
  | const v _ => Graph.IsEscapable (v.display pre)
  | param p => Graph.IsEscapable (p.name ++ " " ++ Graph.typeLabel p.type)
  | member _ name _ _ => Graph.IsEscapable name
  | unary op _ t => op = .convert → Graph.IsEscapable (Graph.typeLabel t)
  | call _ method _ _ _ => Graph.IsEscapable method
  | new t _ | init t _ => Graph.IsEscapable (Graph.typeLabel t)
  | lambda _ params =>
    Graph.AtQuotes (fun u => Even (Graph.backslashes u)) (Text.join ", " (params.map (·.name)))
  | _ => True

/-- A label of an operand is the name of a binding, or plain. -/
theorem mem_branches {e : Expr} {b : Branch} (h : b ∈ e.branches) :
    b ∈ e.bindings ∨ Graph.isPlain b.1 = true := by
  have hnumbered : ∀ lead : Text, Graph.isPlain lead = true → ∀ items,
      b ∈ numbered lead items → Graph.isPlain b.1 = true := by
    intro lead hlead items hb
    obtain ⟨x, -, rfl⟩ := List.mem_map.mp hb
    rw [Graph.isPlain_append, hlead, Graph.isPlain_itemLabel, Bool.and_true]
  cases e with
  | new _ bs | init _ bs => exact .inl h
  | call receiver _ args _ _ | invoke receiver args =>
    rcases List.mem_cons.mp h with rfl | h
    · exact .inr rfl
    · exact .inr (hnumbered _ (by decide) args h)
  | list _ items | array _ items => exact .inr (hnumbered _ (by decide) items h)
  | hole | const | param => cases h
  | member | binary | unary | lambda | cond =>
    simp only [branches, List.mem_cons, List.not_mem_nil, or_false] at h
    rcases h with rfl | rfl | rfl <;> exact .inr rfl

theorem bindings_subset (e : Expr) : ∀ b ∈ e.bindings, b ∈ e.branches := by
  cases e with
  | new | init => exact fun _ h => h
  | _ => nofun

end Expr

namespace Graph

open QueryTree.Expr

variable {pre : Prelude}

/-- **The label of an expression is read as one label exactly if its names are legible.** -/
theorem isEscapable_nodeOf_iff (e : Expr) : IsEscapable (nodeOf pre e).1 ↔ e.Legible pre := by
  have hplain : ∀ {t : Text}, isPlain t = true → (IsEscapable t ↔ True) := fun h =>
    iff_true_intro (isEscapable_of_isPlain h)
  cases e with
  | hole | list | array | invoke | cond => exact hplain rfl
  | const v type =>
    cases v with
    | string t =>
      have hlabel : (nodeOf pre (.const (.string t) type)).1 =
          ("Constant\\n'" : Text) ++ t ++ [39] := rfl
      rw [hlabel, List.append_assoc, isEscapable_append_left (by decide) (by decide),
        isEscapable_concat (by decide) (by decide)]
      rfl
    | _ => exact isEscapable_append_left (by decide) (by decide)
  | param p =>
    have hlabel : (nodeOf pre (.param p)).1 =
        "Parameter\\n" ++ p.name ++ " " ++ typeLabel p.type := rfl
    rw [hlabel, List.append_assoc, List.append_assoc,
      isEscapable_append_left (by decide) (by decide), ← List.append_assoc]
    rfl
  | member e name t o => exact isEscapable_append_left (by decide) (by decide)
  | call e method args t f => exact isEscapable_append_left (by decide) (by decide)
  | new t bs | init t bs => exact isEscapable_append_left (by decide) (by decide)
  | binary op l r => exact hplain (isPlain_binaryName op)
  | unary op e t =>
    by_cases hop : op = .convert
    · subst hop
      have hlabel : (nodeOf pre (.unary .convert e t)).1 = "Convert\\n" ++ typeLabel t := rfl
      rw [hlabel, isEscapable_append_left (by decide) (by decide)]
      exact ⟨fun h _ => h, fun h => h rfl⟩
    · have hlabel : (nodeOf pre (.unary op e t)).1 = op.name := if_neg hop
      rw [hlabel, hplain (isPlain_unaryName op), Legible]
      exact iff_of_true trivial fun h => absurd h hop
  | lambda body params =>
    have hlabel : (nodeOf pre (.lambda body params)).1 =
        ("Lambda\\n(" : Text) ++ Text.join ", " (params.map (·.name)) ++ [41] := rfl
    rw [hlabel, List.append_assoc, isEscapable_append_left (by decide) (by decide),
      isEscapable_concat (by decide) (by decide)]
    rfl

/-- **The labels of the edges of a branch are read as labels exactly if its own is, and the names of
the bindings are.** -/
theorem forall_isEscaped_iff (b : Branch) :
    (∀ place c, b.at? place = some c → IsEscaped c.1) ↔
      (b.2.isHole = false → IsEscaped b.1) ∧
        ∀ place c, b.at? place = some c → ∀ d ∈ c.2.bindings, d.2.isHole = false →
          IsEscaped d.1 := by
  constructor
  · refine fun h => ⟨fun hb => h [] b (Branch.at?_nil hb), fun place c hc d hd hhole => ?_⟩
    obtain ⟨i, hi⟩ := List.mem_iff_getElem?.mp (c.2.bindings_subset d hd)
    refine h (place ++ [i]) d ?_
    rw [Branch.at?_append, hc, Option.bind_some, Branch.at?, hi, Option.bind_some,
      Branch.at?_nil hhole]
  · rintro ⟨hb, hbindings⟩ place c hc
    rcases List.eq_nil_or_concat' place with rfl | ⟨above, i, rfl⟩
    · have hgiven := Branch.given_of_at? hc
      rw [Branch.at?_nil hgiven] at hc
      cases hc
      exact hb hgiven
    · rw [Branch.at?_append] at hc
      obtain ⟨d, hd, hc⟩ := Option.bind_eq_some_iff.mp hc
      obtain ⟨c', hc', hc⟩ := Option.bind_eq_some_iff.mp hc
      have hgiven := Branch.given_of_at? hc
      rw [Branch.at?_nil hgiven] at hc
      cases hc
      rcases mem_branches (List.mem_of_getElem? hc') with hmem | hplain
      · exact hbindings above d hd c hmem hgiven
      · exact isEscaped_of_isPlain hplain

/-! ### Runs -/

namespace Call

/-- The labels of the nodes that a call draws have one property, those of its edges another. -/
def Labels (pre : Prelude) (P Q : Text → Prop) : Call → Prop
  | root label => P label
  | add _ label e => ∀ place c, Branch.at? (label, e) place = some c →
      P (nodeOf pre c.2).1 ∧ Q c.1
  | cluster .. => True

/-- The labels and the names of a call are legible: those in nodes can be escaped, and those in
edges, the names of bindings among them, are escaped already. -/
def Legible (pre : Prelude) : Call → Prop
  | root label => IsEscapable label
  | add _ label e => (e.isHole = false → IsEscaped label) ∧
      ∀ place c, Branch.at? (label, e) place = some c →
        c.2.Legible pre ∧ ∀ d ∈ c.2.bindings, d.2.isHole = false → IsEscaped d.1
  | cluster .. => True

theorem labels_iff_legible (call : Call) :
    call.Labels pre IsEscapable IsEscaped ↔ call.Legible pre := by
  cases call with
  | root | cluster => exact Iff.rfl
  | add above label e =>
    have hedges := forall_isEscaped_iff (label, e)
    unfold Labels Legible
    simp only [forall_and, isEscapable_nodeOf_iff]
    rw [hedges]
    tauto

theorem Draws.labels_iff {g g' : Graph} {call : Call} (h : call.Draws pre g g')
    (P Q : Text → Prop) :
    ((∀ n ∈ g'.nodes, P n.label) ∧ ∀ e ∈ g'.edges, Q e.label) ↔
      ((∀ n ∈ g.nodes, P n.label) ∧ ∀ e ∈ g.edges, Q e.label) ∧ call.Labels pre P Q := by
  cases call with
  | root label =>
    rw [h.2.2.1, h.2.2.2, Labels]
    simp only [List.forall_mem_append, List.forall_mem_singleton]
    tauto
  | cluster => rw [h.2.1, h.2.2, Labels, and_true]
  | add above label e =>
    obtain ⟨-, ps, number, hangs⟩ := h
    have hparts : ((∀ x ∈ ps, P (nodeOf pre x.2.2).1) ∧ ∀ x ∈ ps, Q x.2.1) ↔
        (add above label e).Labels pre P Q := by
      unfold Labels
      simp only [← hangs.mem_iff, forall_and, Prod.forall]
    rw [hangs.nodes, hangs.edges, ← hparts]
    simp only [List.forall_mem_append, List.forall_mem_map, nodeFor, edgeTo]
    tauto

end Call

/-- The labels of a drawn graph are those of its calls. -/
theorem forall_labels_iff (pre : Prelude) (P Q : Text → Prop) (calls : List Call) :
    ((∀ n ∈ (drawn pre calls).nodes, P n.label) ∧ ∀ e ∈ (drawn pre calls).edges, Q e.label) ↔
      ∀ call ∈ calls, call.Labels pre P Q := by
  induction calls using List.reverseRecOn with
  | nil => exact iff_of_true ⟨nofun, nofun⟩ nofun
  | append_singleton calls call ih =>
    rw [drawn_concat, (call.draws_apply pre _).labels_iff P Q, ih]
    simp only [List.forall_mem_append, List.forall_mem_singleton]

/-- **All labels of a drawn graph are read as they were written exactly if all names that went into
it are legible.** The label of every node is in the text, and that of every edge that has one. -/
theorem labels_read_iff (pre : Prelude) (calls : List Call) :
    (∀ n ∈ (drawn pre calls).nodes, ∃ before after,
        (drawn pre calls).Writes before (escapeLabel n.label) after) ∧
      (∀ e ∈ (drawn pre calls).edges, e.label ≠ [] → ∃ before after,
        (drawn pre calls).Writes before e.label after) ∧
      (∀ before written after, (drawn pre calls).Writes before written after →
        (drawn pre calls).dot = before ++ byte '"' :: (written ++ byte '"' :: after)) ∧
      ((∀ before written after, (drawn pre calls).Writes before written after →
          readLabel? false (written ++ byte '"' :: after) = some (written, after)) ↔
        ∀ call ∈ calls, call.Legible pre) := by
  refine ⟨fun n hn => exists_writes_node hn, fun e he hne => exists_writes_edge he hne,
    fun _ _ _ hwrites => hwrites.dot_eq, ?_⟩
  simp only [readLabel?_iff, ← Call.labels_iff_legible, ← forall_labels_iff]
  constructor
  · refine fun h => ⟨fun n hn => ?_, fun e he => ?_⟩
    · obtain ⟨before, after, hwrites⟩ := exists_writes_node hn
      exact (isEscaped_escapeLabel_iff _).mp (h before _ after hwrites)
    · by_cases hne : e.label = []
      · rw [hne]
        exact isEscaped_of_isPlain rfl
      · obtain ⟨before, after, hwrites⟩ := exists_writes_edge he hne
        exact h before _ after hwrites
  · rintro ⟨hnodes, hedges⟩ before written after hwrites
    rcases written_cases hwrites with rfl | ⟨n, hn, rfl⟩ | ⟨e, he, rfl⟩
    · exact isEscaped_of_isPlain rfl
    · exact (isEscaped_escapeLabel_iff _).mpr (hnodes n hn)
    · exact hedges e he

/-- A quote in the name of a binding ends the label of the edge, and a quote behind a backslash in a
string ends the label of the node. -/
theorem exists_torn_labels : ∃ calls : List Call,
    (∃ before after, (drawn .empty calls).Writes before "a\"b" after ∧
      readLabel? false (("a\"b" : Text) ++ byte '"' :: after) ≠ some (("a\"b" : Text), after)) ∧
    ∃ before after, (drawn .empty calls).Writes before "Constant\\n'\\\\\"'" after ∧
      readLabel? false (("Constant\\n'\\\\\"'" : Text) ++ byte '"' :: after) ≠
        some (("Constant\\n'\\\\\"'" : Text), after) := by
  let calls : List Call :=
    [.root "SELECT", .add 0 "N0" (.new none [("a\"b", .const (.string "\\\"") none)])]
  have hodd : ∀ {u t : Text}, (∃ v, t = u ++ byte '"' :: v) → Even (backslashes u) →
      ¬ IsEscaped t := fun ⟨v, ht⟩ heven h => (Nat.not_odd_iff_even.mpr heven) (h.1 _ v ht)
  have hedge : (⟨1, 2, "a\"b"⟩ : Edge) ∈ (drawn .empty calls).edges := by decide
  have hnode : (⟨"Constant\\n'\\\"'", literalColor⟩ : Node) ∈ (drawn .empty calls).nodes := by
    decide
  obtain ⟨before, after, hwrites⟩ := exists_writes_edge hedge (by decide)
  obtain ⟨before', after', hwrites'⟩ := exists_writes_node hnode
  refine ⟨calls, ⟨before, after, hwrites, ?_⟩, before', after', hwrites', ?_⟩
  · rw [ne_eq, readLabel?_iff]
    exact hodd (u := "a") ⟨"b", by rfl⟩ (by decide)
  · rw [ne_eq, readLabel?_iff]
    exact hodd (u := "Constant\\n'\\\\") ⟨"'", by rfl⟩ (by decide)

end Graph

end QueryTree
