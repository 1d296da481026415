import Mathlib.Data.Bool.AllAny
import QueryTree.Proofs.Consulted
import QueryTree.Proofs.Integers
import QueryTree.Proofs.Numerals
import QueryTree.Proofs.RawNames
import QueryTree.Proofs.StatementMarks
import QueryTree.Sample.Conditions

/-!
# Paging

A page of rows is written in five ways. Here one reader takes the words behind a selection, whatever
the dialect, and says how many rows they leave out and how many they let through; so that the
dialects agree is that the reader finds the same pair in all of them.

What the pair should be is told by the calls that set the paging: the last limit and the last offset
count, negative ones are none, and a page of a size starts at the product of its index and the size.
The product is where the two part: an offset is a 64-bit word, so the tail says what the calls mean
exactly if the last offset that was set fits into one.

## Main definitions

* `PagingCall`: the calls that set the paging, and what each of them sets
* `Paging.bound`, `Paging.skip`: what a sequence of calls means
* `Paging.read?`: what the words of a tail mean

## Main results

* `Select.paged_eq`: what a sequence of calls leaves of a selection
* `Profile.read?_pagingTail`: every tail is read back
* `Select.read?_paged`: the tail of every statement, and when it means what the calls mean
-/

namespace QueryTree

/-! ### Calls -/

/-- A call that sets the paging of a selection. -/
inductive PagingCall where
  | limit (n : Int)
  | offset (n : Int)
  | page (size index : Int)
  deriving DecidableEq, Repr

namespace PagingCall

/-- The integers of the call are 64-bit words. -/
def Fits : PagingCall → Prop
  | limit n | offset n => IntKind.int.Holds n
  | page size index => IntKind.int.Holds size ∧ IntKind.int.Holds index

/-- The size of a page is not negative. -/
def IsSized : PagingCall → Prop
  | page size _ => 0 ≤ size
  | limit _ | offset _ => True

instance : (c : PagingCall) → Decidable c.Fits
  | limit n | offset n => inferInstanceAs (Decidable (IntKind.int.Holds n))
  | page size index =>
    inferInstanceAs (Decidable (IntKind.int.Holds size ∧ IntKind.int.Holds index))

instance : (c : PagingCall) → Decidable c.IsSized
  | page size _ => inferInstanceAs (Decidable (0 ≤ size))
  | limit _ | offset _ => inferInstanceAs (Decidable True)

/-- The selection after the call. -/
def apply (s : Select) : PagingCall → Select
  | limit n => { s with limit := n }
  | offset n => { s with offset := n }
  | page size index => s.page size index

/-- The limit that the call sets. -/
def limit? : PagingCall → Option Int
  | limit n | page n _ => some n
  | offset _ => none

/-- The offset that the call sets: page `index` starts behind as many pages of the size. -/
def offset? : PagingCall → Option Int
  | offset n => some n
  | page size index => some (size * max index 0)
  | limit _ => none

end PagingCall

namespace Paging

/-- The last value that a call sets, or the one from before. -/
def lastSet (f : PagingCall → Option Int) (start : Int) (calls : List PagingCall) : Int :=
  calls.foldl (fun n c => (f c).getD n) start

/-- The limit that is set last. -/
def lastLimit (calls : List PagingCall) : Int := lastSet PagingCall.limit? (-1) calls

/-- The offset that is set last. -/
def lastOffset (calls : List PagingCall) : Int := lastSet PagingCall.offset? 0 calls

/-- The number of rows that a limit lets through, if it bounds them. -/
def bound (limit : Int) : Option Int := if limit < 0 then none else some limit

/-- The number of rows that an offset leaves out. -/
def skip (offset : Int) : Int := max offset 0

end Paging

namespace Select

/-- The selection without a limit and an offset. -/
def unpaged (s : Select) : Select := { s with limit := -1, offset := 0 }

/-- The selection with this limit and offset. -/
def withPaging (s : Select) (limit offset : Int) : Select :=
  { s with limit := limit, offset := offset }

/-- The selection after calls that set its paging. -/
def paged (s : Select) (calls : List PagingCall) : Select := calls.foldl PagingCall.apply s.unpaged

theorem wrap_of_holds {n : Int} (h : IntKind.int.Holds n) : IntKind.int.wrap n = n := by
  simp only [IntKind.Holds, IntKind.wrap, IntKind.signed, IntKind.width, if_true, Nat.pow_eq,
    Nat.reducePow, Int.bmod] at h ⊢
  omega

/-- The call sets what it says, up to the width of a word. -/
theorem apply_withPaging {c : PagingCall} (hc : c.Fits) (s : Select) (l o : Int) :
    c.apply (s.withPaging l (IntKind.int.wrap o)) =
      s.withPaging (c.limit?.getD l) (IntKind.int.wrap (c.offset?.getD o)) := by
  cases c with
  | limit n => rfl
  | offset n =>
    have hn : IntKind.int.wrap n = n := wrap_of_holds hc
    simp only [PagingCall.apply, PagingCall.offset?, PagingCall.limit?, Option.getD_some, hn]
    rfl
  | page size index => rfl

/-- **The last limit and the last offset are left**, the offset as a word. -/
theorem paged_eq {calls : List PagingCall} (h : ∀ c ∈ calls, c.Fits) (s : Select) :
    s.paged calls =
      s.withPaging (Paging.lastLimit calls) (IntKind.int.wrap (Paging.lastOffset calls)) := by
  have fold : ∀ (calls : List PagingCall) (l o : Int), (∀ c ∈ calls, c.Fits) →
      calls.foldl PagingCall.apply (s.withPaging l (IntKind.int.wrap o)) =
        s.withPaging (Paging.lastSet PagingCall.limit? l calls)
          (IntKind.int.wrap (Paging.lastSet PagingCall.offset? o calls)) := by
    intro calls
    induction calls with
    | nil => exact fun _ _ _ => rfl
    | cons c calls ih =>
      intro l o h
      rw [List.foldl_cons, apply_withPaging (h c List.mem_cons_self),
        ih _ _ fun x hx => h x (List.mem_cons_of_mem c hx)]
      rfl
  exact fold calls (-1) 0 h

/-! ### Tails -/

/-- What is written behind a selection for its paging. -/
def pagingTail (s : Select) (p : Profile) : Text :=
  if s.limit ≥ 0 || s.offset > 0 then
    (if p.pagingNeedsOrder && s.orders.isEmpty then (" ORDER BY (SELECT NULL)" : Text) else []) ++
      " " ++ p.page s.limit s.offset
  else []

theorem writePage_eq (s : Select) (d : Draft) :
    s.writePage d = d.write (s.pagingTail d.settings.profile) := by
  unfold writePage pagingTail
  split
  · dsimp only
    split
    · rw [Draft.write_write, List.append_assoc]
    · rw [List.nil_append]
  · simp [Draft.write]

/-- The rest of a selection is written without regard to its paging. -/
theorem write_withPaging (s : Select) (l o : Int) (d : Draft) :
    (s.withPaging l o).write d =
      s.unpaged.write d >>= fun d => .ok ((s.withPaging l o).writePage d) := by
  have horders : ∀ d : Draft, (do
      let d ← if s.orders.isEmpty then .ok d else writeOrders (d.write " ORDER BY ") true s.orders
      return (s.withPaging l o).writePage d : Attempt StatementError Draft) = ((do
      let d ← if s.orders.isEmpty then .ok d else writeOrders (d.write " ORDER BY ") true s.orders
      return s.unpaged.writePage d) >>= fun d => .ok ((s.withPaging l o).writePage d)) := by
    intro d
    split <;> simp only [bind_assoc] <;> rfl
  have hsource : (s.withPaging l o).source = s.unpaged.source := rfl
  have hgroups : (s.withPaging l o).groups = s.unpaged.groups := rfl
  unfold write
  rw [hsource]
  by_cases hnone : s.unpaged.source.isNone = true
  · rw [if_pos hnone, if_pos hnone]
    rfl
  · rw [if_neg hnone, if_neg hnone]
    simp only [bind_assoc]
    refine bind_congr fun x => bind_congr fun y => bind_congr fun d => bind_congr fun d =>
      bind_congr fun d => ?_
    rw [hgroups]
    by_cases hg : s.unpaged.groups.isEmpty = true
    · rw [if_pos hg, if_pos hg]
      simp only [bind_assoc]
      exact bind_congr fun d => bind_congr fun d => horders d
    · rw [if_neg hg, if_neg hg]
      simp only [bind_assoc]
      exact bind_congr fun d => bind_congr fun d => horders d

end Select

/-! ### Reading tails -/

namespace Paging

/-- The words of an order that is none. -/
def unordered : List Text := ["ORDER", "BY", "(SELECT", "NULL)"]

/-- The number of rows that the word behind `LIMIT` lets through, if it bounds them. -/
def bound? (w : Text) : Option (Option Int) :=
  if w = "ALL" ∨ w = "-1" ∨ w = "18446744073709551615" then some none
  else (Text.toNat? w).map fun n : Nat => some (n : Int)

/-- How many rows the words of a tail let through, if they bound them, and how many they leave
out. -/
def readWords? : List Text → Option (Option Int × Int)
  | [] => some (none, 0)
  | [l, n] => if l = "LIMIT" then (bound? n).map fun b => (b, 0) else none
  | [o, m, r] =>
    if o = "OFFSET" ∧ r = "ROWS" then (Text.toNat? m).map fun m : Nat => (none, (m : Int))
    else none
  | [l, n, o, m] =>
    if l = "LIMIT" ∧ o = "OFFSET" then
      (bound? n).bind fun b => (Text.toNat? m).map fun m : Nat => (b, (m : Int))
    else none
  | [o, m, r, f, x, n, r', y] =>
    if o = "OFFSET" ∧ r = "ROWS" ∧ f = "FETCH" ∧ x = "NEXT" ∧ r' = "ROWS" ∧ y = "ONLY" then
      (Text.toNat? n).bind fun n : Nat =>
        (Text.toNat? m).map fun m : Nat => (some (n : Int), (m : Int))
    else none
  | _ => none

/-- How many rows a tail lets through and leaves out. An order in front of it that is none says
nothing. -/
def read? (t : Text) : Option (Option Int × Int) :=
  let ws := Raw.words t
  readWords? (if unordered <+: ws then ws.drop unordered.length else ws)

theorem words_join {ws : List Text} (h : ∀ w ∈ ws, w ≠ [] ∧ ∀ b ∈ w, Raw.isBlankByte b = false) :
    Raw.words (Text.join " " ws) = ws := by
  induction ws with
  | nil => rfl
  | cons w ws ih =>
    obtain ⟨hne, hsolid⟩ := h w List.mem_cons_self
    have hw := Raw.words_of_noBlank hne hsolid
    have hws := ih fun x hx => h x (List.mem_cons_of_mem w hx)
    cases ws with
    | nil => simpa [Text.join] using hw
    | cons x xs =>
      rw [Text.join_cons_cons, List.append_assoc]
      have hsplit := Raw.words_append_blank (b := 32) (by decide) w (Text.join " " (x :: xs))
      rw [hw, hws] at hsplit
      exact hsplit

/-- A numeral is a word. -/
theorem noBlank_ofNat (n : Nat) :
    Text.ofNat n ≠ [] ∧ ∀ b ∈ Text.ofNat n, Raw.isBlankByte b = false := by
  refine ⟨Text.ofNat_ne_nil n, fun b hb => ?_⟩
  exact Raw.isBlankByte_of_test (by decide)
    (List.all_eq_true.mp (Text.all_isDigitByte_ofNat n) b hb)

/-- A numeral that is no maximal one bounds the rows. -/
theorem bound?_ofNat {n : Nat} (hn : n < 2 ^ 63) :
    bound? (Text.ofNat n) = some (some (n : Int)) := by
  have hdigits := List.all_eq_true.mp (Text.all_isDigitByte_ofNat n)
  have hall : Text.ofNat n ≠ "ALL" := by
    intro h
    rw [h] at hdigits
    exact absurd (hdigits (byte 'A') (by decide)) (by decide)
  have hminus : Text.ofNat n ≠ "-1" := by
    intro h
    rw [h] at hdigits
    exact absurd (hdigits (byte '-') (by decide)) (by decide)
  have hmax : Text.ofNat n ≠ "18446744073709551615" := by
    intro h
    have hn' : n = 18446744073709551615 := Text.ofNat_injective (h.trans (by decide))
    omega
  rw [bound?, if_neg (by simp only [hall, hminus, hmax, or_self, not_false_iff]), Text.toNat?_ofNat]
  rfl

/-- The word for no limit where an offset needs one. -/
def unlimited (p : Profile) : Text :=
  match p.dialect with
  | .mySql => "18446744073709551615"
  | .sqlite => "-1"
  | _ => "ALL"

/-- The words of a page. -/
def pageWords (p : Profile) (limit offset : Int) : List Text :=
  match p.paging with
  | .fetch =>
    let fetch : List Text := ["FETCH", "NEXT", Text.ofInt limit, "ROWS", "ONLY"]
    ("OFFSET" : Text) :: Text.ofInt (max offset 0) :: ("ROWS" : Text) ::
      if limit ≥ 0 then fetch else []
  | .limit =>
    let bound : List Text := if limit ≥ 0 then ["LIMIT", Text.ofInt limit]
      else if offset > 0 then ["LIMIT", unlimited p] else []
    if offset > 0 then bound ++ ([("OFFSET" : Text), Text.ofInt offset] : List Text) else bound

theorem page_eq_join (p : Profile) (limit offset : Int) :
    p.page limit offset = Text.join " " (pageWords p limit offset) := by
  have hnone : p.noLimit = "LIMIT" ++ " " ++ unlimited p := by
    unfold Profile.noLimit unlimited
    cases p.dialect <;> rfl
  have hone : ∀ t : Text, Text.join " " [t] = t := fun t => by simp [Text.join]
  unfold Profile.page pageWords
  cases p.paging with
  | fetch =>
    dsimp only
    split
    · simp only [Text.join_cons_cons, hone, List.append_assoc]
      rfl
    · simp only [Text.join_cons_cons, hone, List.append_assoc]
      rfl
  | limit =>
    dsimp only
    by_cases hl : limit ≥ 0 <;> by_cases ho : offset > 0 <;>
      simp only [hl, ho, if_true, if_false, List.cons_append, List.nil_append,
        Text.join_cons_cons, hone, hnone, List.append_assoc] <;> rfl

/-- The words of a page hold no blanks. -/
theorem noBlank_pageWords (p : Profile) (limit offset : Int) :
    ∀ w ∈ pageWords p limit offset, w ≠ [] ∧ ∀ b ∈ w, Raw.isBlankByte b = false := by
  have hnumber : ∀ n : Int, 0 ≤ n →
      Text.ofInt n ≠ [] ∧ ∀ b ∈ Text.ofInt n, Raw.isBlankByte b = false := by
    intro n hn
    obtain ⟨m, rfl⟩ := Int.eq_ofNat_of_zero_le hn
    exact noBlank_ofNat m
  have hunlimited : unlimited p ≠ [] ∧ ∀ b ∈ unlimited p, Raw.isBlankByte b = false := by
    unfold unlimited
    cases p.dialect <;> exact ⟨by decide, List.all_iff_forall_prop.mp (by decide)⟩
  have hkeyword : ∀ w ∈ (["LIMIT", "OFFSET", "ROWS", "FETCH", "NEXT", "ONLY"] : List Text),
      w ≠ [] ∧ ∀ b ∈ w, Raw.isBlankByte b = false := by
    simp only [← List.all_iff_forall_prop]
    decide
  simp only [List.forall_mem_cons] at hkeyword
  obtain ⟨hlimit, hoffset, hrows, hfetch, hnext, honly, -⟩ := hkeyword
  have hnil : ∀ w ∈ ([] : List Text), w ≠ [] ∧ ∀ b ∈ w, Raw.isBlankByte b = false := nofun
  unfold pageWords
  cases p.paging with
  | fetch =>
    have hskip := hnumber (max offset 0) (le_max_right offset 0)
    dsimp only
    split
    · rename_i hl
      simp only [List.forall_mem_cons]
      exact ⟨hoffset, hskip, hrows, hfetch, hnext, hnumber limit hl, hrows, honly, hnil⟩
    · simp only [List.forall_mem_cons]
      exact ⟨hoffset, hskip, hrows, hnil⟩
  | limit =>
    by_cases hl : limit ≥ 0 <;> by_cases ho : offset > 0 <;>
      simp only [hl, ho, if_true, if_false, List.cons_append, List.nil_append, List.forall_mem_cons]
    · exact ⟨hlimit, hnumber limit hl, hoffset, hnumber offset ho.le, hnil⟩
    · exact ⟨hlimit, hnumber limit hl, hnil⟩
    · exact ⟨hlimit, hunlimited, hoffset, hnumber offset ho.le, hnil⟩
    · exact hnil

/-- The words of a page are read back. -/
theorem readWords?_pageWords (p : Profile) {limit : Int} (h : limit < 2 ^ 63) (offset : Int) :
    readWords? (pageWords p limit offset) = some (bound limit, skip offset) := by
  have hskip : ∀ {o : Int}, 0 ≤ o → ∃ m : Nat, o = m ∧ Text.toNat? (Text.ofInt o) = some m := by
    intro o ho
    obtain ⟨m, rfl⟩ := Int.eq_ofNat_of_zero_le ho
    exact ⟨m, rfl, Text.toNat?_ofNat m⟩
  have hlimit : 0 ≤ limit → bound? (Text.ofInt limit) = some (some limit) := by
    intro hl
    obtain ⟨n, rfl⟩ := Int.eq_ofNat_of_zero_le hl
    exact bound?_ofNat (by omega)
  have hunlimited : bound? (unlimited p) = some none := by
    unfold unlimited
    cases p.dialect <;> decide
  unfold pageWords
  cases p.paging with
  | fetch =>
    obtain ⟨m, hm, hread⟩ := hskip (le_max_right offset 0)
    dsimp only
    split
    · rename_i hl
      obtain ⟨n, hn, hfetch⟩ := hskip hl
      rw [readWords?, if_pos (by decide), hfetch, hread, bound, if_neg (not_lt.mpr hl), skip, hm,
        hn]
      rfl
    · rename_i hl
      rw [readWords?, if_pos (by decide), hread, bound, if_pos (not_le.mp hl), skip, hm]
      rfl
  | limit =>
    by_cases hl : limit ≥ 0 <;> by_cases ho : offset > 0 <;>
      simp only [hl, ho, if_true, if_false, List.cons_append, List.nil_append]
    · obtain ⟨m, hm, hread⟩ := hskip ho.le
      rw [readWords?, if_pos (by decide), hlimit hl, hread, bound, if_neg (not_lt.mpr hl), skip,
        max_eq_left ho.le, hm]
      rfl
    · rw [readWords?, if_pos rfl, hlimit hl, bound, if_neg (not_lt.mpr hl), skip,
        max_eq_right (not_lt.mp ho)]
      rfl
    · obtain ⟨m, hm, hread⟩ := hskip ho.le
      rw [readWords?, if_pos (by decide), hunlimited, hread, bound, if_pos (not_le.mp hl), skip,
        max_eq_left ho.le, hm]
      rfl
    · rw [readWords?, bound, if_pos (not_le.mp hl), skip, max_eq_right (not_lt.mp ho)]

/-- A page does not begin like an order. -/
theorem not_prefix_pageWords (p : Profile) (limit offset : Int) :
    ¬ unordered <+: pageWords p limit offset := by
  have hkeyword : ("ORDER" : Text) ≠ "OFFSET" ∧ ("ORDER" : Text) ≠ "LIMIT" := by decide
  unfold pageWords unordered
  cases p.paging with
  | fetch => simp [hkeyword.1]
  | limit =>
    by_cases hl : limit ≥ 0 <;> by_cases ho : offset > 0 <;> simp [hl, ho, hkeyword.2]

/-- **Every tail is read back**, whatever the dialect. -/
theorem read?_pagingTail (s : Select) (p : Profile) (h : s.limit < 2 ^ 63) :
    read? (s.pagingTail p) = some (bound s.limit, skip s.offset) := by
  unfold Select.pagingTail
  split
  · have hpage : Raw.words (p.page s.limit s.offset) = pageWords p s.limit s.offset := by
      rw [page_eq_join, words_join (noBlank_pageWords p s.limit s.offset)]
    have hwords : ∀ t : Text, Raw.words (t ++ " " ++ p.page s.limit s.offset) =
        Raw.words t ++ pageWords p s.limit s.offset := by
      intro t
      rw [List.append_assoc, ← hpage]
      exact Raw.words_append_blank (b := 32) (by decide) t _
    have hread := readWords?_pageWords p h s.offset
    unfold read?
    rw [hwords]
    dsimp only
    split
    · have horder : Raw.words (" ORDER BY (SELECT NULL)" : Text) = unordered := by decide
      rw [horder, if_pos (List.prefix_append _ _), List.drop_left, hread]
    · have hnil : Raw.words [] = [] := rfl
      rw [hnil, List.nil_append, if_neg (not_prefix_pageWords p s.limit s.offset), hread]
  · rename_i hcond
    simp only [Bool.or_eq_true, decide_eq_true_eq, not_or, not_le, not_lt, ge_iff_le, gt_iff_lt]
      at hcond
    rw [bound, if_pos hcond.1, skip, max_eq_right hcond.2]
    rfl

/-! ### What the calls mean -/

/-- What calls set has the property that all of their values have. -/
theorem lastSet_induction {f : PagingCall → Option Int} {P : Int → Prop} {start : Int}
    {calls : List PagingCall} (hstart : P start) (h : ∀ c ∈ calls, ∀ n ∈ f c, P n) :
    P (lastSet f start calls) := by
  induction calls generalizing start with
  | nil => exact hstart
  | cons c calls ih =>
    refine ih ?_ fun x hx => h x (List.mem_cons_of_mem c hx)
    dsimp only
    cases hc : f c with
    | none => exact hstart
    | some n => exact h c List.mem_cons_self n hc

theorem lastLimit_lt {calls : List PagingCall} (h : ∀ c ∈ calls, c.Fits) :
    lastLimit calls < 2 ^ 63 := by
  refine lastSet_induction (P := fun n => n < 2 ^ 63) (by decide) fun c hc n hn => ?_
  have hfits := h c hc
  cases c with
  | limit m =>
    cases hn
    exact hfits.2
  | offset m => cases hn
  | page size index =>
    cases hn
    exact hfits.1.2

theorem le_lastOffset {calls : List PagingCall} (h : ∀ c ∈ calls, c.Fits)
    (hsized : ∀ c ∈ calls, c.IsSized) : -2 ^ 63 ≤ lastOffset calls := by
  refine lastSet_induction (P := fun n => -2 ^ 63 ≤ n) (by decide) fun c hc n hn => ?_
  have hfits := h c hc
  have hsize := hsized c hc
  cases c with
  | limit m => cases hn
  | offset m =>
    cases hn
    exact hfits.1
  | page size index =>
    cases hn
    have : 0 ≤ size * max index 0 := mul_nonneg hsize (le_max_right index 0)
    omega

/-- An offset is kept by a word exactly if it fits. -/
theorem skip_wrap_iff {n : Int} (h : -2 ^ 63 ≤ n) :
    skip (IntKind.int.wrap n) = skip n ↔ n < 2 ^ 63 := by
  constructor
  · intro heq
    by_contra hn
    have hwrap := (IntKind.holds_wrap .int n).2
    simp only [IntKind.width] at hwrap
    unfold skip at heq
    omega
  · intro hn
    rw [Select.wrap_of_holds ⟨h, hn⟩]

end Paging

namespace Select

/-! ### Statements -/

theorem select_withPaging (t : Transform) (s : Select) (l o : Int) :
    Transform.select (s.withPaging l o) t =
      Transform.select s t >>= fun s => .ok (s.withPaging l o) := by
  cases t with
  | identity | refuse | softDelete => rfl
  | policy p =>
    have hrows : (s.withPaging l o).rows = s.rows := rfl
    simp only [Transform.select, hrows]
    cases p.conditions s.rows <;> rfl

/-- Transforms neither look at the paging nor change it. -/
theorem transformAll_withPaging (ts : List Transform) (s : Select) (l o : Int) :
    transformAll Transform.select ts (s.withPaging l o) =
      transformAll Transform.select ts s >>= fun s => .ok (s.withPaging l o) := by
  induction ts generalizing s with
  | nil => rfl
  | cons t ts ih =>
    cases hs : Transform.select s t with
    | error e =>
      rw [transformAll_cons_error hs, transformAll_cons_error (by rw [select_withPaging, hs]; rfl)]
      rfl
    | ok s' =>
      rw [transformAll_cons_ok hs, transformAll_cons_ok (by rw [select_withPaging, hs]; rfl), ih]

/-- Transforms change the conditions only. -/
theorem exists_of_transformAll {s s' : Select} {ts : List Transform}
    (h : transformAll Transform.select ts s = .ok s') :
    ∃ conds, s' = { s with wheres := conds } := by
  refine transformAll_induction (P := fun x => ∃ conds, x = { s with wheres := conds })
    ⟨s.wheres, rfl⟩ ?_ h
  rintro t _ _ s' ⟨conds, rfl⟩ hst
  cases t with
  | identity => exact ⟨conds, (Except.ok.inj hst).symm⟩
  | softDelete => exact ⟨_, (Except.ok.inj hst).symm⟩
  | refuse => cases hst
  | policy p =>
    obtain ⟨added, -, hst⟩ := bind_eq_ok.mp hst
    exact ⟨_, (Except.ok.inj hst).symm⟩

theorem pagingTail_congr {s s' : Select} (h : s.orders = s'.orders) (l o : Int) (p : Profile) :
    (s.withPaging l o).pagingTail p = (s'.withPaging l o).pagingTail p := by
  have horders : (s.withPaging l o).orders = (s'.withPaging l o).orders := h
  unfold pagingTail
  rw [horders]
  rfl

/-- What is written of a transformed selection, and behind it the tail. An aggregate replaces the
projection before. -/
theorem write_transformed (project : Select → Select)
    (hproject : ∀ s l o, project (s.withPaging l o) = (project s).withPaging l o)
    (horders : ∀ s, (project s).orders = s.orders) (s : Select) (l o : Int) (ts : List Transform)
    (d : Draft) :
    (transformAll Transform.select ts (s.withPaging l o) >>= fun s => (project s).write d) =
      ((transformAll Transform.select ts s.unpaged >>= fun s => (project s).write d) >>=
        fun d => .ok (d.write ((s.withPaging l o).pagingTail d.settings.profile))) := by
  have hunpaged : ∀ s : Select, s.unpaged = s.withPaging (-1) 0 := fun _ => rfl
  rw [hunpaged, transformAll_withPaging, transformAll_withPaging]
  cases hs : transformAll Transform.select ts s with
  | error e => rfl
  | ok s' =>
    change (project (s'.withPaging l o)).write d = (project (s'.withPaging (-1) 0)).write d >>= _
    rw [hproject, hproject, write_withPaging]
    obtain ⟨conds, rfl⟩ := exists_of_transformAll hs
    refine bind_congr fun d => ?_
    rw [writePage_eq, pagingTail_congr (horders _)]
    rfl

/-- **The paging of a statement is read from its tail**, whatever the dialect: the last limit, and
the last offset as a word. That is what the calls mean exactly if the last offset fits into a word,
which is asked of the pages only. -/
theorem read?_paged (s : Select) {calls : List PagingCall} (h : ∀ c ∈ calls, c.Fits)
    (ts : List Transform) (st : Settings) :
    (s.paged calls).compile ts st = (s.unpaged.compile ts st >>=
      fun d => .ok (d.write ((s.paged calls).pagingTail d.settings.profile))) ∧
    (∀ fn target, (s.paged calls).compileAggregate fn target ts st =
      (s.unpaged.compileAggregate fn target ts st >>=
        fun d => .ok (d.write ((s.paged calls).pagingTail d.settings.profile)))) ∧
    ∀ p : Profile, Paging.read? ((s.paged calls).pagingTail p) =
        some (Paging.bound (Paging.lastLimit calls),
          Paging.skip (IntKind.int.wrap (Paging.lastOffset calls))) ∧
      ((∀ c ∈ calls, c.IsSized) → (Paging.read? ((s.paged calls).pagingTail p) =
          some (Paging.bound (Paging.lastLimit calls), Paging.skip (Paging.lastOffset calls)) ↔
        Paging.lastOffset calls < 2 ^ 63)) := by
  rw [paged_eq h]
  refine ⟨?_, fun fn target => ?_, fun p => ?_⟩
  · exact write_transformed id (fun _ _ _ => rfl) (fun _ => rfl) s _ _ ts (.new st)
  · unfold compileAggregate
    split
    · rfl
    · exact write_transformed (fun s => { s with projection := aggregateCall fn target })
        (fun _ _ _ => rfl) (fun _ => rfl) s _ _ ts (.new st)
  · have hread := Paging.read?_pagingTail
      (s.withPaging (Paging.lastLimit calls) (IntKind.int.wrap (Paging.lastOffset calls))) p
      (Paging.lastLimit_lt h)
    refine ⟨hread, fun hsized => ?_⟩
    rw [hread, Option.some.injEq, Prod.mk.injEq]
    exact (and_iff_right rfl).trans (Paging.skip_wrap_iff (Paging.le_lastOffset h hsized))

/-- The third page of ten customers. -/
theorem read?_paged_customers : Paging.read?
    (((Sample.customersWith []).paged [.limit 5, .page 10 2]).pagingTail Dialect.oracle.profile) =
      some (some 10, 20) :=
  have hfits : ∀ c ∈ [PagingCall.limit 5, .page 10 2], c.Fits := by decide
  have hsized : ∀ c ∈ [PagingCall.limit 5, .page 10 2], c.IsSized := by decide
  (((read?_paged (Sample.customersWith []) hfits [] (.standard .oracle Sample.world)).2.2
    Dialect.oracle.profile).2 hsized).mpr (by decide)

/-- A page so far behind that its offset is no word is written without an offset. -/
theorem exists_page_without_offset : ∃ calls : List PagingCall,
    (∀ c ∈ calls, c.Fits) ∧ (∀ c ∈ calls, c.IsSized) ∧
    Paging.skip (Paging.lastOffset calls) = 9223372037000250000 ∧
    (((Sample.customersWith []).paged calls).compile [] (.standard .postgres Sample.world)).map
      (·.text) = .ok "SELECT * FROM customers AS c LIMIT 3037000500" :=
  ⟨[.page 3037000500 3037000500], by decide, by decide, by decide, by rfl⟩

end Select

end QueryTree
