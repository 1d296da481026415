import Mathlib.Algebra.Ring.Nat
import QueryTree.Proofs.Consulted
import QueryTree.Proofs.Dialects
import QueryTree.Proofs.Folding
import QueryTree.Proofs.ItemNames
import QueryTree.Proofs.Numerals

/-!
# Interpolated statements

A text is cut at its marks into segments, one more than there are marks. A quoted segment of the
text is never cut. Interpolation keeps the segments and writes a literal in the place of each mark.

A statement marks its bound values once and in order, so the literals are those of the bound values,
in order. No mark is left: a literal is a word or a number, or it is quoted, and whatever quotes it
stands next to, nothing in it is read as a mark.

The literal of a value may be missing. A nil pointer to a time, or to a type that chooses its own
text, has no value to ask for a text, and then interpolation stops.

## Main definitions

* `Sql.CutAtMarks`: a text is cut at its marks
* `Sql.interleave`: segments with texts between them
* `Draft.Interpolates`: what interpolation makes of a draft

## Main results

* `Sql.CutAtMarks.interpolate_eq`: interpolation of a text whose marks are in order
* `Sql.CutAtMarks.signs_interleave`: literals leave no mark
* `interpolation_inverts_binding`: every clause and every statement
* `exists_interpolation_stops`: a nil time
-/

namespace QueryTree

namespace Sql

variable {p : Profile} {d : Dialect} {t s m q rest : Text} {ss ms ls : List Text}

/-! ### Cutting a text at its marks -/

/-- The text is cut into segments at its marks. Quoted segments are kept whole. -/
inductive CutAtMarks (p : Profile) : Text → List Text → List Text → Prop
  | nil : CutAtMarks p [] [[]] []
  | quoted {q t s : Text} {ss ms : List Text} (hne : q ≠ [])
    (hq : quotedLength (q ++ t) = q.length) (h : CutAtMarks p t (s :: ss) ms) :
    CutAtMarks p (q ++ t) ((q ++ s) :: ss) ms
  | byte {b : UInt8} {t s : Text} {ss ms : List Text} (hb : closer? b = none)
    (hm : markAt? p (b :: t) = none) (h : CutAtMarks p t (s :: ss) ms) :
    CutAtMarks p (b :: t) ((b :: s) :: ss) ms
  | mark {m t : Text} {ss ms : List Text} (hm : markAt? p (m ++ t) = some m)
    (h : CutAtMarks p t ss ms) : CutAtMarks p (m ++ t) ([] :: ss) (m :: ms)

/-- Segments with texts between them. -/
def interleave : List Text → List Text → Text
  | [], _ => []
  | s :: _, [] => s
  | s :: ss, x :: xs => s ++ x ++ interleave ss xs

attribute [local simp] interleave

theorem interleave_append (a s : Text) (ss ls : List Text) :
    interleave ((a ++ s) :: ss) ls = a ++ interleave (s :: ss) ls := by
  cases ls <;> simp [List.append_assoc]

/-- A mark stands at the start of the text, and only its first byte begins anything. -/
theorem markAt?_eq_some (h : markAt? d.profile t = some m) : ∃ c u rest, m = c :: u ∧
    t = m ++ rest ∧ isInert c = false ∧ closer? c = none ∧ Inert u := by
  rcases marker_cases d with hm | ⟨lead, c, u, hm, hlead, hsign, hc, hu, -⟩
  · simp only [markAt?, hm] at h
    split at h
    · rename_i hhead
      cases h
      obtain ⟨rest, rfl⟩ := List.head?_eq_some_iff.mp hhead
      exact ⟨byte '?', [], rest, by decide, rfl, by decide, by decide, fun _ h => absurd h
        List.not_mem_nil⟩
    · cases h
  · simp only [markAt?, hm, hlead] at h
    split at h
    · rename_i hpre
      cases h
      obtain ⟨rest, rfl⟩ := List.isPrefixOf_iff_prefix.mp (Bool.and_eq_true_iff.mp hpre).1
      rw [List.drop_left]
      refine ⟨c, u ++ rest.takeWhile Text.isDigitByte, rest.dropWhile Text.isDigitByte, rfl, ?_,
        hsign, hc, inert_append.mpr ⟨hu, inert_of_digits List.all_takeWhile⟩⟩
      rw [List.append_assoc, List.takeWhile_append_dropWhile]
    · cases h

theorem marks_of_signs (h : signs d.profile t = signs d.profile s) :
    marks d.profile t = marks d.profile s := by
  rw [marks_eq_filterMap, marks_eq_filterMap, h]

/-- Every text is cut at its marks. -/
theorem exists_cut (d : Dialect) (t : Text) :
    ∃ s ss, CutAtMarks d.profile t (s :: ss) (marks d.profile t) := by
  induction hn : t.length using Nat.strong_induction_on generalizing t with
  | _ n ih =>
  subst hn
  cases t with
  | nil => exact ⟨[], [], .nil⟩
  | cons b t =>
    cases hq : quotedLength (b :: t) with
    | succ k =>
      have hlen := quotedLength_le (b :: t)
      have htake : ((b :: t).take (k + 1)).length = k + 1 := by
        rw [List.length_take]
        omega
      obtain ⟨s, ss, h⟩ := ih ((b :: t).drop (k + 1)).length
        (by rw [List.length_drop, List.length_cons]; omega) _ rfl
      have hcut : CutAtMarks d.profile ((b :: t).take (k + 1) ++ (b :: t).drop (k + 1)) _ _ :=
        .quoted (by simp) (by rw [List.take_append_drop, hq, htake]) h
      rw [List.take_append_drop, ← marks_of_signs (signs_of_quoted hq)] at hcut
      exact ⟨_, _, hcut⟩
    | zero =>
      have hb : closer? b = none := by
        simp only [quotedLength] at hq
        split at hq
        · cases hq
        · assumption
      cases hm : markAt? d.profile (b :: t) with
      | none =>
        obtain ⟨s, ss, h⟩ := ih t.length (by simp) t rfl
        have hmarks : marks d.profile (b :: t) = marks d.profile t := by
          rw [marks_eq_filterMap, marks_eq_filterMap, signs_cons hb, hm, List.filterMap_append]
          split <;> rfl
        rw [hmarks]
        exact ⟨_, _, .byte hb hm h⟩
      | some m =>
        obtain ⟨c, u, rest, rfl, ht, hsign, hc, hu⟩ := markAt?_eq_some hm
        rw [ht] at hm ⊢
        obtain ⟨s, ss, h⟩ := ih rest.length
          (by rw [ht, List.length_append, List.length_cons]; omega) rest rfl
        have hmarks : marks d.profile (c :: u ++ rest) = (c :: u) :: marks d.profile rest := by
          rw [marks_eq_filterMap, marks_eq_filterMap, List.cons_append, signs_cons hc,
            if_neg (by simp [hsign]), signs_inert hu, ← List.cons_append, hm]
          rfl
        rw [hmarks]
        exact ⟨_, _, .mark hm h⟩

/-! ### Interpolating -/

section Interpolate

variable {pre : Prelude} {params : List Value} {n next : Nat}

theorem interpolateFrom_eq (pre : Prelude) (p : Profile) (params : List Value) (k next : Nat)
    (t : Text) :
    interpolateFrom pre p params k next t = interpolateFrom pre p params 0 next (t.drop k) := by
  induction t generalizing k with
  | nil => cases k <;> rfl
  | cons b t ih =>
    cases k with
    | zero => rfl
    | succ k => simpa [interpolateFrom] using ih k

theorem placeholderAt?_eq_none (h : markAt? d.profile t = none) :
    placeholderAt? d.profile t = none := by
  rcases marker_cases d with hm | ⟨lead, c, u, hm, hlead, -⟩
  · simp only [markAt?, hm, ite_eq_right_iff, reduceCtorEq, imp_false] at h
    simp only [placeholderAt?, hm]
    cases t with
    | nil => rfl
    | cons b t =>
      rw [List.head?_cons, Option.some.injEq] at h
      simp only [h, if_false]
  · simp only [markAt?, hm, hlead, ite_eq_right_iff, reduceCtorEq, imp_false,
      Bool.and_eq_true, not_and, Bool.not_eq_true', Bool.not_eq_false] at h
    simp only [placeholderAt?, hm, hlead]
    split
    · rename_i hpre
      rw [List.isEmpty_iff.mp (h hpre)]
      rfl
    · rfl

/-- A number that fits into a word is read back. -/
theorem toInt64?_ofNat {i : Nat} (h : i < 2 ^ 63) :
    Text.toInt64? (Text.ofNat i) = some (i : Int) := by
  have hread : Text.toInt? (Text.ofNat i) = some (i : Int) := by
    obtain ⟨b, u, hbu⟩ := List.exists_cons_of_ne_nil (Text.ofNat_ne_nil i)
    have hdigit := List.all_eq_true.mp (Text.all_isDigitByte_ofNat i) b (by simp [hbu])
    have hminus : b ≠ byte '-' := by
      rintro rfl
      exact absurd hdigit (by decide)
    have hplus : b ≠ byte '+' := by
      rintro rfl
      exact absurd hdigit (by decide)
    rw [hbu, Text.toInt?, if_neg hminus, if_neg hplus, ← hbu, Text.toNat?_ofNat]
    rfl
  rw [Text.toInt64?, hread, Option.filter_some, if_pos]
  simp only [Bool.and_eq_true, decide_eq_true_eq]
  refine ⟨?_, ?_⟩ <;> simp only [Nat.pow_eq] <;> omega

/-- The mark of a bound value is read as the placeholder of the value. -/
theorem placeholderAt?_mark {i : Nat} (h : markAt? d.profile (m ++ t) = some m)
    (hi : m = d.profile.placeholder (i + 1)) (hbound : i + 1 < 2 ^ 63) :
    placeholderAt? d.profile (m ++ t) =
      some (if d.profile.marker = .question then .next else .numbered i, m.length) := by
  rcases marker_cases d with hm | ⟨lead, c, u, hm, hlead, -⟩
  · obtain rfl : m = [byte '?'] := by
      rw [hi]
      simp only [Profile.placeholder, hm]
      decide
    simp only [placeholderAt?, hm]
    rfl
  · have hplaceholder : m = c :: u ++ Text.ofNat (i + 1) := by
      rw [hi]
      simp only [Profile.placeholder, hm, hlead]
      rfl
    have hpre : Text.hasPrefix (m ++ t) (c :: u) = true := by
      simp [Text.hasPrefix, hplaceholder, List.append_assoc]
    simp only [markAt?, hm, hlead, hpre, Bool.true_and] at h
    split at h
    · have hdigits := List.append_cancel_left ((Option.some.inj h).trans hplaceholder)
      simp only [placeholderAt?, hm, hlead, hpre, if_true, hdigits]
      rw [toInt64?_ofNat hbound]
      simp [hplaceholder]
      omega
    · cases h

theorem interpolateFrom_mark {i : Nat} {v : Value} (h : markAt? d.profile (m ++ t) = some m)
    (hi : m = d.profile.placeholder (i + 1)) (hbound : i + 1 < 2 ^ 63) (hv : params[i]? = some v)
    (hnext : d.profile.marker = .question → next = i) :
    interpolateFrom pre d.profile params 0 next (m ++ t) = (do
      let l ← literal pre d.profile v
      let u ← interpolateFrom pre d.profile params 0
        (if d.profile.marker = .question then next + 1 else next) t
      return l ++ u) := by
  obtain ⟨c, u, rest, hcons, -, -, hc, -⟩ := markAt?_eq_some h
  have hmark := placeholderAt?_mark h hi hbound
  have hq : quotedLength (m ++ t) = 0 := by simp [hcons, quotedLength, hc]
  subst hcons
  rw [List.cons_append] at hmark hq ⊢
  rw [interpolateFrom]
  simp only [hq, hmark]
  have hdrop : (u ++ t).drop ((c :: u).length - 1) = t := by simp
  rw [interpolateFrom_eq _ _ _ ((c :: u).length - 1)]
  by_cases hm : d.profile.marker = .question
  · rw [if_pos hm, if_pos hm]
    simp only [hdrop]
    rw [hnext hm, hv]
  · rw [if_neg hm, if_neg hm]
    simp only [hdrop]
    rw [hv]

/-- **Interpolation keeps the segments of a text and writes literals between them**, those of the
bound values that are marked. -/
theorem CutAtMarks.interpolateFrom_eq (h : CutAtMarks d.profile t ss ms) {k : Nat}
    (hms : ms = markRange d.profile n k) (hk : k ≤ params.length) (hbound : params.length < 2 ^ 63)
    (hn : n ≤ k) (hnext : d.profile.marker = .question → next = n) :
    interpolateFrom pre d.profile params 0 next t =
      interleave ss <$> ((params.drop n).take (k - n)).mapM (literal pre d.profile) := by
  induction h generalizing n next with
  | nil =>
    obtain rfl : k = n := by
      have := congrArg List.length hms
      simp [markRange] at this
      omega
    simp only [Nat.sub_self, List.take_zero]
    rfl
  | @quoted q t s ss ms hne hq h ih =>
    obtain ⟨b, q, rfl⟩ := List.exists_cons_of_ne_nil hne
    rw [List.cons_append, List.length_cons] at hq
    have htake : (b :: (q ++ t)).take (q.length + 1) = b :: q := by simp
    rw [List.cons_append, interpolateFrom]
    simp only [hq, htake]
    rw [Sql.interpolateFrom_eq, List.drop_left, ih hms hn hnext]
    cases List.mapM (literal pre d.profile) ((params.drop n).take (k - n)) with
    | error => rfl
    | ok ls => exact congrArg Except.ok (interleave_append (b :: q) s ss ls).symm
  | @byte b t s ss ms hb hm h ih =>
    have hq : quotedLength (b :: t) = 0 := by simp [quotedLength, hb]
    rw [interpolateFrom]
    simp only [hq, placeholderAt?_eq_none hm]
    rw [ih hms hn hnext]
    cases List.mapM (literal pre d.profile) ((params.drop n).take (k - n)) with
    | error => rfl
    | ok ls => exact congrArg Except.ok (interleave_append [b] s ss ls).symm
  | @mark m t ss ms hm h ih =>
    obtain ⟨j, rfl⟩ : ∃ j, k = n + 1 + j := by
      refine Nat.exists_eq_add_of_le (Nat.lt_of_le_of_ne hn ?_)
      rintro rfl
      rw [markRange_self] at hms
      cases hms
    have hsplit : markRange d.profile n (n + 1 + j) =
        d.profile.placeholder (n + 1) :: markRange d.profile (n + 1) (n + 1 + j) := by
      rw [← markRange_append _ (Nat.le_succ n) (Nat.le_add_right (n + 1) j)]
      simp [markRange]
    rw [hsplit] at hms
    obtain ⟨rfl, rfl⟩ := List.cons.inj hms
    have hv : params[n]? = some params[n] := List.getElem?_eq_getElem (by omega)
    have hlist : (params.drop n).take (n + 1 + j - n) =
        params[n] :: (params.drop (n + 1)).take (n + 1 + j - (n + 1)) := by
      rw [List.drop_eq_getElem_cons (by omega), show n + 1 + j - n = j + 1 by omega,
        List.take_succ_cons, show n + 1 + j - (n + 1) = j by omega]
    rw [interpolateFrom_mark hm rfl (by omega) hv hnext, hlist, List.mapM_cons]
    cases literal pre d.profile params[n] with
    | error => rfl
    | ok l =>
      have hnext' : d.profile.marker = .question →
          (if d.profile.marker = .question then next + 1 else next) = n + 1 := fun hm => by
        rw [if_pos hm, hnext hm]
      have hrest := ih rfl (by omega) hnext'
      rw [hrest]
      cases List.mapM (literal pre d.profile)
        ((params.drop (n + 1)).take (n + 1 + j - (n + 1))) with
      | error => rfl
      | ok ls => rfl

/-- **Interpolation of a text whose marks are those of the bound values in order.** -/
theorem CutAtMarks.interpolate_eq
    (h : CutAtMarks d.profile t ss (markRange d.profile 0 params.length))
    (hbound : params.length < 2 ^ 63) :
    interpolate pre d t params = interleave ss <$> params.mapM (literal pre d.profile) := by
  rw [interpolate, h.interpolateFrom_eq rfl (Nat.le_refl _) hbound (Nat.zero_le _) fun _ => rfl]
  simp

end Interpolate

/-! ### Literals -/

/-- Whether the text has letters, digits, underscores, points and signs only. -/
def isNumeral (t : Text) : Bool :=
  t.all fun b => isNameByte b || b == byte '.' || b == byte '+' || b == byte '-'

/-- The texts of literals: a number or word, or a quoted text, behind an `X` for bytes. -/
inductive IsLiteral : Text → Prop
  | plain {t : Text} (hne : t ≠ []) (h : isNumeral t = true) : IsLiteral t
  | quoted (u : Text) : IsLiteral (enclose 39 39 u)
  | bytes (u : Text) : IsLiteral ("X" ++ enclose 39 39 u)

theorem isNumeral_append (a b : Text) : isNumeral (a ++ b) = (isNumeral a && isNumeral b) :=
  List.all_append

theorem isNumeral_of_digits (h : t.all Text.isDigitByte = true) : isNumeral t = true := by
  rw [isNumeral, List.all_eq_true]
  intro b hb
  simp [isNameByte, List.all_eq_true.mp h b hb]

theorem isNumeral_ofNat (n : Nat) : isNumeral (Text.ofNat n) = true :=
  isNumeral_of_digits (Text.all_isDigitByte_ofNat n)

theorem isNumeral_cons (b : UInt8) (t : Text) :
    isNumeral (b :: t) = (isNumeral [b] && isNumeral t) :=
  isNumeral_append [b] t

theorem isNumeral_ofInt (i : Int) : isNumeral (Text.ofInt i) = true := by
  cases i with
  | ofNat n => exact isNumeral_ofNat n
  | negSucc n =>
    rw [Text.ofInt, isNumeral_cons, isNumeral_ofNat]
    decide

theorem ofInt_ne_nil (i : Int) : Text.ofInt i ≠ [] := by
  cases i with
  | ofNat n => exact Text.ofNat_ne_nil n
  | negSucc n => exact List.cons_ne_nil _ _

theorem isNumeral_replicate (n : Nat) : isNumeral (Text.replicateByte n (byte '0')) = true := by
  rw [isNumeral, List.all_eq_true]
  intro b hb
  rw [List.eq_of_mem_replicate hb]
  decide

theorem isNumeral_of_subset {a b : Text} (h : isNumeral b = true) (hab : a ⊆ b) :
    isNumeral a = true :=
  List.all_eq_true.mpr fun x hx => List.all_eq_true.mp h x (hab hx)

theorem isNumeral_written (c : Nat) (k : Int) : isNumeral (Decimal.written c k) = true := by
  have hdigits := isNumeral_ofNat c
  unfold Decimal.written
  simp only
  split
  · unfold Decimal.scientific
    simp only [isNumeral_append, Bool.and_eq_true]
    refine ⟨⟨?_, ?_⟩, ?_⟩
    · split
      · rfl
      · rename_i d hd
        exact hd ▸ hdigits
      · rename_i d rest _ hd
        rw [hd, isNumeral_cons, Bool.and_eq_true] at hdigits
        have hpoint : isNumeral (byte '.' :: rest) = true := by
          rw [isNumeral_cons, hdigits.2]
          decide
        rw [isNumeral_cons, hdigits.1, hpoint]
        rfl
    · split <;> decide
    · split
      · rw [isNumeral_cons, isNumeral_ofNat]
        decide
      · exact isNumeral_ofNat _
  · unfold Decimal.positional
    split
    · rw [isNumeral_append, hdigits, isNumeral_replicate]
      rfl
    · split
      · simp only [isNumeral_append, Bool.and_eq_true]
        exact ⟨⟨isNumeral_of_subset hdigits (List.take_subset _ _), by decide⟩,
          isNumeral_of_subset hdigits (List.drop_subset _ _)⟩
      · simp only [isNumeral_append, Bool.and_eq_true]
        exact ⟨⟨by decide, isNumeral_replicate _⟩, hdigits⟩

theorem written_ne_nil (c : Nat) (k : Int) : Decimal.written c k ≠ [] := by
  have hdigits := Text.ofNat_ne_nil c
  have sign : ∀ e : Int, Text.ofString (if e < 0 then "e-" else "e+") ≠ [] := by
    intro e
    split <;> decide
  unfold Decimal.written Decimal.scientific Decimal.positional
  simp only
  split
  · exact fun h => sign _ (List.append_eq_nil_iff.mp (List.append_eq_nil_iff.mp h).1).2
  · split
    · exact fun h => hdigits (List.append_eq_nil_iff.mp h).1
    · split
      · exact fun h => absurd (List.append_eq_nil_iff.mp (List.append_eq_nil_iff.mp h).1).2
          (by decide)
      · exact fun h => hdigits (List.append_eq_nil_iff.mp h).2

theorem isLiteral_double (single : Bool) (x : Double) : IsLiteral (x.text single) := by
  unfold Double.text
  split
  · exact .plain (by decide) (by decide)
  · split <;> exact .plain (by decide) (by decide)
  · rename_i negative m q _
    have size : ∀ t : Text, t ≠ [] → isNumeral t = true →
        IsLiteral (if negative then byte '-' :: t else t) := by
      intro t hne h
      split
      · refine .plain (List.cons_ne_nil _ _) ?_
        rw [isNumeral_cons, h]
        decide
      · exact .plain hne h
    by_cases hm : m = 0
    · simp only [if_pos hm]
      exact size "0" (by decide) (by decide)
    · simp only [if_neg hm]
      exact size _ (written_ne_nil _ _) (isNumeral_written _ _)

theorem isLiteral_bytes (t : Text) : IsLiteral ("X'" ++ hexBytes t ++ "'") := by
  have hdigit : ∀ i, i < 16 → Text.hexDigitUpper i ≠ 39 := by decide
  have hquote : (39 : UInt8) ∉ hexBytes t := by
    intro h
    obtain ⟨b, -, hb⟩ := List.mem_flatMap.mp h
    simp only [List.mem_cons, List.not_mem_nil, or_false] at hb
    rcases hb with hb | hb
    · exact hdigit _ (by have := b.toNat_lt; omega) hb.symm
    · exact hdigit _ (by omega) hb.symm
  have h := IsLiteral.bytes (hexBytes t)
  rw [enclose, Text.double_of_not_mem hquote] at h
  exact h

/-- **The text of a literal.** -/
theorem isLiteral_of_literal {pre : Prelude} {v : Value} (h : literal pre p v = .ok t) :
    IsLiteral t := by
  have number : ∀ i, IsLiteral (Text.ofInt i) := fun i =>
    .plain (ofInt_ne_nil i) (isNumeral_ofInt i)
  unfold literal at h
  split at h
  · cases h
    exact .plain (by decide) (by decide)
  · cases h
    exact .quoted _
  · cases h
    split <;> split <;> exact .plain (by decide) (by decide)
  · cases h
    exact isLiteral_bytes _
  · cases h
    exact .bytes []
  · cases h
    exact .quoted _
  · cases h
    exact number _
  · cases h
    exact isLiteral_double _ _
  · obtain ⟨x, -, h⟩ := bind_eq_ok.mp h
    split at h <;> cases h <;> exact .quoted _

theorem exists_literal_of_chosen {pre : Prelude} {v : Value} {x : Option Text}
    (h : chosenText? pre v = .ok x) : ∃ t, literal pre p v = .ok t := by
  unfold literal
  split
  iterate 8 exact ⟨_, rfl⟩
  rw [h]
  cases x <;> exact ⟨_, rfl⟩

/-- **Which values have a literal**: all but nil pointers to what would choose its own text. -/
theorem exists_literal_iff {pre : Prelude} {v : Value} : (∃ t, literal pre p v = .ok t) ↔
    ∀ t, v = .nilPtr t → t ≠ .time ∧ pre.display? t = none := by
  cases v with
  | nilPtr t =>
    simp only [literal, chosenText?, Value.nilPtr.injEq, forall_eq']
    split
    · rename_i h
      simp only [Bool.or_eq_true, decide_eq_true_eq, Option.isSome_iff_ne_none, ne_eq] at h
      constructor
      · rintro ⟨_, h⟩
        cases h
      · rintro ⟨h₁, h₂⟩
        exact absurd h (by simp [h₁, h₂])
    · rename_i h
      simp only [Bool.or_eq_true, decide_eq_true_eq, Option.isSome_iff_ne_none, ne_eq, not_or,
        not_not] at h
      exact ⟨fun _ => h, fun _ => ⟨_, rfl⟩⟩
  | _ => exact ⟨fun _ _ h => (by cases h), fun _ => exists_literal_of_chosen rfl⟩

/-! ### No mark is left -/

theorem lengthToCloser_pos (closer b : UInt8) (u : Text) : 0 < lengthToCloser closer (b :: u) := by
  cases u with
  | nil => exact Nat.one_pos
  | cons c u =>
    rw [lengthToCloser]
    split
    · split <;> omega
    · omega

theorem lengthToCloser_again {closer b : UInt8} {u u' : Text}
    (h : lengthToCloser closer (q ++ b :: u) = q.length) :
    lengthToCloser closer (q ++ closer :: u') = q.length + 1 + lengthToCloser closer u' := by
  induction q using lengthToCloser.induct closer with
  | case1 =>
    have := lengthToCloser_pos closer b u
    simp only [List.nil_append, List.length_nil] at h
    omega
  | case2 c =>
    have := lengthToCloser_pos closer b u
    simp only [List.singleton_append, lengthToCloser, List.length_singleton] at h ⊢
    split at h
    · rename_i hc
      simp only [if_pos hc, if_true]
      omega
    · omega
  | case3 rest ih =>
    simp only [List.cons_append, lengthToCloser, if_true, List.length_cons] at h ⊢
    rw [ih (by omega)]
    omega
  | case4 c rest hc =>
    simp only [List.cons_append, lengthToCloser, if_true, hc, if_false, List.length_cons] at h
    omega
  | case5 c d rest hc ih =>
    simp only [List.cons_append, lengthToCloser, hc, if_false, List.length_cons] at h ⊢
    rw [List.cons_append, List.cons_append] at ih
    rw [ih (by simpa using h)]
    simp only [List.length_cons]
    omega

/-- A segment in single quotes goes on where another one follows it, and both end where the second
one does. So they hold no more than the second one does alone. -/
theorem signs_again {b : UInt8} {u : Text} (hq : q.head? = some 39)
    (h : quotedLength (q ++ b :: u) = q.length) (u' : Text) :
    signs p (q ++ 39 :: u') = signs p (39 :: u') := by
  obtain ⟨q, rfl⟩ := List.head?_eq_some_iff.mp hq
  have hclose : closer? 39 = some 39 := rfl
  have hboth : quotedLength (39 :: q ++ 39 :: u') = q.length + 1 + (lengthToCloser 39 u' + 1) := by
    simp only [List.cons_append, quotedLength, hclose, List.length_cons,
      Nat.add_right_cancel_iff] at h ⊢
    rw [lengthToCloser_again h]
    omega
  have hone : quotedLength (39 :: u') = lengthToCloser 39 u' + 1 := rfl
  have hleft : (39 :: q ++ 39 :: u').drop (q.length + 1) = 39 :: u' := List.drop_left
  have hdrop : (39 :: q ++ 39 :: u').drop (q.length + 1 + (lengthToCloser 39 u' + 1)) =
      (39 :: u').drop (lengthToCloser 39 u' + 1) := by
    rw [← List.drop_drop, hleft]
  rw [signs_of_quoted hboth, signs_of_quoted hone, ← hdrop]
  rfl

theorem lengthToCloser_of_ne {closer b c : UInt8} {u u' : Text}
    (h : lengthToCloser closer (q ++ b :: u) = q.length) (hc : c ≠ closer) :
    lengthToCloser closer (q ++ c :: u') = q.length := by
  induction q using lengthToCloser.induct closer with
  | case1 =>
    have := lengthToCloser_pos closer b u
    simp only [List.nil_append, List.length_nil] at h
    omega
  | case2 x =>
    have := lengthToCloser_pos closer b u
    simp only [List.singleton_append, lengthToCloser, List.length_singleton, hc, if_false] at h ⊢
    split at h
    · rename_i hx
      rw [if_pos hx]
    · omega
  | case3 rest ih =>
    simp only [List.cons_append, lengthToCloser, if_true, List.length_cons] at h ⊢
    rw [ih (by omega)]
  | case4 x rest hx =>
    simp only [List.cons_append, lengthToCloser, if_true, hx, if_false, List.length_cons] at h
    omega
  | case5 x y rest hx ih =>
    simp only [List.cons_append, lengthToCloser, hx, if_false, List.length_cons] at h ⊢
    rw [List.cons_append, List.cons_append] at ih
    rw [ih (by simpa using h)]
    simp

/-- What a literal may begin with closes no quotes but single ones. -/
theorem IsLiteral.head_cases (h : IsLiteral t) : ∃ c u, t = c :: u ∧
    ∀ b closer, closer? b = some closer → c = closer → c = 39 ∧ b = 39 := by
  have hall : ∀ c : UInt8, isNumeral [c] = true → ∀ b closer, closer? b = some closer →
      c ≠ closer := by
    have hclosers : ∀ b closer, closer? b = some closer → isNumeral [closer] = false := by
      intro b closer h
      simp only [closer?] at h
      split at h
      · cases h; decide
      · split at h
        · cases h; decide
        · split at h
          · cases h; decide
          · split at h
            · cases h; decide
            · cases h
    rintro c hc b closer h rfl
    rw [hclosers b c h] at hc
    cases hc
  cases h with
  | plain hne h =>
    obtain ⟨c, u, rfl⟩ := List.exists_cons_of_ne_nil hne
    rw [isNumeral_cons, Bool.and_eq_true] at h
    exact ⟨c, u, rfl, fun b closer hb hc => absurd hc (hall c h.1 b closer hb)⟩
  | quoted u =>
    refine ⟨39, _, rfl, fun b closer hb hc => ⟨rfl, ?_⟩⟩
    subst hc
    simp only [closer?] at hb
    grind
  | bytes u =>
    exact ⟨byte 'X', _, rfl, fun b closer hb hc => absurd hc (hall _ (by decide) b closer hb)⟩

theorem inert_of_isNumeral (h : isNumeral t = true) : Inert t := fun b hb =>
  isInert_of_test (f := fun b => isNumeral [b]) (by decide)
    (by simpa [isNumeral] using List.all_eq_true.mp h b hb)

theorem signs_enclose (u rest : Text) : signs p (enclose 39 39 u ++ rest) = signs p rest := by
  have hne : enclose 39 39 u ≠ [] := List.cons_ne_nil _ _
  by_cases hrest : rest.head? = some 39
  · obtain ⟨rest, rfl⟩ := List.head?_eq_some_iff.mp hrest
    have hlength : quotedLength (enclose 39 39 u ++ 32 :: []) = _ :=
      quotedLength_enclose rfl u (by decide)
    exact signs_again rfl hlength rest
  · exact signs_quoted hne (quotedLength_enclose rfl u hrest)

/-- A literal holds no mark, whatever follows it. -/
theorem IsLiteral.signs_append (h : IsLiteral t) (rest : Text) :
    signs p (t ++ rest) = signs p rest := by
  cases h with
  | plain _ h => exact signs_inert (inert_of_isNumeral h) rest
  | quoted u => exact signs_enclose u rest
  | bytes u =>
    have hx : Inert "X" := by decide
    rw [List.append_assoc, signs_inert hx, signs_enclose]

/-- A text with literals in the place of its marks begins as before, or with a literal. -/
theorem CutAtMarks.interleave_head (h : CutAtMarks d.profile t ss ms) (hlen : ls.length = ms.length)
    (hls : ∀ l ∈ ls, IsLiteral l) : (∀ b ∈ (interleave ss ls).head?, b ∈ t.head?) ∨
      ∃ l u b v, IsLiteral l ∧ interleave ss ls = l ++ u ∧ t = b :: v := by
  cases h with
  | nil =>
    obtain rfl := List.length_eq_zero_iff.mp hlen
    exact .inl fun _ hb => hb
  | @quoted q t s ss ms hne =>
    obtain ⟨o, q, rfl⟩ := List.exists_cons_of_ne_nil hne
    rw [interleave_append]
    exact .inl fun _ hb => hb
  | @byte b t s ss ms =>
    rw [show b :: s = [b] ++ s from rfl, interleave_append]
    exact .inl fun _ hb => hb
  | @mark m t ss ms hm =>
    cases ls with
    | nil => cases hlen
    | cons l ls =>
      obtain ⟨c, u, rest, rfl, -⟩ := markAt?_eq_some hm
      exact .inr ⟨l, interleave ss ls, c, u ++ t, hls l List.mem_cons_self, rfl, rfl⟩

/-- A literal behind a quoted segment holds no mark. -/
theorem signs_quoted_literal {b : UInt8} {u v : Text} (hq : q ≠ [])
    (h : quotedLength (q ++ b :: v) = q.length) (hl : IsLiteral t) :
    signs p (q ++ (t ++ u)) = signs p (t ++ u) := by
  obtain ⟨c, w, rfl, hc⟩ := hl.head_cases
  obtain ⟨o, q, rfl⟩ := List.exists_cons_of_ne_nil hq
  cases ho : closer? o with
  | none => simp [quotedLength, ho] at h
  | some closer =>
    by_cases hcloser : c = closer
    · obtain ⟨rfl, rfl⟩ := hc o closer ho hcloser
      exact signs_again rfl h (w ++ u)
    · refine signs_quoted hq ?_
      simp only [List.cons_append, quotedLength, ho, List.length_cons, Nat.add_right_cancel_iff]
        at h ⊢
      exact lengthToCloser_of_ne h hcloser

/-- **Literals leave no mark**: if every sign in a text is a mark, none is left between its
segments. -/
theorem CutAtMarks.signs_interleave (h : CutAtMarks d.profile t ss ms)
    (hsigns : ∀ x ∈ signs d.profile t, x.isSome) (hlen : ls.length = ms.length)
    (hls : ∀ l ∈ ls, IsLiteral l) : signs d.profile (interleave ss ls) = [] := by
  induction h generalizing ls with
  | nil =>
    obtain rfl := List.length_eq_zero_iff.mp hlen
    rfl
  | @quoted q t s ss ms hne hq h ih =>
    rw [signs_quoted hne hq] at hsigns
    have hrest := ih hsigns hlen hls
    rw [interleave_append]
    rcases h.interleave_head hlen hls with hhead | ⟨l, u, b, v, hl, hu, rfl⟩
    · rw [signs_quoted hne (quotedLength_congr hne hq hhead), hrest]
    · rw [hu, signs_quoted_literal hne hq hl, ← hu, hrest]
  | @byte b t s ss ms hb hm h ih =>
    rw [signs_cons hb, hm] at hsigns
    have hinert : isInert b = true := by
      by_contra hno
      have hnone := hsigns none (by simp [hno])
      cases hnone
    have hrest := ih (fun x hx => hsigns x (List.mem_append_right _ hx)) hlen hls
    rw [show b :: s = [b] ++ s from rfl, interleave_append, List.singleton_append, signs_cons hb,
      if_pos hinert, hrest]
    rfl
  | @mark m t ss ms hm h ih =>
    cases ls with
    | nil => cases hlen
    | cons l ls =>
      obtain ⟨c, u, rest, rfl, -, hsign, hc, hu⟩ := markAt?_eq_some hm
      rw [List.cons_append, signs_cons hc, signs_inert hu] at hsigns
      have hrest := ih (fun x hx => hsigns x (List.mem_append_right _ hx))
        (Nat.succ.inj hlen) fun l hl => hls l (List.mem_cons_of_mem _ hl)
      rw [interleave, List.nil_append, (hls l List.mem_cons_self).signs_append, hrest]

end Sql

/-! ### Drafts -/

open Sql Emit

variable {st : Settings} {d d' : Draft}

/-- What interpolation makes of a draft: the marks of its text are those of its bound values, each
once and in order, and the literals of the values stand in their places. No mark is left. It stops
only at a value that has no literal. -/
structure Draft.Interpolates (st : Settings) (d : Draft) : Prop where
  inlined : ∃ segments, CutAtMarks st.profile d.text segments
      ((List.range d.args.length).map fun i : Nat => st.profile.placeholder (i + 1)) ∧
    d.inlined = interleave segments <$> d.args.mapM (literal st.pre st.profile)
  unmarked : ∀ t, d.inlined = .ok t → marks st.profile t = []
  returns : (∃ t, d.inlined = .ok t) ↔
    ∀ v ∈ d.args, ∀ t, v = .nilPtr t → t ≠ .time ∧ st.pre.display? t = none

theorem exists_mapM_iff {ε α β : Type} {f : α → Except ε β} {xs : List α} :
    (∃ ys, xs.mapM f = .ok ys) ↔ ∀ x ∈ xs, ∃ y, f x = .ok y := by
  constructor
  · rintro ⟨ys, hys⟩ x hx
    cases hf : f x with
    | ok y => exact ⟨y, rfl⟩
    | error e =>
      obtain ⟨e', he⟩ := exists_mapM_eq_error hx hf
      rw [he] at hys
      cases hys
  · intro h
    cases hys : xs.mapM f with
    | ok ys => exact ⟨ys, rfl⟩
    | error e =>
      obtain ⟨x, hx, he⟩ := exists_of_mapM_eq_error hys
      obtain ⟨y, hy⟩ := h x hx
      rw [he] at hy
      cases hy

/-- **A tidy text is interpolated.** -/
theorem Draft.interpolates_of_tidy (hdialect : d.settings.dialect = st.dialect)
    (hpre : d.settings.pre = st.pre) (htext : Sql.Tidy st.dialect 0 d.slate.params.length d.text)
    (hbound : d.args.length < 2 ^ 63) : d.Interpolates st := by
  have hlen : d.args.length = d.slate.params.length := List.length_map ..
  have hmarks := htext.marks_eq
  rw [← hlen] at hmarks
  obtain ⟨s, ss, hcut⟩ := exists_cut st.dialect d.text
  rw [hmarks] at hcut
  have hinlined : d.inlined = interleave (s :: ss) <$> d.args.mapM (literal st.pre st.profile) := by
    rw [Draft.inlined, hdialect, hpre]
    exact hcut.interpolate_eq hbound
  refine ⟨⟨s :: ss, ?_, hinlined⟩, fun t ht => ?_, ?_⟩
  · rw [List.range_eq_range']
    exact hcut
  · rw [hinlined] at ht
    cases hls : d.args.mapM (literal st.pre st.profile) with
    | error e =>
      rw [hls] at ht
      cases ht
    | ok ls =>
      rw [hls] at ht
      cases ht
      have hsigns : ∀ x ∈ signs st.dialect.profile d.text, x.isSome := by
        rw [htext.signs_eq]
        intro x hx
        obtain ⟨m, -, rfl⟩ := List.mem_map.mp hx
        rfl
      have hcount : ls.length = (markRange st.dialect.profile 0 d.args.length).length := by
        rw [Expr.length_of_mapM hls, markRange, List.length_map, List.length_range', Nat.sub_zero]
      have hnone := hcut.signs_interleave hsigns hcount
        (of_mapM_eq_ok hls fun _ _ _ => isLiteral_of_literal)
      show marks st.dialect.profile _ = []
      rw [marks_eq_filterMap, hnone]
      rfl
  · rw [hinlined]
    have hmap : (∃ t, interleave (s :: ss) <$> d.args.mapM (literal st.pre st.profile) = .ok t) ↔
        ∃ ls, d.args.mapM (literal st.pre st.profile) = .ok ls := by
      cases d.args.mapM (literal st.pre st.profile) with
      | error e =>
        constructor
        · rintro ⟨_, h⟩
          cases h
        · rintro ⟨_, h⟩
          cases h
      | ok ls => exact ⟨fun _ => ⟨ls, rfl⟩, fun _ => ⟨_, rfl⟩⟩
    rw [hmap, exists_mapM_iff]
    exact forall₂_congr fun v _ => exists_literal_iff

/-! ### Statements -/

/-- The draft of a statement keeps the dialect and what it may depend on. -/
theorem Statement.settings_of_compile {s : Statement} {ts : List Transform} (hs : s.Plain st)
    (hts : ∀ t ∈ ts, t.Plain st s) (h : s.compile ts st = .ok d) :
    d.settings.dialect = st.dialect ∧ d.settings.pre = st.pre := by
  cases s with
  | select s =>
    rw [(s.tidy_compile hs hts h).settings]
    exact ⟨rfl, rfl⟩
  | aggregate s fn target =>
    rw [(s.tidy_compileAggregate hs hts h).settings]
    exact ⟨rfl, rfl⟩
  | insert s =>
    rw [(s.tidy_compile hs.1 hs.2 h).settings]
    exact ⟨rfl, rfl⟩
  | update s =>
    cases hp : s.target with
    | none =>
      simp only [Statement.compile, Update.compile, hp] at h
      cases h
    | some p =>
      obtain ⟨hn, hw⟩ := hs p hp
      rw [(s.tidy_compile hp hn hw (fun t ht => hts t ht p hp) h).settings]
      exact ⟨rfl, rfl⟩
  | delete s =>
    rw [(s.tidy_compile hs hts h).settings]
    exact ⟨rfl, rfl⟩

theorem Outcomes.exists_of_ok {ε α β : Type} {R : α → β → Prop} {a : α} {y : Except ε β}
    (h : Outcomes R (.ok a) y) : ∃ b, y = .ok b ∧ R a b := by
  cases h with
  | returned h => exact ⟨_, rfl, h⟩

theorem Draft.outcome_eq_ok {x : Draft × Except (Stop CompileError) Unit}
    (h : Draft.outcome x = .ok d) : x = (d, .ok ()) := by
  obtain ⟨d', (e | ⟨⟩)⟩ := x
  · cases h
  · cases h
    rfl

/-- **Interpolation inverts binding.** Take a clause or a statement that compiles, with names that
are quoted or plain. Its text is cut at the marks of its bound values, interpolation writes their
literals in the places of the marks and keeps everything else, and no mark is left. In every other
dialect the same values are written in the same order.

The number of bound values fits into a word, as the length of any list does. -/
theorem interpolation_inverts_binding (st : Settings) :
    (∀ (e : Expr) (c : Clause) (ds : List Direction) (d : Draft),
      (st.quoted = true ∨ e.Named st (.plain st.quoted) ∧ e.WritesPlain st c) →
      (Draft.new st).compile e c ds = (d, .ok ()) → d.args.length < 2 ^ 63 →
      d.Interpolates st ∧ ∀ other : Dialect, ∃ d',
        (Draft.new (st.withDialect other)).compile e c ds = (d', .ok ()) ∧ d'.args = d.args) ∧
    (∀ (s : Statement) (ts : List Transform) (d : Draft),
      (st.quoted = true ∨ s.Plain st ∧ ∀ t ∈ ts, t.Plain st s) → s.compile ts st = .ok d →
      d.args.length < 2 ^ 63 →
      d.Interpolates st ∧ ∀ other : Dialect, ∃ d',
        s.compile ts (st.withDialect other) = .ok d' ∧ d'.args = d.args) := by
  have pairing : ∀ other : Dialect, Pairing.IsExact ⟨st.dialect, other, Eq⟩ := fun _ _ _ h => h
  refine ⟨fun e c ds d hn h hbound => ⟨?_, fun other => ?_⟩,
    fun s ts d hn h hbound => ⟨?_, fun other => ?_⟩⟩
  · have htidy : Draft.Tidy st d := by
      cases hq : st.quoted with
      | true =>
        exact (Draft.ready_new st).compile (e.named_of_permissive (permissive_plain hq))
          (e.writesPlain_of_quoted hq c) h
      | false =>
        obtain ⟨he, hw⟩ := hn.resolve_left (by simp [hq])
        exact (Draft.ready_new st).compile he hw h
    exact Draft.interpolates_of_tidy (by rw [htidy.settings]) (by rw [htidy.settings]) htidy.text
      hbound
  · have hboth := (Pairing.drafts_new (P := ⟨st.dialect, other, Eq⟩) st).compile (pairing other) e
      c ds fun _ => ⟨rfl, rfl⟩
    have hleft : Draft.outcome ((Draft.new (st.withDialect st.dialect)).compile e c ds) = .ok d :=
      congrArg Draft.outcome h
    obtain ⟨d', hd', hsame⟩ := Outcomes.exists_of_ok (hleft ▸ hboth)
    exact ⟨d', Draft.outcome_eq_ok hd',
      congrArg (List.map Bound.value) (hsame.slates.sameButText (pairing other)).params.symm⟩
  · obtain ⟨hs, hts⟩ : s.Plain st ∧ ∀ t ∈ ts, t.Plain st s := by
      cases hq : st.quoted with
      | true => exact ⟨s.plain_of_quoted hq, fun t _ => t.plain_of_quoted hq s⟩
      | false => exact hn.resolve_left (by simp [hq])
    obtain ⟨hdialect, hpre⟩ := Statement.settings_of_compile hs hts h
    exact Draft.interpolates_of_tidy hdialect hpre (Statement.tidy_compile hs hts h) hbound
  · have hboth : Pairing.Statements ⟨st.dialect, other, Eq⟩
        (s.compile ts (st.withDialect st.dialect)) (s.compile ts (st.withDialect other)) :=
      Pairing.statements_compile (pairing other) s ts
    have hleft : s.compile ts (st.withDialect st.dialect) = .ok d := h
    obtain ⟨d', hd', hsame⟩ := Outcomes.exists_of_ok (hleft ▸ hboth)
    exact ⟨d', hd',
      congrArg (List.map Bound.value) (hsame.sameButText (pairing other)).params.symm⟩

open Sample

/-- The customers of a name and an age are asked for with the name and the age as literals, and the
statement that asks for active ones of a name has one literal. -/
theorem interpolation_inverts_binding_customers :
    (∃ d, (Draft.new (.standard .sqlServer world)).compile
        (.binary .and (hasName "x") (hasAge 3)) .where_ [] = (d, .ok ()) ∧
      d.Interpolates (.standard .sqlServer world) ∧
      d.inlined = .ok "c.name = 'x' AND c.age = 3") ∧
    ∃ d, (Statement.select (customersWith [hasName "x"])).compile []
        { Settings.standard .postgres world with quoted := true } = .ok d ∧
      d.Interpolates { Settings.standard .postgres world with quoted := true } := by
  have hrow := Sample.customerRow_named .sqlServer
  have hnamed : Expr.Named (.standard .sqlServer world) (.plain false)
      (.binary .and (hasName "x") (hasAge 3)) := ⟨⟨hrow, trivial⟩, hrow, trivial⟩
  refine ⟨⟨_, rfl, ?_, rfl⟩, ⟨_, rfl, ?_⟩⟩
  · exact ((interpolation_inverts_binding (.standard .sqlServer world)).1 _ .where_ [] _
      (.inr ⟨hnamed, trivial⟩) rfl (by decide)).1
  · exact ((interpolation_inverts_binding
      { Settings.standard .postgres world with quoted := true }).2
        (.select (customersWith [hasName "x"])) [] _ (.inl rfl) rfl (by decide)).1

/-- The insertion of a customer that is deleted at a nil time. -/
def Sample.insertDeletedAtNil : Insert where
  target := some customerRow
  values := [.value (.map .string .any [(.string "DeletedAt", .nilPtr .time)])]
  includeNulls := true

/-- **Interpolation stops at a nil time**, which the statement binds like any other value. -/
theorem exists_interpolation_stops :
    ∃ d, insertDeletedAtNil.compile [] (.standard .sqlServer world) = .ok d ∧
      d.text = "INSERT INTO customers (deleted_at) VALUES (@p1)" ∧ d.inlined = .error .fault :=
  ⟨_, rfl, rfl, rfl⟩

end QueryTree
