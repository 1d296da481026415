import QueryTree.Proofs.Phrases
import QueryTree.Proofs.RawNames
import QueryTree.Proofs.Titles
import QueryTree.Sample.Sessions

/-!
# Reading back what can be written

A phrase has a text, in which every compound phrase inside it stands in brackets. The tokens of the
text are those of the phrase, and so the text is read as the expression that the phrase stands for.

What a reference means depends on the session. An alias stands for its row, and the name of a member
for the first member that it or its exported form equals up to case. A member is an exported name
already, and exporting it again changes its case at most, so it stands for itself if the members
differ by more than their case.

## Main definitions

* `Phrase.printed`, `Phrase.printedBody`: the text of a phrase, with and without brackets
* `Session.Knows`: members that can be referred to

## Main results

* `Phrase.scans_printedBody`: the tokens of a text
* `Session.Knows.means`: a member that can be referred to is read as such
* `parseText_printed`: a phrase is read back
* `parseText_ofInt`: an integer is read back, unless it is the least one
-/

namespace QueryTree

/-! ### Parts of texts -/

namespace Text

theorem splitByte_of_not_mem {b : UInt8} {u : Text} (hu : b ∉ u) : splitByte b u = [u] := by
  induction u with
  | nil => rfl
  | cons c u ih =>
    rw [List.mem_cons, not_or] at hu
    rw [splitByte, if_neg (Ne.symm hu.1), ih hu.2]

theorem splitByte_append {b : UInt8} {u v : Text} (hu : b ∉ u) (hv : b ∉ v) :
    splitByte b (u ++ b :: v) = [u, v] := by
  induction u with
  | nil => rw [List.nil_append, splitByte, if_pos rfl, splitByte_of_not_mem hv]
  | cons c u ih =>
    rw [List.mem_cons, not_or] at hu
    rw [List.cons_append, splitByte, if_neg (Ne.symm hu.1), ih hu.2]

theorem equalFold_iff {t u : Text} :
    t.equalFold u = true ↔ t.chars.map CharClass.foldKey = u.chars.map CharClass.foldKey :=
  beq_iff_eq

theorem equalFold_congr_right {t u v : Text} (h : u.equalFold v = true) :
    t.equalFold v = t.equalFold u := by
  rw [equalFold_iff] at h
  rw [equalFold, equalFold, h]

end Text

namespace Shell

/-! ### Declared members -/

namespace EntityDef

theorem map_membersOf {entity : Text} {seen : List Text} {fs : List FieldDef}
    {ms : List (Text × Ty × Text)} (h : membersOf entity seen fs = .ok ms) :
    ms.map (·.1) = fs.map (·.name.exported) := by
  induction fs generalizing seen ms with
  | nil =>
    cases h
    rfl
  | cons f fs ih =>
    rw [membersOf] at h
    split at h
    · cases h
    · split at h
      · cases h
      · split at h
        · cases h
        · cases hrest : membersOf entity (f.name.exported :: seen) fs with
          | error e =>
            rw [hrest] at h
            cases h
          | ok rest =>
            rw [hrest] at h
            cases h
            exact congrArg _ (ih hrest)

/-- The members of a declared entity are the exported names of its fields, and names of fields of a
record. -/
theorem members_of_declare {d : EntityDef} {e : Declared} (h : d.declare = .ok e) :
    e.members = d.fields.map (·.name.exported) ∧ ∀ m ∈ e.members, Ty.isFieldName m = true := by
  unfold declare at h
  split at h
  · cases h
  · rename_i ms hms
    unfold members at hms
    split at hms
    · cases hms
    · split at h
      · cases h
      · rename_i t ht
        cases h
        refine ⟨map_membersOf hms, fun m hm => ?_⟩
        simp only [Ty.recordOf?] at ht
        split at ht
        · rename_i hnames
          refine List.all_eq_true.mp (Bool.and_eq_true_iff.mp hnames).1 m ?_
          rw [List.map_cons]
          exact List.mem_cons_of_mem _ hm
        · cases ht

end EntityDef

namespace Declared

/-- A member whose exported form differs from it by its case only stands for itself, if members
differ by more than their case. -/
theorem member?_of_mem {e : Declared} {m : Text} (hm : m ∈ e.members)
    (hfold : m.equalFold m.exported = true)
    (hdiffer : e.members.Pairwise fun m n => m.equalFold n = false) : e.member? m = some m := by
  obtain ⟨before, behind, hmembers⟩ := List.append_of_mem hm
  rw [hmembers, List.pairwise_append] at hdiffer
  refine List.find?_eq_some_iff_append.mpr ⟨?_, before, behind, hmembers, fun n hn => ?_⟩
  · rw [hfold, Bool.or_true]
  · rw [Text.equalFold_congr_right hfold, hdiffer.2.2 n hn m List.mem_cons_self]
    rfl

end Declared

/-- The bytes of the name of a field: letters, digits, underscores, and those of characters beyond
ASCII. -/
theorem isWordByte_of_isFieldName {m : Text} (h : Ty.isFieldName m = true) {b : UInt8}
    (hb : b ∈ m) : Token.isWordByte b = true ∧ b ≠ byte '.' := by
  suffices b ∉ byte '.' :: Token.breakers by
    rw [List.mem_cons, not_or] at this
    exact ⟨Token.isWordByte_iff.mpr this.2, this.1⟩
  by_cases hascii : b < 0x80
  · have hrune := Text.char_mem_runesFrom (k := 0) (by simp) hb hascii
    have hident := (Bool.and_eq_true_iff.mp h).1
    unfold Ty.isIdentifier at hident
    have hall : ∀ r ∈ m.runes, Ty.isNameRune r = true := by
      split at hident
      · cases hident
      · rename_i r rs hrs
        rw [hrs]
        rw [Bool.and_eq_true, List.all_eq_true] at hident
        rintro r' hr'
        rcases List.mem_cons.mp hr' with rfl | hr'
        · exact Bool.or_eq_true_iff.mpr (.inl hident.1)
        · exact hident.2 r' hr'
    exact Text.not_mem_of_test (f := fun b => Ty.isNameRune (.char (Char.ofNat b.toNat)))
      (by decide +kernel) (hall _ hrune)
  · exact Text.not_mem_of_test (f := fun b => !decide (b < 0x80)) (by decide)
      (by simpa using hascii)

/-- What a session has to know of a member of a row: the row has an alias, which is an identifier,
its entity is declared and its members differ by more than their case, and the member is that of a
field of the entity. -/
def Session.Knows (s : Session) (p : Param) (rowName member : Text) : Prop :=
  Raw.isIdentifier rowName = true ∧
  ∃ (definition : EntityDef) (e : Declared) (f : FieldDef) (cs : List Char),
    s.aliases.lookup rowName = some (p, e) ∧ definition.declare = .ok e ∧
    e.members.Pairwise (fun m n => m.equalFold n = false) ∧
    f ∈ definition.fields ∧ f.name = Text.ofChars cs ∧ member = f.name.exported

theorem not_point_of_isIdentifier {u : Text} (h : Raw.isIdentifier u = true) :
    (∀ b ∈ u, Token.isWordByte b = true) ∧ byte '.' ∉ u := by
  have hall : ∀ b ∈ u, (Text.isLetterByte b || Text.isDigitByte b || b == byte '_') = true := by
    cases u with
    | nil => nofun
    | cons c u =>
      simp only [Raw.isIdentifier, Bool.and_eq_true, List.all_eq_true] at h
      rintro b hb
      rcases List.mem_cons.mp hb with rfl | hb
      · have := h.1
        grind
      · exact h.2 b hb
  have hword : ∀ b ∈ u, Token.isWordByte b = true ∧ b ≠ byte '.' := by
    intro b hb
    have := Text.not_mem_of_test (l := byte '.' :: Token.breakers)
      (f := fun b => Text.isLetterByte b || Text.isDigitByte b || b == byte '_') (by decide)
      (hall b hb)
    rw [List.mem_cons, not_or] at this
    exact ⟨Token.isWordByte_iff.mpr this.2, this.1⟩
  exact ⟨fun b hb => (hword b hb).1, fun hb => (hword _ hb).2 rfl⟩

/-- A member that a session knows is read as this member. -/
theorem Session.Knows.means {s : Session} {p : Param} {rowName member : Text}
    (h : s.Knows p rowName member) : Phrase.Means s.resolve p rowName member := by
  obtain ⟨hname, definition, e, f, cs, hlookup, hdeclare, hdiffer, hf, hchars, rfl⟩ := h
  obtain ⟨hmembers, hfields⟩ := EntityDef.members_of_declare hdeclare
  have hmem : f.name.exported ∈ e.members := by
    rw [hmembers]
    exact List.mem_map.mpr ⟨f, hf, rfl⟩
  have hword := fun b => isWordByte_of_isFieldName (hfields _ hmem) (b := b)
  have hmember : e.member? f.name.exported = some f.name.exported := by
    refine Declared.member?_of_mem hmem ?_ hdiffer
    rw [hchars]
    exact Text.equalFold_exported cs
  have hsplit : Text.splitByte (byte '.') (Phrase.referenceToken rowName f.name.exported) =
      [rowName, f.name.exported] :=
    Text.splitByte_append (not_point_of_isIdentifier hname).2 fun hb => (hword _ hb).2 rfl
  have hresolve : s.resolve rowName = .ok (p, e) := by
    rw [Session.resolve, hlookup]
  refine ⟨hname, fun b hb => (hword b hb).1, ?_⟩
  simp only [Grammar.reference, hsplit, hresolve]
  rw [show ∀ k : Param × Declared → Except ParseError Expr, (Except.ok (p, e) >>= k) = k (p, e)
    from fun _ => rfl]
  simp only [hmember]
  rfl

/-! ### The text of a phrase -/

namespace Phrase

/-- A text in brackets, unless it is that of an atom. -/
def inBrackets (x : Phrase) (t : Text) : Text := if x.isAtom then t else "(" ++ t ++ ")"

mutual

/-- The text of a phrase without brackets around it. -/
def printedBody : Phrase → Text
  | int n => Text.ofInt n
  | text t => Token.quotedText t
  | truth b => if b then "true" else "false"
  | null => "null"
  | reference _ rowName member => rowName ++ "." ++ member
  | opposite x => "-" ++ inBrackets x x.printedBody
  | denial x => "not " ++ inBrackets x x.printedBody
  | joined i l r =>
    inBrackets l l.printedBody ++ " " ++ i.token ++ " " ++ inBrackets r r.printedBody
  | among x first more => inBrackets x x.printedBody ++ " in (" ++
    inBrackets first first.printedBody ++ printedItems more ++ ")"
  | like x t => inBrackets x x.printedBody ++ " like " ++ Token.quotedText ("%" ++ t ++ "%")
  | applied f x => f.name ++ "(" ++ inBrackets x x.printedBody ++ ")"
  | countRows => "count()"

/-- The text of further phrases of a list. -/
def printedItems : List Phrase → Text
  | [] => []
  | x :: xs => ", " ++ inBrackets x x.printedBody ++ printedItems xs

end

/-- The text of a phrase. -/
def printed (x : Phrase) : Text := inBrackets x x.printedBody

/-! ### Scanning -/

open Token

variable {x y l r : Phrase} {resolve : Resolver}

/-- The scanner finds tokens in a text, whatever follows that ends the last one. -/
def Scans (t : Text) (ts : List Token) : Prop :=
  ∀ rest, Ends rest → scan (t ++ rest) = ts ++ scan rest

theorem scans_word {w : Text} (hne : w ≠ []) (h : ∀ b ∈ w, isWordByte b = true) :
    Scans w [w] := fun _ hrest => scan_word hne h hrest

theorem scan_space (rest : Text) : scan ((" " : Text) ++ rest) = scan rest := scan_blank rest

theorem ends_space (rest : Text) : Ends ((" " : Text) ++ rest) := ends_cons (by decide) rest

theorem scan_open (rest : Text) : scan (("(" : Text) ++ rest) = ("(" : Text) :: scan rest :=
  scan_single (by decide) fun _ _ => by simp [pairs]

theorem scan_close (rest : Text) : scan ((")" : Text) ++ rest) = (")" : Text) :: scan rest :=
  scan_single (by decide) fun _ _ => by simp [pairs]

theorem ends_close (rest : Text) : Ends ((")" : Text) ++ rest) := ends_cons (by decide) rest

theorem scan_minus (rest : Text) : scan (("-" : Text) ++ rest) = ("-" : Text) :: scan rest :=
  scan_single (by decide) fun _ _ => by simp [pairs]

theorem scan_comma (rest : Text) : scan ((", " : Text) ++ rest) = ("," : Text) :: scan rest :=
  (scan_single (by decide) fun _ _ => by simp [pairs]).trans (congrArg _ (scan_space rest))

theorem scan_not (rest : Text) : scan (("not " : Text) ++ rest) = ("not" : Text) :: scan rest :=
  (scan_word (w := "not") (by decide) (List.all_eq_true.mp (by decide)) (ends_space rest)).trans
    (congrArg _ (scan_space rest))

theorem scan_like (rest : Text) : scan ((" like " : Text) ++ rest) = ("like" : Text) :: scan rest :=
  (scan_space _).trans
    ((scan_word (w := "like") (by decide) (List.all_eq_true.mp (by decide)) (ends_space rest)).trans
      (congrArg _ (scan_space rest)))

theorem scan_in (rest : Text) :
    scan ((" in (" : Text) ++ rest) = ("in" : Text) :: ("(" : Text) :: scan rest := by
  have hword := scan_word (w := "in") (by decide) (List.all_eq_true.mp (by decide))
    (ends_space (("(" : Text) ++ rest))
  rw [scan_space, scan_open] at hword
  exact (scan_space _).trans hword

theorem scan_call {w : Text} (hne : w ≠ []) (h : ∀ b ∈ w, isWordByte b = true) (rest : Text) :
    scan (w ++ (("(" : Text) ++ rest)) = w :: ("(" : Text) :: scan rest :=
  (scan_word hne h (ends_cons (by decide) rest)).trans (congrArg _ (scan_open rest))

/-- An operator between blanks is a token. -/
theorem scan_infix (i : Infix) (rest : Text) :
    scan (i.token ++ ((" " : Text) ++ rest)) = i.token :: scan rest := by
  rw [← scan_space rest]
  cases i with
  | multiply | divide | modulo | add | subtract | equal | greaterThan | lessThan =>
    refine scan_single (by decide) fun c hc => ?_
    cases hc
    decide
  | notEqual | greaterThanOrEqual | lessThanOrEqual => exact scan_pair (by decide) _
  | and | or => exact scan_word (by decide) (List.all_eq_true.mp (by decide)) (ends_space rest)

theorem Scans.inBrackets {t : Text} (h : Scans t x.body) :
    Scans (x.inBrackets t) (bracketed x x.body) := by
  unfold Phrase.inBrackets bracketed
  split
  · exact h
  · intro rest _
    rw [List.append_assoc, List.append_assoc, scan_open, h _ (ends_close rest), scan_close]
    simp

theorem scans_int (n : Int) : Scans (Text.ofInt n) (intTokens n) := by
  have hnat : ∀ n, Scans (Text.ofNat n) [Text.ofNat n] := by
    intro n
    refine scans_word (Text.ofNat_ne_nil n) fun b hb => ?_
    exact isWordByte_iff.mpr (Text.not_mem_of_test (by decide)
      (List.all_eq_true.mp (Text.all_isDigitByte_ofNat n) b hb))
  cases n with
  | ofNat n => exact hnat n
  | negSucc n =>
    intro rest hrest
    exact (scan_minus (Text.ofNat (n + 1) ++ rest)).trans (congrArg _ (hnat (n + 1) rest hrest))

theorem scan_ofInt (n : Int) : scan (Text.ofInt n) = intTokens n := by
  have h := scans_int n [] ends_nil
  have hend : scan [] = [] := rfl
  rwa [List.append_nil, hend, List.append_nil] at h

theorem scans_reference {p : Param} {rowName member : Text} (h : Means resolve p rowName member) :
    Scans (rowName ++ "." ++ member) [referenceToken rowName member] := by
  have hword := (not_point_of_isIdentifier h.isIdentifier).1
  have heq : rowName ++ "." ++ member = referenceToken rowName member := by
    rw [List.append_assoc]
    rfl
  rw [heq]
  refine scans_word (by simp [referenceToken]) fun b hb => ?_
  rcases List.mem_append.mp hb with hb | hb
  · exact hword b hb
  · rcases List.mem_cons.mp hb with rfl | hb
    · decide
    · exact h.isWord b hb

theorem ends_printedItems (xs : List Phrase) (rest : Text) :
    Ends (printedItems xs ++ ((")" : Text) ++ rest)) := by
  cases xs with
  | nil => exact ends_close rest
  | cons x xs =>
    rw [printedItems, List.append_assoc, List.append_assoc]
    exact ends_cons (by decide) _

mutual

/-- **The tokens of the text of a phrase.** -/
theorem scans_printedBody : (x : Phrase) → x.Valid (Means resolve) → Scans x.printedBody x.body
  | int n, _ => scans_int n
  | text t, _ => fun _ hrest => scan_quotedText t hrest
  | truth true, _ => scans_word (by decide) (List.all_eq_true.mp (by decide))
  | truth false, _ => scans_word (by decide) (List.all_eq_true.mp (by decide))
  | null, _ => scans_word (by decide) (List.all_eq_true.mp (by decide))
  | reference .., h => scans_reference h
  | opposite x, h => fun rest hrest => by
    have hx := (scans_printedBody x h.1).inBrackets
    rw [printedBody, List.append_assoc, scan_minus, hx rest hrest]
    rfl
  | denial x, h => fun rest hrest => by
    have hx := (scans_printedBody x h).inBrackets
    rw [printedBody, List.append_assoc, scan_not, hx rest hrest]
    rfl
  | joined i l r, h => fun rest hrest => by
    have hl := (scans_printedBody l h.1).inBrackets
    have hr := (scans_printedBody r h.2).inBrackets
    simp only [printedBody, List.append_assoc]
    rw [hl _ (ends_space _), scan_space, scan_infix, hr rest hrest]
    simp [body]
  | among x first more, h => fun rest _ => by
    have hx := (scans_printedBody x h.1).inBrackets
    have hfirst := (scans_printedBody first h.2.1).inBrackets
    have hmore := scans_printedItems more h.2.2 rest
    have hends : ∀ u, Ends ((" in (" : Text) ++ u) := fun u => ends_cons (by decide) _
    simp only [printedBody, List.append_assoc]
    rw [hx _ (hends _), scan_in, hfirst _ (ends_printedItems more rest), hmore]
    simp [body]
  | like x t, h => fun rest hrest => by
    have hx := (scans_printedBody x h).inBrackets
    have hpattern := scan_quotedText ("%" ++ t ++ "%") hrest
    have hends : ∀ u, Ends ((" like " : Text) ++ u) := fun u => ends_cons (by decide) _
    rw [printedBody, List.append_assoc, List.append_assoc, hx _ (hends _), scan_like, hpattern]
    simp [body, patternToken]
  | applied f x, h => fun rest _ => by
    have hx := (scans_printedBody x h).inBrackets
    have hname : f.name ≠ [] ∧ f.name.all isWordByte = true := by cases f <;> decide
    simp only [printedBody, List.append_assoc]
    rw [scan_call hname.1 (List.all_eq_true.mp hname.2), hx _ (ends_close rest), scan_close]
    simp [body]
  | countRows, _ => fun rest _ =>
    (scan_call (w := "count") (by decide) (List.all_eq_true.mp (by decide)) (")" ++ rest)).trans
      (congrArg (fun ts => ("count" : Text) :: ("(" : Text) :: ts) (scan_close rest))

theorem scans_printedItems : (xs : List Phrase) → AllValid (Means resolve) xs → ∀ rest,
    scan (printedItems xs ++ ((")" : Text) ++ rest)) = bodies xs ++ (")" : Text) :: scan rest
  | [], _ => fun rest => scan_close rest
  | x :: xs, h => fun rest => by
    have hx := (scans_printedBody x h.1).inBrackets
    have hxs := scans_printedItems xs h.2 rest
    simp only [printedItems, List.append_assoc]
    rw [scan_comma, hx _ (ends_printedItems xs rest), hxs]
    simp [bodies]

end

theorem scan_printed (h : x.Valid (Means resolve)) :
    scan x.printed = x.tokens ∧ scan x.printedBody = x.body := by
  have hall : ∀ t ts, Scans t ts → scan t = ts := by
    intro t ts ht
    have hscan := ht [] ends_nil
    rw [List.append_nil] at hscan
    exact hscan.trans (List.append_nil ts)
  have hbody := scans_printedBody x h
  exact ⟨hall _ _ hbody.inBrackets, hall _ _ hbody⟩

mutual

theorem Valid.mono {known known' : Param → Text → Text → Prop}
    (hknown : ∀ p rowName member, known p rowName member → known' p rowName member) :
    (x : Phrase) → x.Valid known → x.Valid known'
  | int _, h => h
  | text _, _ | truth _, _ | null, _ | countRows, _ => trivial
  | reference p rowName member, h => hknown p rowName member h
  | opposite x, h => ⟨Valid.mono hknown x h.1, h.2⟩
  | denial x, h | like x _, h | applied _ x, h => Valid.mono hknown x h
  | joined _ l r, h => ⟨Valid.mono hknown l h.1, Valid.mono hknown r h.2⟩
  | among x first more, h => ⟨Valid.mono hknown x h.1, Valid.mono hknown first h.2.1,
    AllValid.mono hknown more h.2.2⟩

theorem AllValid.mono {known known' : Param → Text → Text → Prop}
    (hknown : ∀ p rowName member, known p rowName member → known' p rowName member) :
    (xs : List Phrase) → AllValid known xs → AllValid known' xs
  | [], _ => trivial
  | x :: xs, h => ⟨Valid.mono hknown x h.1, AllValid.mono hknown xs h.2⟩

end

end Phrase

/-- **Reading back what can be written.** Let a phrase be made of integers of 64 bits other than the
least one, texts, truth values, null, references to members that the session knows, operators, tests
and calls. Its text, with brackets around every compound phrase in it, is read in the session as the
expression that the phrase stands for, whether or not it stands in brackets itself. -/
theorem parseText_printed (s : Session) (x : Phrase) (h : x.Valid s.Knows) :
    Grammar.parseText (some s.resolve) x.printed = .ok x.expr ∧
      Grammar.parseText (some s.resolve) x.printedBody = .ok x.expr := by
  have hvalid : x.Valid (Phrase.Means s.resolve) := Phrase.Valid.mono (fun _ _ _ => (·.means)) x h
  obtain ⟨hprinted, hbody⟩ := Phrase.scan_printed hvalid
  rw [Grammar.parseText, Grammar.parseText, hprinted, hbody]
  exact Phrase.parse_tokens hvalid

/-! ### Integers alone -/

/-- The tokens of an integer stand for it whatever names mean, except for the least integer: its
digits denote a number above all integers, and the sign comes too late. -/
theorem Token.value?_magnitude : Token.value? (Text.ofNat (2 ^ 63)) =
    some (.float false ⟨0x43e0000000000000⟩) := by
  have hquoted : Token.unquoted? (Text.ofNat (2 ^ 63)) = none := by decide +kernel
  have hint : Text.toInt64? (Text.ofNat (2 ^ 63)) = none := by decide +kernel
  have hread : Double.read? (Text.ofNat (2 ^ 63)) = some ⟨0x43e0000000000000⟩ := by
    decide +kernel
  simp only [Token.value?_of_not_mem_words (Token.toLower_ofNat_not_mem_words _), hquoted,
    Token.number?, hint, hread, Option.map_some]

/-- The text of the least integer. -/
theorem parseText_least (resolver : Option Resolver) :
    Grammar.parseText resolver (Text.ofInt (-(2 ^ 63))) =
      .ok (.value (.float false ⟨0xc3e0000000000000⟩)) := by
  rw [Grammar.parseText, Phrase.scan_ofInt]
  exact (Phrase.parse_value resolver (Phrase.isPlain_ofNat (2 ^ 63)) Token.value?_magnitude).2

/-- **An integer is read back from its digits, unless it is the least of its kind**, which is read
as the floating point number of this value. -/
theorem parseText_ofInt (resolver : Option Resolver) {n : Int} (hlow : -(2 ^ 63 : Int) ≤ n)
    (hhigh : n < 2 ^ 63) : Grammar.parseText resolver (Text.ofInt n) =
      .ok (.value (if n = -(2 ^ 63 : Int) then .float false ⟨0xc3e0000000000000⟩
        else .int .int64 n)) := by
  split
  · rename_i hleast
    rw [hleast]
    exact parseText_least resolver
  · rename_i hleast
    rw [Grammar.parseText, Phrase.scan_ofInt]
    cases n with
    | ofNat n =>
      rw [Int.ofNat_eq_natCast] at hhigh
      have hn : n < 2 ^ 63 := by omega
      exact (Phrase.parse_value resolver (Phrase.isPlain_ofNat n) (Token.value?_ofNat hn)).1
    | negSucc n =>
      have hn : n + 1 < 2 ^ 63 := by omega
      have hread := (Phrase.parse_value resolver (Phrase.isPlain_ofNat (n + 1))
        (Token.value?_ofNat hn)).2
      simp only [Grammar.negative, Expr.value, Phrase.wrap_negSucc hn] at hread
      exact hread

/-- The integers next to the ends of the range. -/
theorem parseText_ofInt_ends :
    (-(2 ^ 63 : Int) ≤ 1 - 2 ^ 63 ∧ (1 - 2 ^ 63 : Int) < 2 ^ 63) ∧
    Grammar.parseText none "-9223372036854775807" = .ok (.value (.int .int64 (1 - 2 ^ 63))) ∧
    (-(2 ^ 63 : Int) ≤ 2 ^ 63 - 1 ∧ (2 ^ 63 - 1 : Int) < 2 ^ 63) ∧
    Grammar.parseText none "9223372036854775807" = .ok (.value (.int .int64 (2 ^ 63 - 1))) := by
  have hlow := parseText_ofInt none (n := 1 - 2 ^ 63) (by decide) (by decide)
  have hhigh := parseText_ofInt none (n := 2 ^ 63 - 1) (by decide) (by decide)
  have hlowText : Text.ofInt (1 - 2 ^ 63) = ("-9223372036854775807" : Text) := by decide
  have hhighText : Text.ofInt (2 ^ 63 - 1) = ("9223372036854775807" : Text) := by decide
  rw [hlowText, if_neg (by decide)] at hlow
  rw [hhighText, if_neg (by decide)] at hhigh
  exact ⟨by decide, hlow, by decide, hhigh⟩

/-- **The least integer is not read back as an integer.** -/
theorem exists_int_read_as_float : ∃ n : Int, -(2 ^ 63 : Int) ≤ n ∧ n < 2 ^ 63 ∧
    Text.ofInt n = ("-9223372036854775808" : Text) ∧
    Grammar.parseText none (Text.ofInt n) ≠ .ok (.value (.int .int64 n)) := by
  refine ⟨-(2 ^ 63), by decide, by decide, by decide, fun h => ?_⟩
  rw [parseText_least] at h
  cases h

end Shell

open Sample Shell

namespace Sample

/-- The session in which customers are joined with their orders. -/
def joining : Session := (after (.new .sqlServer) ⟨[], [], []⟩ joined).1

/-- The fields of orders. -/
def orderFields : List FieldDef :=
  [⟨"id", "int", [], true, true, false⟩, ⟨"customer_id", "int", [], false, false, false⟩,
    ⟨"total", "float", [], false, false, false⟩]

/-- Orders, declared. -/
def orders : Declared where
  name := "order"
  table := "orders"
  type := .record [⟨"EntityMarker", .record [], "db:\"-\" entity:\"order\"", false, true⟩,
    ⟨"Id", .int .int64, "db:\"id,pk,auto\"", false, true⟩,
    ⟨"CustomerId", .int .int64, "db:\"customer_id\"", false, true⟩,
    ⟨"Total", .float false, "db:\"total\"", false, true⟩]
  members := ["Id", "CustomerId", "Total"]

/-- The row of an order. -/
def orderRow : Param := ⟨1, "o", some orders.type⟩

/-- That the customer of an order is none of two and the number of orders is not less than three. -/
def fewOrders : Phrase :=
  .joined .and
    (.denial (.among (.reference orderRow "o" "CustomerId") (.int (-7))
      [.opposite (.reference orderRow "o" "CustomerId")]))
    (.joined .or (.like (.text "it's") "'") (.joined .greaterThanOrEqual .countRows (.int 3)))

end Sample

/-- A condition on orders is read back. -/
theorem parseText_printed_orders : joining.Knows orderRow "o" "CustomerId" ∧
    fewOrders.printedBody = ("(not (o.CustomerId in (-7, (-o.CustomerId)))) and "
      ++ "(('it''s' like '%''%') or ((count()) >= 3))" : Text) ∧
    Grammar.parseText (some joining.resolve) fewOrders.printedBody = .ok fewOrders.expr := by
  have hknows : joining.Knows orderRow "o" "CustomerId" :=
    ⟨by decide +kernel, ⟨"order", [], orderFields⟩, orders, ⟨"customer_id", "int", [], false, false, false⟩,
      "customer_id".toList, by decide +kernel, by decide +kernel, by decide +kernel, by decide +kernel,
      by decide +kernel, by decide +kernel⟩
  exact ⟨hknows, by decide +kernel, (parseText_printed joining fewOrders ⟨⟨hknows,
    ⟨by decide +kernel, by decide +kernel⟩, ⟨hknows, nofun⟩, trivial⟩, trivial, trivial,
    by decide +kernel, by decide +kernel⟩).2⟩

end QueryTree
