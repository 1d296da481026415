/-!
# Texts

A text is a sequence of bytes. Nearly every text is well formed UTF-8, but offsets count bytes and
a text may be cut anywhere, so the byte, and not the character, is the unit of this library.
String literals coerce to their UTF-8 bytes.

## Main definitions

* `Text`, `Text.ofString`, `byte`: texts, literals and single ASCII bytes
* `Text.hasPrefix`, `Text.hasSuffix`, `Text.trimSuffix`: tests and cuts at the ends
* `Text.splitByte`, `Text.join`, `Text.sort`: lists of texts
* `Text.double`, `Text.undouble`: a byte written twice
* `Text.indexOf?`, `Text.contains`: search
-/

namespace QueryTree

/-- A sequence of bytes, usually UTF-8. -/
abbrev Text := List UInt8

/-- The byte of an ASCII character. -/
abbrev byte (c : Char) : UInt8 := c.toNat.toUInt8

namespace Text

/-- The UTF-8 bytes of a string. -/
def ofString (s : String) : Text := s.toUTF8.data.toList

instance : Coe String Text := ⟨ofString⟩

instance : Inhabited Text := ⟨[]⟩

/-! ### Ends -/

/-- Whether `t` starts with `p`. -/
def hasPrefix (t p : Text) : Bool := p.isPrefixOf t

/-- Whether `t` ends with `p`. -/
def hasSuffix (t p : Text) : Bool := p.isSuffixOf t

/-- `t` without a leading `p`, if it starts with one. -/
def trimPrefix (t p : Text) : Text := if hasPrefix t p then t.drop p.length else t

/-- `t` without a trailing `p`, if it ends with one. -/
def trimSuffix (t p : Text) : Text :=
  if hasSuffix t p then t.take (t.length - p.length) else t

/-- `t` without its trailing bytes that satisfy `f`. -/
def dropEndWhile (f : UInt8 → Bool) (t : Text) : Text := (t.reverse.dropWhile f).reverse

@[simp]
theorem hasSuffix_append (p t : Text) : hasSuffix (t ++ p) p = true := by
  simp [hasSuffix, List.isSuffixOf_iff_suffix]

@[simp]
theorem trimSuffix_append (p t : Text) : trimSuffix (t ++ p) p = t := by
  simp [trimSuffix]

/-! ### Parts -/

/-- The parts of `t` between the bytes `b`; there is always at least one part. -/
def splitByte (b : UInt8) : Text → List Text
  | [] => [[]]
  | c :: rest =>
    if c = b then [] :: splitByte b rest
    else match splitByte b rest with
      | [] => [[c]]
      | part :: parts => (c :: part) :: parts

/-- The parts in order, with `sep` between neighbours. -/
def join (sep : Text) (parts : List Text) : Text := sep.intercalate parts

/-- Whether the first text comes before the second, or equals it, in the order of their bytes. -/
def byteLe : Text → Text → Bool
  | [], _ => true
  | _ :: _, [] => false
  | a :: s, b :: t => decide (a < b) || (a == b && byteLe s t)

/-- The texts in the order of their bytes. -/
def sort (ts : List Text) : List Text := ts.mergeSort byteLe

/-- `n` copies of the byte `b`. -/
def replicateByte (n : Nat) (b : UInt8) : Text := List.replicate n b

/-! ### Doubling -/

/-- Every byte `b` written twice, all others once. -/
def double (b : UInt8) : Text → Text
  | [] => []
  | c :: rest => if c = b then b :: b :: double b rest else c :: double b rest

/-- Every pair of neighbouring bytes `b`, read from the left, written once. -/
def undouble (b : UInt8) : Text → Text
  | [] => []
  | [c] => [c]
  | c :: d :: rest =>
    if c = b ∧ d = b then b :: undouble b rest else c :: undouble b (d :: rest)

/-! ### Search -/

/-- The offset of the first place where `p` starts inside `t`. -/
def indexOf? : (t p : Text) → Option Nat
  | [], p => if p.isEmpty then some 0 else none
  | c :: rest, p => if hasPrefix (c :: rest) p then some 0 else (indexOf? rest p).map (· + 1)

/-- Whether `p` occurs in `t`. -/
def contains (t p : Text) : Bool := (indexOf? t p).isSome

/-- What stands after the last byte that satisfies `f`; all of `t` if none does. -/
def afterLast (f : UInt8 → Bool) (t : Text) : Text := (t.reverse.takeWhile (!f ·)).reverse

/-- The text before and the text after the first byte `b`, if there is one. -/
def cut? (b : UInt8) (t : Text) : Option (Text × Text) :=
  match t.span (· != b) with
  | (_, []) => none
  | (before, _ :: after) => some (before, after)

/-! ### ASCII -/

/-- Whether the byte is an ASCII digit. -/
def isDigitByte (b : UInt8) : Bool := 48 ≤ b && b ≤ 57

/-- Whether the byte is an ASCII letter. -/
def isLetterByte (b : UInt8) : Bool := (65 ≤ b && b ≤ 90) || (97 ≤ b && b ≤ 122)

/-- The lower case of an ASCII letter; every other byte is kept. -/
def lowerByte (b : UInt8) : UInt8 := if 65 ≤ b && b ≤ 90 then b + 32 else b

/-- Whether two texts are equal up to the case of ASCII letters. -/
def equalIgnoringCase (s t : Text) : Bool := s.map lowerByte == t.map lowerByte

end Text

end QueryTree
