import QueryTree.Text.LetterTable
import QueryTree.Text.PrintTable
import QueryTree.Text.CaseTable
import QueryTree.Text.Utf8

/-!
# Character classes and case

Classes of characters by property, the one-to-one case maps, and the operations on texts that use
them. Blanks are the white space characters of the standard; case maps never change the number of
characters, title case of a single letter apart.

## Main definitions

* `CharClass.isUpper`, `isLower`, `isLetter`, `isDigit`, `isCased`, `isSpace`, `isPrint`
* `CharClass.upper`, `CharClass.lower`, `CharClass.foldKey`: case maps on characters
* `Text.toLower`, `Text.toUpper`, `Text.equalFold`: case on texts
* `Text.trimSpace`, `Text.fields`: blanks
-/

namespace QueryTree

namespace CharClass

/-- Whether `n` lies in one of the runs. -/
def inRuns (table : List (Nat × Nat × Nat)) (n : Nat) : Bool :=
  table.any fun (first, last, step) => first ≤ n && n ≤ last && (n - first) % step == 0

/-- Whether the character is an upper case letter. -/
def isUpper (c : Char) : Bool :=
  if c.toNat < 0x80 then 'A' ≤ c && c ≤ 'Z' else inRuns Text.LetterTable.upper c.toNat

/-- Whether the character is a lower case letter. -/
def isLower (c : Char) : Bool :=
  if c.toNat < 0x80 then 'a' ≤ c && c ≤ 'z' else inRuns Text.LetterTable.lower c.toNat

/-- Whether the character is a letter. -/
def isLetter (c : Char) : Bool := inRuns Text.LetterTable.letter c.toNat

/-- Whether the character is a decimal digit. -/
def isDigit (c : Char) : Bool :=
  if c.toNat < 0x80 then '0' ≤ c && c ≤ '9' else inRuns Text.LetterTable.digit c.toNat

/-- Whether the character has a case. -/
def isCased (c : Char) : Bool := inRuns Text.LetterTable.cased c.toNat

/-- Whether the character is a blank. -/
def isSpace (c : Char) : Bool :=
  let n := c.toNat
  (9 ≤ n && n ≤ 13) || n == 32 || n == 0x85 || n == 0xa0 || n == 0x1680
    || (0x2000 ≤ n && n ≤ 0x200a) || n == 0x2028 || n == 0x2029 || n == 0x202f || n == 0x205f
    || n == 0x3000

/-- Whether the character is written as it is inside a quoted text. -/
def isPrint (c : Char) : Bool :=
  Text.PrintTable.printable.any fun (first, last) => first ≤ c.toNat && c.toNat ≤ last

/-- The character that a table of case runs maps `c` to. -/
def mapRuns (table : List (Nat × Nat × Nat × Nat)) (c : Char) : Char :=
  let n := c.toNat
  match table.find? fun (first, last, step, _) =>
      first ≤ n && n ≤ last && (n - first) % step == 0 with
  | some (first, _, _, target) => Char.ofNat (target + (n - first))
  | none => c

/-- The upper case of a character. -/
def upper (c : Char) : Char :=
  if c.toNat < 0x80 then c.toUpper else mapRuns Text.CaseTable.toUpper c

/-- The lower case of a character. -/
def lower (c : Char) : Char :=
  if c.toNat < 0x80 then c.toLower else mapRuns Text.CaseTable.toLower c

/-- A key that two characters share exactly when they are case variants of each other. The
dotted and the dotless i have no variants. -/
def foldKey (c : Char) : Char :=
  if c.toNat == 0x130 || c.toNat == 0x131 then c else lower (upper c)

end CharClass

namespace Text

open CharClass

/-- The text in lower case. -/
def toLower (t : Text) : Text := if t.isAscii then t.map lowerByte else t.mapChars lower

/-- The text in upper case. -/
def toUpper (t : Text) : Text := t.mapChars upper

/-- Whether two texts are equal up to case variants of their characters. -/
def equalFold (s t : Text) : Bool := s.chars.map foldKey == t.chars.map foldKey

/-- Whether the rune is a blank. -/
def isBlank : Rune → Bool
  | .char c => isSpace c
  | .stray _ => false

/-- The text without its leading blanks. -/
def trimStart (t : Text) : Text := ofRunes (t.runes.dropWhile isBlank)

/-- The text without its trailing blanks. -/
def trimEnd (t : Text) : Text := ofRunes (t.runes.reverse.dropWhile isBlank).reverse

/-- The text without leading and trailing blanks. -/
def trimSpace (t : Text) : Text := trimEnd (trimStart t)

/-- The runs of runes for which `sep` fails, in order. -/
def splitRunes (sep : Rune → Bool) (rs : List Rune) : List (List Rune) :=
  let step := fun (r : Rune) ((cur, done) : List Rune × List (List Rune)) =>
    if sep r then ([], if cur.isEmpty then done else cur :: done) else (r :: cur, done)
  let (cur, done) := rs.foldr step ([], [])
  if cur.isEmpty then done else cur :: done

/-- The non-blank words of a text. -/
def fields (t : Text) : List Text := (splitRunes isBlank t.runes).map ofRunes

/-- The text with blanks appended until it has `n` runes. -/
def padRight (n : Nat) (t : Text) : Text := t ++ replicateByte (n - t.runeCount) 32

end Text

end QueryTree
