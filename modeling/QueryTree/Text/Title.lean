import QueryTree.Text.Class

/-!
# Title case

The first cased letter of every word in title case, everything else unchanged. Words end at
characters that belong to no word, malformed bytes included; a single mark such as an apostrophe, a
point or a colon does not end a word, two of them in a row do.
-/

namespace QueryTree.Text

/-- The title case of a character, sometimes several characters. -/
def titleChar (c : Char) : List Char :=
  match CaseTable.titleText.lookup c.toNat with
  | some cs => cs.map Char.ofNat
  | none =>
    match CaseTable.titleOnly.lookup c.toNat with
    | some n => [Char.ofNat n]
    | none => [CharClass.upper c]

/-- Marks that may stand inside a word. -/
def isWordMark (c : Char) : Bool :=
  [0x27, 0x2e, 0x3a, 0xb7, 0x387, 0x55f, 0x5f4, 0x2018, 0x2019, 0x2024, 0x2027, 0xfe13, 0xfe52,
    0xfe55, 0xff07, 0xff0e, 0xff1a].contains c.toNat

/-- Letters of scripts that are not written in words: ideographs, kana and the scripts of
south-east Asia. -/
def isWordless (c : Char) : Bool :=
  let n := c.toNat
  (0xe00 ≤ n && n ≤ 0xeff) || (0x1000 ≤ n && n ≤ 0x109f) || (0x1780 ≤ n && n ≤ 0x17ff)
    || (0x3005 ≤ n && n ≤ 0x3007) || (0x3041 ≤ n && n ≤ 0x309f) || (0x3400 ≤ n && n ≤ 0x4dbf)
    || (0x4e00 ≤ n && n ≤ 0x9fff) || (0xf900 ≤ n && n ≤ 0xfaff) || (0x20000 ≤ n && n ≤ 0x323af)

/-- Combining marks and joiners, which never end a word. -/
def isWordExtension (c : Char) : Bool :=
  let n := c.toNat
  (0x300 ≤ n && n ≤ 0x36f) || n == 0xad || n == 0x200c || n == 0x200d
    || (0x1ab0 ≤ n && n ≤ 0x1aff) || (0x1dc0 ≤ n && n ≤ 0x1dff) || (0x20d0 ≤ n && n ≤ 0x20ff)
    || (0xfe00 ≤ n && n ≤ 0xfe0f) || (0xfe20 ≤ n && n ≤ 0xfe2f)

/-- Whether the character ends a word. -/
def endsWord (c : Char) : Bool :=
  !(isWordMark c || isWordExtension c || CharClass.isDigit c || c == '_' || c.toNat == 0x203f
    || c.toNat == 0x2040 || (CharClass.isLetter c && !isWordless c))

/-- The runes in title case; `inWord` tells whether a word has begun, `afterMark` whether the last
rune was a mark. -/
def titleFrom : (inWord afterMark : Bool) → List Rune → Text
  | _, _, [] => []
  | _, _, .stray b :: rest => b :: titleFrom false false rest
  | inWord, afterMark, .char c :: rest =>
    let inWord := inWord && !(afterMark && isWordMark c)
    if CharClass.isCased c then
      (if inWord then ofChar c else ofChars (titleChar c)) ++ titleFrom true false rest
    else
      ofChar c ++ titleFrom (inWord && !endsWord c) (isWordMark c) rest

/-- The text with the first cased letter of every word in title case. -/
def title (t : Text) : Text := titleFrom false false t.runes

/-- The parts between underscores and hyphens, in title case and put together. -/
def exported (t : Text) : Text :=
  let isJoint : Rune → Bool := fun r => r = .char '_' || r = .char '-'
  (splitRunes isJoint t.runes).flatMap fun part => titleFrom false false part

end QueryTree.Text
