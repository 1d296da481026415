import QueryTree.Text.Basic

/-!
# Characters of a text

`Text.runes` reads a text as UTF-8 without losing anything: a byte that starts no well formed
sequence is a rune of its own. Character by character operations are maps over the runes.

## Main definitions

* `Rune`, `Text.runes`, `Text.ofRunes`: the lossless view
* `Text.mapChars`: a character map; a malformed byte becomes U+FFFD
* `Text.runeCount`: the number of runes
* `Text.toString`: the text as a string, with U+FFFD for each malformed byte
-/

namespace QueryTree

/-- One element of a text read as UTF-8: a character, or a byte that belongs to none. -/
inductive Rune where
  | char (c : Char)
  | stray (b : UInt8)
  deriving DecidableEq, Repr

/-- The character that stands in for a malformed byte. -/
def replacementChar : Char := '\ufffd'

/-- The UTF-8 bytes of a character. -/
def Text.ofChar (c : Char) : Text := String.utf8EncodeChar c

/-- The bytes a rune was read from. -/
def Rune.bytes : Rune → Text
  | .char c => Text.ofChar c
  | .stray b => [b]

/-- The character of a rune, U+FFFD for a malformed byte. -/
def Rune.toChar : Rune → Char
  | .char c => c
  | .stray _ => replacementChar

namespace Text

/-- Whether a byte continues a multi-byte sequence. -/
def isContinuation (b : UInt8) : Bool := b &&& 0xc0 == 0x80

/-- The low six bits of a continuation byte. -/
def continuationBits (b : UInt8) : Nat := (b &&& 0x3f).toNat

/-- The character that starts with the lead byte `b`, and how many bytes after `b` it takes.
Overlong forms, surrogates and code points past U+10FFFF are malformed. -/
def leadingChar? (b : UInt8) (rest : Text) : Option (Char × Nat) :=
  if b < 0x80 then some (Char.ofNat b.toNat, 0)
  else if b < 0xc2 then none
  else if b < 0xe0 then
    match rest with
    | c :: _ =>
      if isContinuation c then
        some (Char.ofNat ((b &&& 0x1f).toNat * 64 + continuationBits c), 1)
      else none
    | _ => none
  else if b < 0xf0 then
    match rest with
    | c :: d :: _ =>
      let n := (b &&& 0x0f).toNat * 4096 + continuationBits c * 64 + continuationBits d
      if isContinuation c && isContinuation d && 0x800 ≤ n && (n < 0xd800 || 0xdfff < n) then
        some (Char.ofNat n, 2)
      else none
    | _ => none
  else if b < 0xf5 then
    match rest with
    | c :: d :: e :: _ =>
      let n := (b &&& 0x07).toNat * 262144 + continuationBits c * 4096
        + continuationBits d * 64 + continuationBits e
      if isContinuation c && isContinuation d && isContinuation e
          && 0x10000 ≤ n && n ≤ 0x10ffff then
        some (Char.ofNat n, 3)
      else none
    | _ => none
  else none

/-- The runes of a text after its first `skip` bytes. -/
def runesFrom : (skip : Nat) → Text → List Rune
  | _, [] => []
  | k + 1, _ :: rest => runesFrom k rest
  | 0, b :: rest =>
    match leadingChar? b rest with
    | some (c, width) => .char c :: runesFrom width rest
    | none => .stray b :: runesFrom 0 rest

/-- The runes of a text. -/
def runes (t : Text) : List Rune := runesFrom 0 t

/-- The text of a list of runes. -/
def ofRunes (rs : List Rune) : Text := rs.flatMap Rune.bytes

/-- The UTF-8 text of a list of characters. -/
def ofChars (cs : List Char) : Text := cs.flatMap ofChar

/-- The characters of a text, U+FFFD for each malformed byte. -/
def chars (t : Text) : List Char := t.runes.map Rune.toChar

/-- The number of runes of a text. -/
def runeCount (t : Text) : Nat := t.runes.length

/-- The text with every character mapped by `f`; a malformed byte becomes U+FFFD. -/
def mapChars (f : Char → Char) (t : Text) : Text := ofChars (t.chars.map f)

/-- The text as a string, with U+FFFD for each malformed byte. -/
def toString (t : Text) : String := String.ofList t.chars

/-- Whether every byte is ASCII. -/
def isAscii (t : Text) : Bool := t.all (· < 0x80)

end Text

end QueryTree
