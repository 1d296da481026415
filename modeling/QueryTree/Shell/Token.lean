import QueryTree.Text.Class

/-!
# Tokens of the command language

A line of the command language is a list of tokens: texts in single quotes, brackets, commas,
operators, and words, which are whatever lies between them. Spaces and tabs separate tokens and
are part of none, except inside quotes. The scanner reads one byte at a time and carries the part
of a token that it has read; it looks ahead one byte, for doubled quotes and for operators of two
bytes.

## Main definitions

* `Token.scan`: the tokens of a text
* `Token.splitCommas`, `Token.indexOf?`: lists of tokens outside brackets
* `Token.lastWord`: the word that is being typed
-/

namespace QueryTree.Shell

/-- A piece of a command, with its quotes if it is a quoted text. -/
abbrev Token := Text

namespace Token

/-- The quote that encloses texts. -/
def quote : UInt8 := 39

/-- Whether the byte separates tokens. -/
def isBlankByte (b : UInt8) : Bool := b == byte ' ' || b == byte '\t'

/-- Whether the byte is a token by itself, unless it begins an operator of two bytes. -/
def isSingle (b : UInt8) : Bool := List.elem b (Text.ofString "(),=><+-*/%")

/-- The operators of two bytes. -/
def pairs : List (UInt8 × UInt8) :=
  [(byte '!', byte '='), (byte '<', byte '>'), (byte '<', byte '='), (byte '>', byte '=')]

/-- A word that has ended, unless nothing of it has been read. -/
def ended (word : Text) : List Token := if word.isEmpty then [] else [word]

/-- The tokens of a text that follows `word`, which is the start of a quoted text or of a word. -/
def scanFrom : (quoted : Bool) → (word : Text) → Text → List Token
  | _, word, [] => ended word
  | true, word, [b] => ended (word ++ [b])
  | true, word, b :: c :: rest =>
    if b = quote then
      if c = quote then scanFrom true (word ++ [b, c]) rest
      else (word ++ [b]) :: scanFrom false [] (c :: rest)
    else scanFrom true (word ++ [b]) (c :: rest)
  | false, word, [b] =>
    if b = quote then ended word ++ [[b]]
    else if isSingle b then ended word ++ [[b]]
    else if isBlankByte b then ended word
    else [word ++ [b]]
  | false, word, b :: c :: rest =>
    if b = quote then ended word ++ scanFrom true [b] (c :: rest)
    else if pairs.contains (b, c) then ended word ++ [b, c] :: scanFrom false [] rest
    else if isSingle b then ended word ++ [b] :: scanFrom false [] (c :: rest)
    else if isBlankByte b then ended word ++ scanFrom false [] (c :: rest)
    else scanFrom false (word ++ [b]) (c :: rest)

/-- The tokens of a text. -/
def scan (t : Text) : List Token := scanFrom false [] t

/-- How deep in brackets one is after a token. -/
def depthAfter (depth : Int) (t : Token) : Int :=
  if t = ("(" : Text) then depth + 1 else if t = (")" : Text) then depth - 1 else depth

/-- The parts between the commas outside brackets; `part` is what has been read of the first. An
empty part after the last comma is left out. -/
def splitFrom : (depth : Int) → (part : List Token) → List Token → List (List Token)
  | _, part, [] => if part.isEmpty then [] else [part]
  | depth, part, t :: rest =>
    if t = ("," : Text) && depth == 0 then part :: splitFrom depth [] rest
    else splitFrom (depthAfter depth t) (part ++ [t]) rest

/-- The parts between the commas outside brackets. -/
def splitCommas (ts : List Token) : List (List Token) := splitFrom 0 [] ts

/-- The position of the first token outside brackets that is `word` up to case. -/
def indexFrom? (word : Text) : (depth : Int) → List Token → Option Nat
  | _, [] => none
  | depth, t :: rest =>
    if t ≠ ("(" : Text) && t ≠ (")" : Text) && depth == 0 && t.equalFold word then some 0
    else (indexFrom? word (depthAfter depth t) rest).map (· + 1)

/-- The position of the first token outside brackets that is `word` up to case. -/
def indexOf? (ts : List Token) (word : Text) : Option Nat := indexFrom? word 0 ts

/-- The word at the end of a line, after any space, comma or opening bracket. -/
def lastWord (line : Text) : Text :=
  line.afterLast fun b => b == byte ' ' || b == byte ',' || b == byte '('

end Token

end QueryTree.Shell
