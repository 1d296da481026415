import QueryTree.Text.Utf8

/-!
# Tokens of YAML documents

A document is read as a list of tokens. Indentation is made explicit: a block begins where a line
is indented more than the block around it, and ends where a line is indented less. A scalar, or a
collection in brackets, is the key of a mapping if a colon follows it on the same line; since that
is known only at the colon, the reader remembers where the last possible key began and puts the key
token, and the start of its block, in front of it afterwards.

Anchors, aliases, tags, directives and block scalars are not part of the documents read here.

## Main definitions

* `Token`, `Lexeme`, `Mark`: tokens and where they begin
* `SyntaxError`: why a text is no document
* `Scanner.run`: the tokens of a text, up to the first that is wrong
-/

namespace QueryTree.Yaml

/-- A place in a document, counted in characters from zero. -/
structure Mark where
  index : Nat
  line : Nat
  column : Nat
  deriving DecidableEq, Repr

/-- A token of a document. -/
inductive Token where
  | documentStart | documentEnd | streamEnd
  | blockSequenceStart | blockMappingStart | blockEnd
  | sequenceStart | sequenceEnd | mappingStart | mappingEnd
  | blockEntry | flowEntry | key | value
  | scalar (text : Text) (plain : Bool)
  deriving DecidableEq, Repr

/-- A token and the place where it begins. -/
structure Lexeme where
  token : Token
  mark : Mark
  deriving DecidableEq, Repr

/-- Why a text is no document. The line of what was being read counts before that of the problem,
unless it is the first. -/
structure SyntaxError where
  /-- Whether the problem is inside a token. -/
  inToken : Bool
  context : Mark
  place : Mark
  problem : Text
  deriving DecidableEq, Repr

/-- The message of a syntax error. -/
def SyntaxError.message (e : SyntaxError) : Text :=
  let line := if e.context.line ≠ 0 then e.context.line else e.place.line
  let shown := if e.inToken then line + 1 else line
  if line = 0 then e.problem else "line " ++ Text.ofString (toString shown) ++ ": " ++ e.problem

/-! ### Characters -/

/-- Whether the character is a space or a tab. -/
def isBlank (c : Char) : Bool := c == ' ' || c == '\t'

/-- Whether a list begins with a blank, a line break, or not at all. -/
def atGap : List Char → Bool
  | [] => true
  | c :: _ => isBlank c || c == '\n'

/-- Whether a list begins with three characters `c` that stand alone. -/
def atMarker (c : Char) : List Char → Bool
  | a :: b :: d :: rest => a == c && b == c && d == c && atGap rest
  | _ => false

/-- Characters that begin no plain scalar. -/
def indicators : List Char := "-?:,[]\x7b\x7d#&*!|>'\"%@\x60".toList

/-- Characters that separate the parts of a collection in brackets. -/
def flowIndicators : List Char := ",?[]\x7b\x7d".toList

/-! ### The scanner -/

/-- Where a key may have begun: before the token at position `token`. -/
structure PossibleKey where
  required : Bool
  token : Nat
  mark : Mark

/-- The state of the scanner. -/
structure Scanner where
  rest : List Char
  mark : Mark
  /-- The tokens so far, the last one first. -/
  tokens : List Lexeme
  /-- The possible keys of the collections in brackets around this place and of the block; the
  innermost is first. -/
  keys : List (Option PossibleKey)
  keyAllowed : Bool
  /-- The indentation of the block around this place, and of those around it. -/
  indent : Int
  indents : List Int

namespace Scanner

/-- The scanner at the beginning of a text. -/
def start (cs : List Char) : Scanner := ⟨cs, ⟨0, 0, 0⟩, [], [none], true, -1, []⟩

/-- Whether the place is outside all brackets. -/
def inBlock (s : Scanner) : Bool := s.keys.length ≤ 1

/-- The scanner after `n` characters, none of which is a line break. -/
def skip (s : Scanner) (n : Nat) : Scanner :=
  { s with
    rest := s.rest.drop n
    mark := ⟨s.mark.index + n, s.mark.line, s.mark.column + n⟩ }

/-- The scanner after a line break. -/
def skipLine (s : Scanner) : Scanner :=
  { s with rest := s.rest.drop 1, mark := ⟨s.mark.index + 1, s.mark.line + 1, 0⟩ }

/-- The error at the place of the scanner. -/
def error (s : Scanner) (context : Mark) (problem : Text) : SyntaxError :=
  ⟨true, context, s.mark, problem⟩

/-- The scanner with one more token, which begins here. -/
def add (s : Scanner) (t : Token) : Scanner := { s with tokens := ⟨t, s.mark⟩ :: s.tokens }

/-- The scanner with a token put before the token at position `i`. -/
def insertAt (s : Scanner) (i : Nat) (l : Lexeme) : Scanner :=
  let k := s.tokens.length - i
  { s with tokens := s.tokens.take k ++ l :: s.tokens.drop k }

/-- The key that may have begun in the innermost collection. It is none any more on the next line
or too far behind, and an error if it had to be one. -/
def possibleKey (s : Scanner) : Except SyntaxError (Option PossibleKey) :=
  match s.keys with
  | some k :: _ =>
    if k.mark.line < s.mark.line || k.mark.index + 1024 < s.mark.index then
      if k.required then .error (s.error k.mark "could not find expected ':'") else .ok none
    else .ok (some k)
  | _ => .ok none

/-- The scanner without a possible key in the innermost collection. -/
def dropKey (s : Scanner) : Except SyntaxError Scanner :=
  match s.keys with
  | some k :: keys =>
    if k.required then .error (s.error k.mark "could not find expected ':'")
    else .ok { s with keys := none :: keys }
  | _ => .ok s

/-- The scanner that remembers that a key may begin here. -/
def saveKey (s : Scanner) : Except SyntaxError Scanner :=
  if s.keyAllowed then do
    let s ← s.dropKey
    let key : PossibleKey :=
      ⟨s.inBlock && s.indent == s.mark.column, s.tokens.length, s.mark⟩
    return { s with keys := some key :: s.keys.drop 1 }
  else .ok s

/-- The scanner with a block begun at a column, if that is indented more than the block around
it; its token goes before the token at position `i`. -/
def beginBlock (s : Scanner) (column i : Nat) (t : Token) (mark : Mark) : Scanner :=
  if s.inBlock && s.indent < column then
    { s with indents := s.indent :: s.indents, indent := column }.insertAt i ⟨t, mark⟩
  else s

/-- The scanner with the blocks ended that are indented more than a column. -/
def endBlocks (column : Int) : List Int → Scanner → Scanner
  | [], s => s
  | outer :: indents, s =>
    if s.inBlock && column < s.indent then
      endBlocks column indents { s.add .blockEnd with indent := outer, indents := indents }
    else s

/-- The scanner with the blocks ended that are indented more than a column. -/
def closeBlocks (s : Scanner) (column : Int) : Scanner := endBlocks column s.indents s

/-- Skips blanks, comments and line breaks before the next token. A new line outside brackets may
begin with a key; tabs are no indentation. -/
def skipGap : (fuel : Nat) → Scanner → Scanner
  | 0, s => s
  | fuel + 1, s =>
    match s.rest with
    | [] => s
    | c :: _ =>
      if c == ' ' || (c == '\t' && (!s.inBlock || !s.keyAllowed)) then skipGap fuel (s.skip 1)
      else if c == '#' then skipGap fuel (s.skip (s.rest.takeWhile (· != '\n')).length)
      else if c == '\n' then
        let s := s.skipLine
        skipGap fuel (if s.inBlock then { s with keyAllowed := true } else s)
      else s

/-! ### Scalars -/

/-- The text that stands for line breaks inside a scalar: a single one is a space. -/
def folded (breaks : Nat) : List Char :=
  if breaks = 1 then [' '] else List.replicate (breaks - 1) '\n'

/-- Whether a plain scalar ends before the character. -/
def endsPlain (inBlock : Bool) : List Char → Bool
  | [] => true
  | c :: rest => isBlank c || c == '\n' || (c == ':' && atGap rest)
      || (!inBlock && flowIndicators.contains c)

/-- Reads a plain scalar. `text` is what has been read of it, the last character first, followed
by `gap`, the blanks, or `breaks`, the number of line breaks, since then. -/
def plain (first : Mark) : (fuel : Nat) → (text gap : List Char) → (breaks : Nat) → Scanner →
    Except SyntaxError (List Char × Bool × Scanner)
  | 0, text, _, breaks, s => .ok (text, breaks != 0, s)
  | fuel + 1, text, gap, breaks, s =>
    let ended : Except SyntaxError (List Char × Bool × Scanner) := .ok (text, breaks != 0, s)
    match s.rest with
    | [] => ended
    | c :: _ =>
      if c == '\n' then plain first fuel text [] (breaks + 1) s.skipLine
      else if isBlank c then
        if breaks = 0 then plain first fuel text (c :: gap) 0 (s.skip 1)
        else if c == '\t' && (s.mark.column : Int) < s.indent + 1 then
          .error (s.error first "found a tab character that violates indentation")
        else plain first fuel text [] breaks (s.skip 1)
      else if s.inBlock && breaks != 0 && (s.mark.column : Int) < s.indent + 1 then ended
      else if s.mark.column == 0 && (atMarker '-' s.rest || atMarker '.' s.rest) then ended
      else if c == '#' && (text.isEmpty || breaks != 0 || !gap.isEmpty) then ended
      else if endsPlain s.inBlock s.rest then ended
      else
        let text := if breaks = 0 then gap ++ text else (folded breaks).reverse ++ text
        plain first fuel (c :: text) [] 0 (s.skip 1)

/-- The character that a letter after a backslash stands for. -/
def escaped? (c : Char) : Option Char :=
  [('0', '\x00'), ('a', '\x07'), ('b', '\x08'), ('t', '\t'), ('\t', '\t'), ('n', '\n'),
    ('v', '\x0b'), ('f', '\x0c'), ('r', '\r'), ('e', '\x1b'), (' ', ' '), ('"', '"'),
    (Char.ofNat 39, Char.ofNat 39), ('/', '/'), ('\\', '\\'), ('N', '\u0085'), ('_', '\u00a0'),
    ('L', '\u2028'), ('P', '\u2029')].lookup c

/-- The number of hexadecimal digits after a letter that stands for a character by number. -/
def escapeWidth? (c : Char) : Option Nat := [('x', 2), ('u', 4), ('U', 8)].lookup c

/-- The value of hexadecimal digits. -/
def hexNumber? (cs : List Char) : Option Nat :=
  cs.foldlM (fun n c =>
    if c.isDigit then some (16 * n + (c.toNat - 48))
    else if 'a' ≤ c && c ≤ 'f' then some (16 * n + (c.toNat - 87))
    else if 'A' ≤ c && c ≤ 'F' then some (16 * n + (c.toNat - 55))
    else none) 0

/-- A character behind a backslash, and the number of characters it is written with. -/
def escape (s : Scanner) (first : Mark) : Except SyntaxError (Char × Nat) :=
  match s.rest with
  | _ :: c :: rest =>
    match escaped? c, escapeWidth? c with
    | some d, _ => .ok (d, 2)
    | none, some width =>
      match hexNumber? (rest.take width) with
      | some n =>
        if rest.length < width then
          .error (s.error first "did not find expected hexdecimal number")
        else if n.isValidChar then .ok (Char.ofNat n, 2 + width)
        else .error (s.error first "found invalid Unicode character escape code")
      | none => .error (s.error first "did not find expected hexdecimal number")
    | none, none => .error (s.error first "found unknown escape character")
  | _ => .error (s.error first "found unexpected end of stream")

/-- Reads a quoted scalar after its opening quote. Line breaks are folded as in plain scalars. -/
def quoted (single : Bool) (first : Mark) : (fuel : Nat) → (text gap : List Char) →
    (breaks : Nat) → Scanner → Except SyntaxError (List Char × Scanner)
  | 0, _, _, _, s => .error (s.error first "found unexpected end of stream")
  | fuel + 1, text, gap, breaks, s =>
    let joined := if breaks = 0 then gap ++ text else (folded breaks).reverse ++ text
    let quote := if single then Char.ofNat 39 else '"'
    match s.rest with
    | [] => .error (s.error first "found unexpected end of stream")
    | c :: rest =>
      if s.mark.column == 0 && (atMarker '-' s.rest || atMarker '.' s.rest) then
        .error (s.error first "found unexpected document indicator")
      else if c == '\n' then quoted single first fuel text [] (breaks + 1) s.skipLine
      else if isBlank c then
        quoted single first fuel text (if breaks = 0 then c :: gap else []) breaks (s.skip 1)
      else if c == quote then
        if single && rest.head? == some quote then
          quoted single first fuel (c :: joined) [] 0 (s.skip 2)
        else .ok (joined, s.skip 1)
      else if c == '\\' && !single then
        if rest.head? == some '\n' then
          let s := (s.skip 1).skipLine
          let blanks := (s.rest.takeWhile isBlank).length
          quoted single first fuel joined [] 0 (s.skip blanks)
        else
          match s.escape first with
          | .error e => .error e
          | .ok (d, n) => quoted single first fuel (d :: joined) [] 0 (s.skip n)
      else quoted single first fuel (c :: joined) [] 0 (s.skip 1)

/-! ### Tokens -/

/-- A character that is a token by itself. -/
def punctuation (s : Scanner) (t : Token) : Scanner := (s.add t).skip 1

/-- The beginning of a collection in brackets. -/
def flowStart (s : Scanner) (t : Token) : Except SyntaxError Scanner := do
  let s ← s.saveKey
  return { s.punctuation t with keys := none :: s.keys, keyAllowed := true }

/-- The end of a collection in brackets. -/
def flowEnd (s : Scanner) (t : Token) : Except SyntaxError Scanner := do
  let s ← s.dropKey
  let keys := if s.inBlock then s.keys else s.keys.drop 1
  return { s.punctuation t with keys, keyAllowed := false }

/-- The hyphen before an item of a block sequence. -/
def blockEntry (s : Scanner) : Except SyntaxError Scanner := do
  let s ← if !s.inBlock then .ok s
    else if !s.keyAllowed then
      .error (s.error s.mark "block sequence entries are not allowed in this context")
    else .ok (s.beginBlock s.mark.column s.tokens.length .blockSequenceStart s.mark)
  let s ← s.dropKey
  return { s.punctuation .blockEntry with keyAllowed := true }

/-- The question mark before a key. -/
def explicitKey (s : Scanner) : Except SyntaxError Scanner := do
  let s ← if !s.inBlock then .ok s
    else if !s.keyAllowed then
      .error (s.error s.mark "mapping keys are not allowed in this context")
    else .ok (s.beginBlock s.mark.column s.tokens.length .blockMappingStart s.mark)
  let s ← s.dropKey
  return { s.punctuation .key with keyAllowed := s.inBlock }

/-- The colon before a value. What stands before it may turn out to be its key. -/
def valueMark (s : Scanner) : Except SyntaxError Scanner := do
  match ← s.possibleKey with
  | some k =>
    let s := s.insertAt k.token ⟨.key, k.mark⟩
    let s := s.beginBlock k.mark.column k.token .blockMappingStart k.mark
    return { s.punctuation .value with keys := none :: s.keys.drop 1, keyAllowed := false }
  | none =>
    let s ← if !s.inBlock then .ok s
      else if !s.keyAllowed then
        .error (s.error s.mark "mapping values are not allowed in this context")
      else .ok (s.beginBlock s.mark.column s.tokens.length .blockMappingStart s.mark)
    return { s.punctuation .value with keys := none :: s.keys.drop 1, keyAllowed := s.inBlock }

/-- The hyphens or dots around documents. -/
def documentMark (s : Scanner) (t : Token) : Except SyntaxError Scanner := do
  let s ← (s.closeBlocks (-1)).dropKey
  return { (s.add t).skip 3 with keyAllowed := false }

/-- A plain scalar. -/
def plainScalar (s : Scanner) : Except SyntaxError Scanner := do
  let s ← s.saveKey
  let first := s.mark
  let (text, crossed, after) ← plain first (2 * s.rest.length) [] [] 0 s
  let l : Lexeme := ⟨.scalar (Text.ofChars text.reverse) true, first⟩
  return { after with tokens := l :: s.tokens, keyAllowed := crossed }

/-- A quoted scalar. -/
def quotedScalar (s : Scanner) (single : Bool) : Except SyntaxError Scanner := do
  let s ← s.saveKey
  let first := s.mark
  let (text, after) ← quoted single first (s.rest.length + 1) [] [] 0 (s.skip 1)
  let l : Lexeme := ⟨.scalar (Text.ofChars text.reverse) false, first⟩
  return { after with tokens := l :: s.tokens, keyAllowed := false }

/-- Reads the next token, which is not the end. -/
def next (s : Scanner) (c : Char) (rest : List Char) : Except SyntaxError Scanner :=
  let entry := atGap rest
  if s.mark.column == 0 && atMarker '-' s.rest then s.documentMark .documentStart
  else if s.mark.column == 0 && atMarker '.' s.rest then s.documentMark .documentEnd
  else if c == '[' then s.flowStart .sequenceStart
  else if c == '\x7b' then s.flowStart .mappingStart
  else if c == ']' then s.flowEnd .sequenceEnd
  else if c == '\x7d' then s.flowEnd .mappingEnd
  else if c == ',' then do
    let s ← s.dropKey
    return { s.punctuation .flowEntry with keyAllowed := true }
  else if c == '-' && entry then s.blockEntry
  else if c == '?' && (!s.inBlock || entry) then s.explicitKey
  else if c == ':' && (!s.inBlock || entry) then s.valueMark
  else if c.toNat == 39 then s.quotedScalar true
  else if c == '"' then s.quotedScalar false
  else if (!isBlank c && !indicators.contains c) || (c == '-' && !entry)
      || (s.inBlock && (c == '?' || c == ':') && !entry) then s.plainScalar
  else .error (s.error s.mark "found character that cannot start any token")

/-- Reads the end of the text, which counts as the beginning of a line. -/
def finish (s : Scanner) : Except SyntaxError Scanner := do
  let s := if s.mark.column = 0 then s
    else { s with mark := ⟨s.mark.index, s.mark.line + 1, 0⟩ }
  let s ← (s.closeBlocks (-1)).dropKey
  return s.add .streamEnd

/-- The scanner after the next token, and whether that is the end of the text. -/
def step (s : Scanner) : Except SyntaxError (Scanner × Bool) := do
  let s := skipGap s.rest.length s
  let key ← s.possibleKey
  let s := { s with keys := key :: s.keys.drop 1 }
  let s := s.closeBlocks s.mark.column
  match s.rest with
  | [] => return (← s.finish, true)
  | c :: rest => return (← s.next c rest, false)

/-- Reads all tokens, and leaves the scanner before the one that is wrong. Every step reads a
character, so there are no more steps than characters. -/
def loop : (fuel : Nat) → Scanner → Scanner × Option SyntaxError
  | 0, s => (s, none)
  | fuel + 1, s =>
    match s.step with
    | .ok (s, true) => (s, none)
    | .ok (s, false) => loop fuel s
    | .error e => (s, some e)

/-- The number of tokens that can be used if no more can be read. Two tokens are read ahead of the
one in use, and one that may be a key is held back until that is known. -/
def certain (s : Scanner) : Nat :=
  let held := s.keys.filterMap fun key => do
    let k ← key
    if k.required || k.mark.line == s.mark.line then some k.token else none
  held.foldl min (s.tokens.length - 2)

/-- The tokens of a text in order, and what is wrong after the last of them. -/
def run (cs : List Char) : List Lexeme × Option SyntaxError :=
  match loop (cs.length + 1) (start cs) with
  | (s, none) => (s.tokens.reverse, none)
  | (s, some e) => (s.tokens.reverse.take s.certain, some e)

end Scanner

end QueryTree.Yaml
