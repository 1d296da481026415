import QueryTree.Yaml.Token

/-!
# YAML documents as trees

The tree of the first document of a text. Nodes know the line on which they begin.

## Main definitions

* `Node`: scalars, sequences and mappings
* `Node.read`: the first document of a text, if there is one
-/

namespace QueryTree.Yaml

/-- A part of a document, with its line from one. -/
inductive Node where
  | scalar (line : Nat) (text : Text) (plain : Bool)
  | sequence (line : Nat) (items : List Node)
  | mapping (line : Nat) (entries : List (Node × Node))

namespace Node

/-- The line on which a node begins. -/
def line : Node → Nat
  | scalar line _ _ | sequence line _ | mapping line _ => line

/-- The node of a value that is not written. -/
def missing (m : Mark) : Node := scalar (m.line + 1) [] true

/-- The tokens that are left, and what is wrong after the last of them. -/
structure Source where
  lexemes : List Lexeme
  failure : Option SyntaxError

/-- The next token. -/
def Source.peek (s : Source) : Except SyntaxError Lexeme :=
  match s.lexemes, s.failure with
  | l :: _, _ => .ok l
  | [], some e => .error e
  | [], none => .ok ⟨.streamEnd, ⟨0, 0, 0⟩⟩

/-- The tokens after the next one. -/
def Source.drop (s : Source) : Source := { s with lexemes := s.lexemes.drop 1 }

/-- The error that a token is not what must stand there, in something that begins at a mark. -/
def unexpected (context : Mark) (l : Lexeme) (problem : Text) : SyntaxError :=
  ⟨false, context, l.mark, problem⟩

/-- Reads a node, unless one of some tokens shows that it is not written. -/
def optional (stops : List Token) (at_ : Mark) (node : Source → Except SyntaxError (Node × Source))
    (s : Source) : Except SyntaxError (Node × Source) := do
  let l ← s.peek
  if stops.contains l.token then return (missing at_, s) else node s

mutual

/-- Reads a node. `block` allows blocks, and `indentless` sequences that are not indented. -/
def node : (fuel : Nat) → (block indentless : Bool) → Source →
    Except SyntaxError (Node × Source)
  | 0, _, _, s => do
    let l ← s.peek
    .error (unexpected l.mark l "did not find expected node content")
  | fuel + 1, block, indentless, s => do
    let l ← s.peek
    let line := l.mark.line + 1
    match l.token with
    | .scalar text plain => return (scalar line text plain, s.drop)
    | .sequenceStart => do
      let (items, s) ← flowItems fuel l.mark true s.drop
      return (sequence line items, s)
    | .mappingStart => do
      let (entries, s) ← flowEntries fuel l.mark true s.drop
      return (mapping line entries, s)
    | .blockSequenceStart =>
      if block then do
        let (items, s) ← blockItems fuel l.mark s.drop
        return (sequence line items, s)
      else .error (unexpected l.mark l "did not find expected node content")
    | .blockMappingStart =>
      if block then do
        let (entries, s) ← blockEntries fuel l.mark s.drop
        return (mapping line entries, s)
      else .error (unexpected l.mark l "did not find expected node content")
    | .blockEntry =>
      if indentless then do
        let (items, s) ← indentlessItems fuel s
        return (sequence line items, s)
      else .error (unexpected l.mark l "did not find expected node content")
    | _ => .error (unexpected l.mark l "did not find expected node content")

/-- Reads the items of a block sequence and its end. -/
def blockItems : (fuel : Nat) → (context : Mark) → Source →
    Except SyntaxError (List Node × Source)
  | 0, _, s => .ok ([], s)
  | fuel + 1, context, s => do
    let l ← s.peek
    match l.token with
    | .blockEntry => do
      let (item, s) ← optional [.blockEntry, .blockEnd] l.mark (node fuel true false) s.drop
      let (items, s) ← blockItems fuel context s
      return (item :: items, s)
    | .blockEnd => return ([], s.drop)
    | _ => .error (unexpected context l "did not find expected '-' indicator")

/-- Reads the items of a sequence that is not indented. -/
def indentlessItems : (fuel : Nat) → Source → Except SyntaxError (List Node × Source)
  | 0, s => .ok ([], s)
  | fuel + 1, s => do
    let l ← s.peek
    if l.token = .blockEntry then do
      let stops := [.blockEntry, .key, .value, .blockEnd]
      let (item, s) ← optional stops l.mark (node fuel true false) s.drop
      let (items, s) ← indentlessItems fuel s
      return (item :: items, s)
    else return ([], s)

/-- Reads the value of a key of a block mapping. -/
def blockValue : (fuel : Nat) → Source → Except SyntaxError (Node × Source)
  | 0, s => .ok (missing ⟨0, 0, 0⟩, s)
  | fuel + 1, s => do
    let l ← s.peek
    if l.token = .value then
      optional [.key, .value, .blockEnd] l.mark (node fuel true true) s.drop
    else return (missing l.mark, s)

/-- Reads the entries of a block mapping and its end. -/
def blockEntries : (fuel : Nat) → (context : Mark) → Source →
    Except SyntaxError (List (Node × Node) × Source)
  | 0, _, s => .ok ([], s)
  | fuel + 1, context, s => do
    let l ← s.peek
    match l.token with
    | .key => do
      let (k, s) ← optional [.key, .value, .blockEnd] l.mark (node fuel true true) s.drop
      let (v, s) ← blockValue fuel s
      let (entries, s) ← blockEntries fuel context s
      return ((k, v) :: entries, s)
    | .blockEnd => return ([], s.drop)
    | _ => .error (unexpected context l "did not find expected key")

/-- Reads the items of a sequence in brackets and its end. -/
def flowItems : (fuel : Nat) → (context : Mark) → (first : Bool) → Source →
    Except SyntaxError (List Node × Source)
  | 0, _, _, s => .ok ([], s)
  | fuel + 1, context, first, s => do
    let l ← s.peek
    if l.token = .sequenceEnd then return ([], s.drop)
    else if !first && l.token ≠ .flowEntry then
      .error (unexpected context l "did not find expected ',' or ']'")
    else
      let s := if first then s else s.drop
      let l ← s.peek
      match l.token with
      | .sequenceEnd => return ([], s.drop)
      | .key => do
        let stops := [.value, .flowEntry, .sequenceEnd]
        let (k, s) ← optional stops l.mark (node fuel false false) s.drop
        let (v, s) ← flowValue fuel .sequenceEnd s
        let (items, s) ← flowItems fuel context false s
        return (mapping (l.mark.line + 1) [(k, v)] :: items, s)
      | _ => do
        let (item, s) ← node fuel false false s
        let (items, s) ← flowItems fuel context false s
        return (item :: items, s)

/-- Reads the value of a key inside brackets that end with a token. -/
def flowValue : (fuel : Nat) → (closer : Token) → Source → Except SyntaxError (Node × Source)
  | 0, _, s => .ok (missing ⟨0, 0, 0⟩, s)
  | fuel + 1, closer, s => do
    let l ← s.peek
    if l.token = .value then
      optional [.flowEntry, closer] l.mark (node fuel false false) s.drop
    else return (missing l.mark, s)

/-- Reads the entries of a mapping in brackets and its end. -/
def flowEntries : (fuel : Nat) → (context : Mark) → (first : Bool) → Source →
    Except SyntaxError (List (Node × Node) × Source)
  | 0, _, _, s => .ok ([], s)
  | fuel + 1, context, first, s => do
    let l ← s.peek
    if l.token = .mappingEnd then return ([], s.drop)
    else if !first && l.token ≠ .flowEntry then
      .error (unexpected context l "did not find expected ',' or '\x7d'")
    else
      let s := if first then s else s.drop
      let l ← s.peek
      match l.token with
      | .mappingEnd => return ([], s.drop)
      | .key => do
        let stops := [.value, .flowEntry, .mappingEnd]
        let (k, s) ← optional stops l.mark (node fuel false false) s.drop
        let (v, s) ← flowValue fuel .mappingEnd s
        let (entries, s) ← flowEntries fuel context false s
        return ((k, v) :: entries, s)
      | _ => do
        let (k, s) ← node fuel false false s
        let end_ ← s.peek
        let (entries, s) ← flowEntries fuel context false s
        return ((k, missing end_.mark) :: entries, s)

end

/-- Whether a character may stand in a document. -/
def isAllowed (c : Char) : Bool :=
  let n := c.toNat
  n == 9 || n == 10 || n == 13 || (0x20 ≤ n && n ≤ 0x7e) || n == 0x85 || (0xa0 ≤ n && n ≤ 0xd7ff)
    || (0xe000 ≤ n && n ≤ 0xfffd && n != 0xfeff) || 0x10000 ≤ n

/-- A text with one kind of line break. -/
def normalized : List Char → List Char
  | [] => []
  | ['\r'] => ['\n']
  | '\r' :: '\n' :: rest => '\n' :: normalized rest
  | '\r' :: c :: rest => '\n' :: normalized (c :: rest)
  | c :: rest => c :: normalized rest

/-- Reads the document that tokens begin with, if there is one. -/
def document (s : Source) : Except SyntaxError (Option Node) := do
  let s := { s with lexemes := s.lexemes.dropWhile fun l => l.token = Token.documentEnd }
  let fuel := 4 * s.lexemes.length + 4
  let l ← s.peek
  match l.token with
  | .streamEnd => return none
  | .documentStart => do
    let (n, s) ← optional [.documentStart, .documentEnd, .streamEnd] l.mark (node fuel true false)
      s.drop
    let _ ← s.peek
    return some n
  | _ => do
    let (n, s) ← node fuel true false s
    let _ ← s.peek
    return some n

/-- The first document of a text, if there is one; the message of a problem names its line. -/
def read (t : Text) : Except Text (Option Node) :=
  let cs := t.chars
  let cs := if cs.head? = some '\ufeff' then cs.drop 1 else cs
  if !cs.all isAllowed then .error "control characters are not allowed"
  else
    let (lexemes, failure) := Scanner.run (normalized cs)
    (document ⟨lexemes, failure⟩).mapError SyntaxError.message

end Node

end QueryTree.Yaml
