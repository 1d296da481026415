import QueryTree.Dsn.Duration
import QueryTree.Dsn.Url

/-!
# Database names of MySQL

MySQL databases are named `user:password@network(address)/database?parameters`. Such a name is read
from its last slash; the parameters that are known are checked, and printed in a fixed order when
they differ from what they are by default.

## Main definitions

* `Config`, `Config.parse`, `Config.text`
* `mySql`: the name of a database from its parts
* `masked`: a name with its password hidden
-/

namespace QueryTree.Dsn

/-- What the value of a parameter is. -/
inductive ParamKind where
  | flag (default : Bool)
  | plain
  | escaped
  | duration
  | size (default : Int)
  | location
  | encryption
  /-- A name that nothing is registered under. -/
  | unknownName

/-- The known parameters in the order in which they are printed. -/
def knownParams : List (Text × ParamKind) :=
  [("allowAllFiles", .flag false), ("allowCleartextPasswords", .flag false),
    ("allowFallbackToPlaintext", .flag false), ("allowNativePasswords", .flag true),
    ("allowOldPasswords", .flag false), ("checkConnLiveness", .flag true),
    ("clientFoundRows", .flag false), ("charset", .plain), ("collation", .plain),
    ("columnsWithAlias", .flag false), ("connectionAttributes", .escaped),
    ("compress", .flag false), ("interpolateParams", .flag false), ("loc", .location),
    ("multiStatements", .flag false), ("parseTime", .flag false), ("timeTruncate", .duration),
    ("readTimeout", .duration), ("rejectReadOnly", .flag false), ("serverPubKey", .unknownName),
    ("timeout", .duration), ("tls", .encryption), ("writeTimeout", .duration),
    ("maxAllowedPacket", .size 67108864)]

/-- The truth value that a parameter is given. -/
def readFlag? (t : Text) : Option Bool :=
  let words : List (Text × Bool) := [("1", true), ("true", true), ("TRUE", true), ("True", true),
    ("0", false), ("false", false), ("FALSE", false), ("False", false)]
  words.lookup t

/-- The text of a truth value. -/
def flagText (b : Bool) : Text := if b then "true" else "false"

/-- How a parameter is printed: not at all if it is what it is by default. The outer result is none
if the value is not allowed. -/
def ParamKind.normal? (k : ParamKind) (t : Text) : Option (Option Text) :=
  match k with
  | flag default => (readFlag? t).map fun b => if b = default then none else some (flagText b)
  | plain => some (if t.isEmpty then none else some t)
  | escaped => (Part.query.unescape? t).map fun v =>
    if v.isEmpty then none else some (Part.query.escape v)
  | duration => (Duration.read? t).map fun n =>
    if n ≤ 0 then none else some (Duration.text n.toNat)
  | size default => t.toInt64?.map fun n => if n = default then none else some (Text.ofInt n)
  | location => (Part.query.unescape? t).map fun v =>
    if v.isEmpty || v = ("UTC" : Text) then none else some (Part.query.escape v)
  | encryption =>
    match readFlag? t with
    | some b => some (some (flagText b))
    | none =>
      let word := t.toLower
      if word = ("skip-verify" : Text) || word = ("preferred" : Text) then some (some word)
      else none
  | unknownName => none

/-- The parts of the name of a database. -/
structure Config where
  user : Text
  password : Text
  network : Text
  address : Text
  database : Text
  /-- The known parameters that are given, as they are printed if they are. -/
  known : List (Text × Option Text)
  other : List (Text × Text)

/-- Why a name is refused. -/
inductive ConfigError where
  | unescaped
  | address
  | noSlash
  | other
  deriving DecidableEq, Repr

/-- The message of a refusal. -/
def ConfigError.message : ConfigError → Text
  | unescaped => "invalid DSN: did you forget to escape a param value?"
  | address => "invalid DSN: network address not terminated (missing closing brace)"
  | noSlash => "invalid DSN: missing the slash separating the database name"
  | other => "invalid DSN"

namespace Config

/-- The name with nothing in it. -/
def empty : Config := ⟨[], [], [], [], [], [], []⟩

/-- The name with one more parameter; later values replace earlier ones. -/
def addParam (c : Config) (param : Text) : Option Config :=
  match param.cut? (byte '=') with
  | none => some c
  | some (name, value) =>
    match knownParams.lookup name with
    | some kind => do
      let v ← kind.normal? value
      return { c with known := (name, v) :: c.known }
    | none => do
      let v ← Part.query.unescape? value
      return { c with other := (name, v) :: c.other.filter fun p => p.1 ≠ name }

/-- The user and password in front of the last `@`. -/
def addUser (c : Config) (t : Text) : Config :=
  match t.cut? (byte ':') with
  | some (user, password) => { c with user, password }
  | none => { c with user := t }

/-- The network and the address in brackets behind it. -/
def addNetwork (c : Config) (t : Text) : Except ConfigError Config :=
  match t.cut? (byte '(') with
  | none => .ok { c with network := t }
  | some (network, rest) =>
    if rest.getLast? = some (byte ')') then .ok { c with network, address := rest.dropLast }
    else if rest.elem (byte ')') then .error .unescaped
    else .error .address

/-- Whether an address holds a port. -/
def hasPort (t : Text) : Bool :=
  let port := t.afterLast (· == byte ':')
  let host := t.take (t.length - port.length - 1)
  let inner : Text := if host.head? = some (byte '[') && host.getLast? = some (byte ']')
    then (host.drop 1).dropLast else host
  let bracketed := inner.length ≠ host.length
  t.elem (byte ':') && !List.elem (byte '[') (inner ++ port)
    && !List.elem (byte ']') (inner ++ port)
    && (bracketed || !host.elem (byte ':'))

/-- The address with the usual port if it has none. -/
def withPort (t : Text) : Text :=
  if hasPort t then t
  else if t.elem (byte ':') then "[" ++ t ++ "]:3306"
  else t ++ ":3306"

/-- The name with the usual network and address where they are missing. -/
def normalized (c : Config) : Except ConfigError Config :=
  let network : Text := if c.network.isEmpty then "tcp" else c.network
  let tcp := network = ("tcp" : Text)
  if c.address.isEmpty then
    if tcp then .ok { c with network, address := "127.0.0.1:3306" }
    else if network = ("unix" : Text) then .ok { c with network, address := "/tmp/mysql.sock" }
    else .error .other
  else .ok { c with network, address := if tcp then withPort c.address else c.address }

/-- The parts of a name. -/
def parse (t : Text) : Except ConfigError Config := do
  if t.isEmpty then normalized empty
  else if !t.elem (byte '/') then .error .noSlash
  else
    let right := t.afterLast (· == byte '/')
    let left : Text := t.take (t.length - right.length - 1)
    let place := left.afterLast (· == byte '@')
    let c := if left.elem (byte '@') then empty.addUser (left.take (left.length - place.length - 1))
      else empty
    let c ← c.addNetwork place
    let (database, params) := Url.splitAt (byte '?') right
    match (params.splitByte (byte '&')).foldlM addParam c, Part.segment.unescape? database with
    | some c, some database => normalized { c with database }
    | _, _ => .error .other

/-- The parameters that are printed. -/
def params (c : Config) : List (Text × Text) :=
  let known := knownParams.filterMap fun (name, _) =>
    (c.known.lookup name).join.map fun v => (name, v)
  let others := (Text.sort (c.other.map (·.1))).filterMap fun name =>
    (c.other.lookup name).map fun v => (name, Part.query.escape v)
  known ++ others

/-- The name with all of its parts. A password without a user is left out. -/
def text (c : Config) : Text :=
  let secret : Text := if c.password.isEmpty then "" else ":" ++ c.password
  let user : Text := if c.user.isEmpty then "" else c.user ++ secret ++ "@"
  let address : Text := if c.address.isEmpty then "" else "(" ++ c.address ++ ")"
  let place : Text := if c.network.isEmpty then "" else c.network ++ address
  let params := Text.join "&" (c.params.map fun (name, v) => name ++ "=" ++ v)
  user ++ place ++ "/" ++ Part.segment.escape c.database
    ++ (if params.isEmpty then "" else "?" ++ params : Text)

end Config

/-- The name of a database from its parts. -/
def mySql (user password host port database : Text) : Text :=
  Config.text ⟨user, password, "tcp", host ++ ":" ++ port, database, [], []⟩

/-- The name of a database with its password hidden, if it is a URL or a name of MySQL. -/
def masked (t : Text) : Text :=
  match (Url.parse? t).bind fun u => if u.scheme.isEmpty then none else u.user.map (u, ·) with
  | some (u, user) => (u.masked? user).getD t
  | none =>
    if !t.elem (byte '@') then t
    else match Config.parse t with
      | .ok c => if c.password.isEmpty then t else Config.text { c with password := "****" }
      | .error _ => t

end QueryTree.Dsn
