import QueryTree.Dsn.Escape
import QueryTree.Text.Class

/-!
# URLs

The parts of a URL that name a database: a scheme, a user with a password, a host, a path and a
query.

## Main definitions

* `Url`, `Url.parse?`
* `Url.masked`: the URL with its password hidden
* `postgres`: the URL of a database from its parts
-/

namespace QueryTree.Dsn

/-- A user and, if there is one, a password. -/
structure UserInfo where
  name : Text
  password : Option Text
  deriving DecidableEq, Repr

/-- The parts of a URL. -/
structure Url where
  scheme : Text
  user : Option UserInfo
  host : Text
  path : Text
  query : Text
  deriving DecidableEq, Repr

namespace Url

/-- Whether the byte can continue a scheme. -/
def isSchemeByte (b : UInt8) : Bool :=
  Text.isLetterByte b || Text.isDigitByte b || List.elem b (Text.ofString "+-.")

/-- The scheme in front of a colon and what follows it; an empty scheme if there is none. A colon
in front of everything is an error. -/
def splitScheme? (t : Text) : Option (Text × Text) :=
  let scheme := t.takeWhile isSchemeByte
  match t.head?, t.drop scheme.length with
  | some first, next :: rest =>
    if next ≠ byte ':' then some ([], t)
    else if scheme.isEmpty then none
    else if Text.isLetterByte first then some (scheme.map Text.lowerByte, rest)
    else some ([], t)
  | _, _ => some ([], t)

/-- Whether the character can stand in user information. -/
def isUserInfoByte (b : UInt8) : Bool :=
  Text.isLetterByte b || Text.isDigitByte b || List.elem b (Text.ofString "-._:~!$&'()*+,;=%@")

/-- Whether the text is empty or a colon and digits. -/
def isPort : Text → Bool
  | [] => true
  | b :: digits => b = byte ':' && digits.all Text.isDigitByte

/-- The host, with its port. A host in square brackets is an address. -/
def host? (t : Text) : Option Text :=
  let port : Text := if t.elem (byte '[') then
      if t.elem (byte ']') then t.afterLast (· == byte ']') else "]"
    else if t.elem (byte ':') then byte ':' :: t.afterLast (· == byte ':')
    else []
  if isPort port then Part.host.unescape? t else none

/-- The user in front of a host. -/
def userInfo? (t : Text) : Option UserInfo :=
  if !t.all isUserInfoByte then none
  else match t.cut? (byte ':') with
    | none => do return ⟨← Part.userInfo.unescape? t, none⟩
    | some (name, password) => do
      return ⟨← Part.userInfo.unescape? name, some (← Part.userInfo.unescape? password)⟩

/-- The user and host of an authority. -/
def authority? (t : Text) : Option (Option UserInfo × Text) :=
  if t.elem (byte '@') then do
    let after := t.afterLast (· == byte '@')
    let user ← userInfo? (t.take (t.length - after.length - 1))
    return (some user, ← host? after)
  else do return (none, ← host? t)

/-- The text before and after the first byte `b`; all of it and nothing if there is none. -/
def splitAt (b : UInt8) (t : Text) : Text × Text := (t.cut? b).getD (t, [])

/-- The parts of a URL. What follows a scheme without a slash is opaque and has no parts. -/
def parse? (t : Text) : Option Url := do
  let (t, fragment) := splitAt (byte '#') t
  let _ ← Part.path.unescape? fragment
  if t.any fun b => b < 0x20 || b == 0x7f then none
  let (scheme, rest) ← splitScheme? t
  let (rest, query) := splitAt (byte '?') rest
  if rest.head? ≠ some (byte '/') then
    if !scheme.isEmpty then return ⟨scheme, none, [], [], query⟩
    if (splitAt (byte '/') rest).1.elem (byte ':') then none
  if rest.hasPrefix "//" && (!scheme.isEmpty || !rest.hasPrefix "///") then
    let authority := (rest.drop 2).takeWhile (· != byte '/')
    let (user, host) ← authority? authority
    return ⟨scheme, user, host, ← Part.path.unescape? (rest.drop (2 + authority.length)), query⟩
  else return ⟨scheme, none, [], ← Part.path.unescape? rest, query⟩

/-- The URL with its password hidden, if it has one. -/
def masked? (u : Url) (user : UserInfo) : Option Text :=
  if user.password.isNone then none
  else
    let query : Text := if u.query.isEmpty then "" else "?" ++ u.query
    some (u.scheme ++ "://" ++ user.name ++ ":****@" ++ u.host ++ u.path ++ query)

end Url

/-- The URL of a database from its parts. An empty password is left out. -/
def postgres (user password host port database sslMode : Text) : Text :=
  let secret : Text := if password.isEmpty then "" else ":" ++ Part.userInfo.escape password
  "postgres://" ++ Part.userInfo.escape user ++ secret ++ "@"
    ++ Part.host.escape (host ++ ":" ++ port)
    ++ Part.path.escape ("/" ++ database) ++ "?sslmode=" ++ sslMode

end QueryTree.Dsn
