import QueryTree.Dialect.Basic
import QueryTree.Sql.Quoting

/-!
# Profiles

The fixed fragments in which the dialects differ: how texts are concatenated, how rows are
inserted, how results are paged, how a truth value is tested, how names are quoted and how bound
parameters are marked.

## Main definitions

* `Profile`, `Dialect.profile`
* `Profile.concatAll`, `Profile.likeContains`, `likeStartsWith`, `likeEndsWith`, `Profile.trim`
* `Profile.page`: the paging tail of a query
-/

namespace QueryTree

/-- How texts are concatenated: with plus signs, with a function, or with pipes. -/
inductive ConcatStyle where
  | plus | function | pipes
  deriving DecidableEq, Repr

/-- How several rows are inserted: as a list of rows, or as a union of selections. -/
inductive InsertStyle where
  | values | selectDual
  deriving DecidableEq, Repr

/-- How a result is paged: with a limit and an offset, or with an offset and a fetch. -/
inductive PagingStyle where
  | limit | fetch
  deriving DecidableEq, Repr

/-- How the bound parameters are marked: by question marks or by numbered marks. -/
inductive MarkerStyle where
  | question
  | numbered (lead : String)
  deriving DecidableEq, Repr

/-- The fixed fragments of a dialect. -/
structure Profile where
  dialect : Dialect
  concat : ConcatStyle
  insert : InsertStyle
  paging : PagingStyle
  /-- What follows a truth column used as a condition. -/
  truthTest : Text
  /-- What separates a table from its alias. -/
  aliasKeyword : Text
  /-- The function that counts the characters of a text. -/
  lengthFunction : Text
  /-- Whether both ends are trimmed by two nested functions. -/
  nestedTrim : Bool
  /-- Whether paging needs an order. -/
  pagingNeedsOrder : Bool
  /-- Whether a backslash escapes inside string literals. -/
  backslashEscapes : Bool
  quoteIdent : Text → Text
  marker : MarkerStyle

/-- The profile of a dialect. -/
def Dialect.profile : Dialect → Profile
  | .sqlServer =>
    { dialect := .sqlServer, concat := .plus, insert := .values, paging := .fetch
      truthTest := " = 1", aliasKeyword := " AS ", lengthFunction := "LEN"
      nestedTrim := true, pagingNeedsOrder := true, backslashEscapes := false
      quoteIdent := Sql.bracket, marker := .numbered "@p" }
  | .mySql =>
    { dialect := .mySql, concat := .function, insert := .values, paging := .limit
      truthTest := " IS TRUE", aliasKeyword := " AS ", lengthFunction := "LENGTH"
      nestedTrim := false, pagingNeedsOrder := false, backslashEscapes := true
      quoteIdent := Sql.backtick, marker := .question }
  | .postgres =>
    { dialect := .postgres, concat := .function, insert := .values, paging := .limit
      truthTest := " IS TRUE", aliasKeyword := " AS ", lengthFunction := "LENGTH"
      nestedTrim := false, pagingNeedsOrder := false, backslashEscapes := false
      quoteIdent := Sql.doubleQuote, marker := .numbered "$" }
  | .oracle =>
    { dialect := .oracle, concat := .pipes, insert := .selectDual, paging := .fetch
      truthTest := " = 1", aliasKeyword := " ", lengthFunction := "LENGTH"
      nestedTrim := false, pagingNeedsOrder := false, backslashEscapes := false
      quoteIdent := Sql.doubleQuote, marker := .numbered ":" }
  | .sqlite =>
    { dialect := .sqlite, concat := .pipes, insert := .values, paging := .limit
      truthTest := " = 1", aliasKeyword := " AS ", lengthFunction := "LENGTH"
      nestedTrim := false, pagingNeedsOrder := false, backslashEscapes := false
      quoteIdent := Sql.doubleQuote, marker := .question }

namespace Profile

/-- The mark of the `i`-th bound parameter, counted from one. -/
def placeholder (p : Profile) (i : Int) : Text :=
  match p.marker with
  | .question => "?"
  | .numbered lead => lead ++ Text.ofInt i

/-- Whether truth literals are written as words. -/
def truthWords (p : Profile) : Bool := p.truthTest = (" IS TRUE" : Text)

/-- The concatenation of rendered operands. -/
def concatAll (p : Profile) (parts : List Text) : Text :=
  match p.concat with
  | .function => "CONCAT(" ++ Text.join "," parts ++ ")"
  | .pipes => Text.join " || " parts
  | .plus => Text.join " + " parts

/-- The pattern that matches `t` anywhere. -/
def likeContains (p : Profile) (t : Text) : Text := p.concatAll ["'%'", t, "'%'"]

/-- The pattern that matches `t` at the start. -/
def likeStartsWith (p : Profile) (t : Text) : Text := p.concatAll [t, "'%'"]

/-- The pattern that matches `t` at the end. -/
def likeEndsWith (p : Profile) (t : Text) : Text := p.concatAll ["'%'", t]

/-- `t` trimmed at both ends. -/
def trim (p : Profile) (t : Text) : Text :=
  if p.nestedTrim then "LTRIM(RTRIM(" ++ t ++ "))" else "TRIM(" ++ t ++ ")"

/-- The limit that permits an offset without bounding the rows. -/
def noLimit (p : Profile) : Text :=
  match p.dialect with
  | .mySql => "LIMIT 18446744073709551615"
  | .sqlite => "LIMIT -1"
  | _ => "LIMIT ALL"

/-- The paging tail for a limit and an offset. A negative limit is none; an offset that is not
positive is left out where the syntax allows. -/
def page (p : Profile) (limit offset : Int) : Text :=
  match p.paging with
  | .fetch =>
    "OFFSET " ++ Text.ofInt (max offset 0) ++ " ROWS" ++
      if limit ≥ 0 then " FETCH NEXT " ++ Text.ofInt limit ++ " ROWS ONLY" else []
  | .limit =>
    let bound : Text := if limit ≥ 0 then "LIMIT " ++ Text.ofInt limit
      else if offset > 0 then p.noLimit else []
    if offset > 0 then bound ++ " OFFSET " ++ Text.ofInt offset else bound

end Profile

end QueryTree
