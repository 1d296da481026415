import QueryTree.Text.Class
import QueryTree.Type.Basic

/-!
# Record types from field lists

Not every list of fields is a record type: names are identifiers that do not begin with a small
letter or an underscore, and no two are the same.

## Main definitions

* `Ty.isFieldName`
* `Ty.recordOf?`: the record type of a field list, if it is one
-/

namespace QueryTree.Ty

/-- Whether the rune can begin an identifier. -/
def isNameLetter : Rune → Bool
  | .char c => c == '_' || CharClass.isLetter c
  | .stray _ => false

/-- Whether the rune can continue an identifier. -/
def isNameRune (r : Rune) : Bool :=
  isNameLetter r || match r with
    | .char c => CharClass.isDigit c
    | .stray _ => false

/-- Whether the text is an identifier. -/
def isIdentifier (t : Text) : Bool :=
  match t.runes with
  | [] => false
  | r :: rs => isNameLetter r && rs.all isNameRune

/-- Whether the text can name a field that everyone may read. -/
def isFieldName (t : Text) : Bool :=
  isIdentifier t && !(t.head?.any fun b => (97 ≤ b && b ≤ 122) || b == byte '_')

/-- The record type of fields with tags, unless a name is not allowed or used twice. -/
def recordOf? (fields : List (Text × Ty × Text)) : Option Ty :=
  let names := fields.map (·.1)
  if names.all isFieldName && decide names.Nodup then
    some (.record (fields.map fun (n, t, g) => ⟨n, t, g, false, true⟩))
  else none

end QueryTree.Ty
