import QueryTree.Text.Quoted
import QueryTree.Type.Basic

/-!
# Printed types

The text of a type as it appears in messages and labels: named types by their qualified names,
unnamed records with all their fields and quoted tags.
-/

namespace QueryTree.Ty

mutual

/-- The text of a type. -/
def text : Ty → Text
  | any => "interface \x7b\x7d"
  | bool => "bool"
  | string => "string"
  | int k => k.name
  | float single => if single then "float32" else "float64"
  | time => "time.Time"
  | ptr t => "*" ++ t.text
  | slice t => "[]" ++ t.text
  | array n t => "[" ++ Text.ofNat n ++ "]" ++ t.text
  | map k t => "map[" ++ k.text ++ "]" ++ t.text
  | record [] => "struct \x7b\x7d"
  | record (f :: fs) => "struct \x7b " ++ fieldsText (f :: fs) ++ " \x7d"
  | named n _ => n.package ++ "." ++ n.name

/-- The fields of an unnamed record with semicolons between them. -/
def fieldsText : List (Field Ty) → Text
  | [] => ""
  | ⟨name, type, tag, embedded, _⟩ :: fs =>
    let head := if embedded then type.text else name ++ " " ++ type.text
    let tagged := if tag.isEmpty then head else head ++ " " ++ tag.quoted
    match fs with
    | [] => tagged
    | _ :: _ => tagged ++ "; " ++ fieldsText fs

end

/-- The text of a type that may be unknown. -/
def textOrNil : Option Ty → Text
  | some t => t.text
  | none => "<nil>"

end QueryTree.Ty
