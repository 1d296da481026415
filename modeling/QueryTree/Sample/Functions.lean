import QueryTree.Expr.Eval
import QueryTree.Sample.Types
import QueryTree.Value.Clock

/-!
# Sample functions

Functions and methods to call in sample expressions: functions on texts and numbers, some that
fail or yield nothing, and the methods of the sample types.

## Main definitions

* `Sample.functions`, `Sample.methods`
* `Sample.world`: the prelude that declares them
-/

namespace QueryTree.Sample

/-- The member of a record; nil if there is none. -/
def memberOf (v : Value) (name : Text) : Value :=
  match v.member name with
  | .ok x => x
  | .error _ => .nil

/-- The number a value holds; zero if it is none. -/
def number : Value → Int
  | .int _ n => n
  | .named _ v => number v
  | _ => 0

/-- The text a value holds; empty if it is none. -/
def text : Value → Text
  | .string t => t
  | _ => []

/-- The value of a number, wrapped to 64 bits. -/
def numeric (n : Int) : Value := .int .int (IntKind.int.wrap n)

/-- The sum of numbers. -/
def total (vs : List Value) : Int := vs.foldl (fun n v => n + number v) 0

/-- A function of one text. -/
def onText (f : Text → Value) (result : Ty) : Function :=
  ⟨[.string], none, some result, fun vs => .ok (f (text (vs.headD .nil)))⟩

/-- A test of two texts. -/
def onTexts (f : Text → Text → Bool) : Function :=
  ⟨[.string, .string], none, some .bool, fun vs =>
    .ok (.bool (f (text (vs.headD .nil)) (text (vs.tail.headD .nil))))⟩

/-- A text repeated; a negative count faults. -/
def repeated : Function :=
  ⟨[.string, .int .int], none, some .string, fun vs =>
    let n := number (vs.tail.headD .nil)
    if n < 0 then .fault
    else .ok (.string (List.replicate n.toNat (text (vs.headD .nil))).flatten)⟩

/-- Half of a floating point number. -/
def half : Function :=
  ⟨[.float false], none, some (.float false), fun vs => match vs with
    | [.float _ x] => .ok (.float false (Double.ofFloat (x.toFloat / 2)))
    | _ => .ok .nil⟩

/-- The sample functions by name. -/
def functions : List (Text × Callee) :=
  let int : Ty := .int .int
  [("strings.Repeat", .function repeated),
    ("strings.ToUpper", .function (onText (fun t => .string t.toUpper) .string)),
    ("strings.HasPrefix", .function (onTexts Text.hasPrefix)),
    ("strings.HasSuffix", .function (onTexts Text.hasSuffix)),
    ("strings.TrimSpace", .function (onText (fun t => .string t.trimSpace) .string)),
    ("add", .function ⟨[int, int], none, some int, fun vs => .ok (numeric (total vs))⟩),
    ("sumAll", .function ⟨[int], some int, some int, fun vs => .ok (numeric (total vs))⟩),
    ("half", .function half),
    ("fail", .function ⟨[], none, some int, fun _ => .fail "static failure"⟩),
    ("okErr", .function (onText (fun t => .string (t ++ "!")) .string)),
    ("nothing", .function ⟨[], none, none, fun _ => .ok .nil⟩),
    ("isNil", .function ⟨[.ptr .string], none, some .bool, fun vs =>
      .ok (.bool (vs.headD .nil).isNil)⟩),
    ("notFunc", .other int)]

/-- The written form of a color. -/
def colorText (v : Value) : Text := "color-'" ++ Text.ofInt (number v) ++ "'"

/-- What a text that may be null hands to a database. -/
def storedText (v : Value) : Value :=
  match memberOf v "Valid" with
  | .bool true => memberOf v "String"
  | _ => .nil

/-- A point with both members multiplied. -/
def scaled (p : Value) (k : Int) : Value :=
  match p with
  | .named n (.record fs [a, b]) =>
    .named n (.record fs [numeric (number a * k), numeric (number b * k)])
  | v => v

/-- The sum of the members of a point. -/
def pointSum (p : Value) : Int := number (memberOf p "A") + number (memberOf p "B")

/-- The methods of the sample types: receiver type, name, and what it does to its receiver. -/
def methods : List (Ty × Text × (Value → Function)) :=
  let int : Ty := .int .int
  let constant := fun (t : Text) (_ : Value) =>
    (⟨[], none, some .string, fun _ => .ok (.string t)⟩ : Function)
  [(point, "Sum", fun p => ⟨[], none, some int, fun _ => .ok (numeric (pointSum p))⟩),
    (point, "Scale", fun p => ⟨[int], none, some point, fun vs => .ok (scaled p (total vs))⟩),
    (point, "PtrSum", fun p =>
      ⟨[int], none, some int, fun vs => .ok (numeric (pointSum p + total vs))⟩),
    (point, "Fail", fun _ => ⟨[], none, some int, fun _ => .fail "point failed"⟩),
    (point, "Ok", fun p => ⟨[], none, some int, fun _ => .ok (memberOf p "A")⟩),
    (point, "Nothing", fun _ => ⟨[], none, none, fun _ => .ok .nil⟩),
    (point, "AddAll", fun p =>
      ⟨[], some int, some int, fun vs => .ok (numeric (number (memberOf p "A") + total vs))⟩),
    (legacy, "TableName", constant "tbl_legacy"),
    (pointerNamed, "TableName", constant "tbl_pointer"),
    (filter, "Upper", fun v =>
      ⟨[], none, some .string, fun _ => .ok (.string (text (memberOf v "Name")).toUpper)⟩),
    (color, "String", fun v => constant (colorText v) v),
    (nullString, "Value", fun v => ⟨[], none, some .any, fun _ => .ok (storedText v)⟩),
    (nullString, "Scan", fun _ => ⟨[.any], none, some .any, fun _ => .ok .nil⟩)]

/-- Whether the method of a type can be called through a nil pointer. -/
def takesNil (t : Ty) : Bool := t = pointerNamed

/-- A method for a receiver that may be missing. -/
def forReceiver (t : Ty) (method : Value → Function) (receiver : Option Value) : Function :=
  match receiver with
  | some v => method v
  | none => if takesNil t then method .nil else { method .nil with run := fun _ => .fault }

/-- The prelude of the sample functions, the methods of the sample types and those of times. -/
def world : Prelude :=
  { callee? := fun name => functions.lookup name
    method? := fun t name =>
      match methods.find? fun (t', n, _) => t' = t && n = name with
      | some (_, _, method) => some (forReceiver t method)
      | none => Prelude.standard.method? t name
    display? := fun t => if t = color then some colorText else Prelude.standard.display? t
    stored? := fun t => if t = nullString then some storedText else none }

end QueryTree.Sample
