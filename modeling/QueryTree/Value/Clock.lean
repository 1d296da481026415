import QueryTree.Prelude
import QueryTree.Text.Number

/-!
# Methods of times

The methods of times: calendar fields, Unix times, the written form, and comparison with another
time. Months and days of the week are numbers that are written by name.

## Main definitions

* `Instant.function?`: the method of a name
* `Prelude.standard`: the prelude that knows these methods
-/

namespace QueryTree.Instant

/-- The names of the months. -/
def monthNames : List Text :=
  ["January", "February", "March", "April", "May", "June", "July", "August", "September",
    "October", "November", "December"]

/-- The names of the days of the week, from Sunday. -/
def dayNames : List Text :=
  ["Sunday", "Monday", "Tuesday", "Wednesday", "Thursday", "Friday", "Saturday"]

/-- The type of months. -/
def monthType : Ty := .named ⟨"time", "Month", none⟩ (.int .int)

/-- The type of days of the week. -/
def weekdayType : Ty := .named ⟨"time", "Weekday", none⟩ (.int .int)

/-- The day of the week, from zero for Sunday. -/
def weekday (t : Instant) : Int := ((t.seconds.fdiv 86400) + 4).emod 7

/-- The nanoseconds since the start of 1970, as a 64-bit word. -/
def unixNanos (t : Instant) : Int := IntKind.int64.wrap (t.seconds * 1000000000 + t.nanos)

/-- What a method of times without arguments yields. -/
def method? (name : Text) : Option (Ty × (Instant → Value)) :=
  let int := fun (f : Instant → Int) => some (Ty.int .int, fun t => Value.int .int (f t))
  let word := fun (f : Instant → Int) => some (Ty.int .int64, fun t => Value.int .int64 (f t))
  if name = ("Year" : Text) then int fun t => t.civil.1
  else if name = ("Month" : Text) then
    some (monthType, fun t => .named ⟨"time", "Month", none⟩ (.int .int t.civil.2.1))
  else if name = ("Day" : Text) then int fun t => t.civil.2.2
  else if name = ("YearDay" : Text) then int yearDay
  else if name = ("Weekday" : Text) then
    some (weekdayType, fun t => .named ⟨"time", "Weekday", none⟩ (.int .int t.weekday))
  else if name = ("Hour" : Text) then int fun t => t.secondOfDay / 3600
  else if name = ("Minute" : Text) then int fun t => t.secondOfDay / 60 % 60
  else if name = ("Second" : Text) then int fun t => t.secondOfDay % 60
  else if name = ("Nanosecond" : Text) then int fun t => t.nanos
  else if name = ("Unix" : Text) then word fun t => t.seconds
  else if name = ("UnixMilli" : Text) then word fun t => t.seconds * 1000 + t.nanos / 1000000
  else if name = ("UnixMicro" : Text) then word fun t => t.seconds * 1000000 + t.nanos / 1000
  else if name = ("UnixNano" : Text) then word unixNanos
  else if name = ("IsZero" : Text) then some (.bool, fun t => .bool (t == zero))
  else if name = ("String" : Text) then some (.string, fun t => .string t.text)
  else if name = ("UTC" : Text) then some (.time, fun t => .time t)
  else none

/-- What a method that compares two times yields. -/
def comparison? (name : Text) : Option (Ty × (Instant → Instant → Value)) :=
  let test := fun (f : Int → Bool) => some (Ty.bool, fun s t => Value.bool (f (compare s t)))
  if name = ("Before" : Text) then test (· < 0)
  else if name = ("After" : Text) then test (· > 0)
  else if name = ("Equal" : Text) then test (· == 0)
  else if name = ("Compare" : Text) then some (.int .int, fun s t => .int .int (compare s t))
  else none

/-- A method of times as a function of its receiver. A nil pointer has no time to ask. -/
def function? (name : Text) : Option (Option Value → Function) :=
  match method? name, comparison? name with
  | some (result, f), _ => some fun receiver =>
    { params := [], rest := none, result := some result
      run := fun _ => match receiver with
        | some (.time t) => .ok (f t)
        | _ => .fault }
  | none, some (result, f) => some fun receiver =>
    { params := [.time], rest := none, result := some result
      run := fun args => match receiver, args with
        | some (.time s), [.time t] => .ok (f s t)
        | _, _ => .fault }
  | none, none => none

/-- The name that a number has in a list of names; the number itself stands in for a missing
one. -/
def nameIn (names : List Text) (first : Int) (label : Text) : Value → Text
  | .named _ (.int _ n) =>
    let unknown : Text := "%!" ++ label ++ "(" ++ Text.ofInt n ++ ")"
    if n < first then unknown else (names[(n - first).toNat]?).getD unknown
  | _ => []

end QueryTree.Instant

namespace QueryTree

/-- The prelude of times, months and days of the week. -/
def Prelude.standard : Prelude :=
  { Prelude.empty with
    method? := fun t name => if t = .time then Instant.function? name else none
    display? := fun t =>
      if t = Instant.monthType then some (Instant.nameIn Instant.monthNames 1 "Month")
      else if t = Instant.weekdayType then some (Instant.nameIn Instant.dayNames 0 "Weekday")
      else none }

end QueryTree
