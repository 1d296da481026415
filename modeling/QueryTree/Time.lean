import QueryTree.Text.Number

/-!
# Instants

Points in time, in UTC with nanoseconds, and their calendar text. Dates follow the Gregorian
calendar extended in both directions.

## Main definitions

* `Instant`, `Instant.zero`: seconds since 1970 and nanoseconds
* `Instant.civil`: year, month and day
* `Instant.rfc3339`, `Instant.sqlText`, `Instant.text`: the three written forms
* `Instant.ofRfc3339?`: the reader
-/

namespace QueryTree

/-- A point in time: seconds since the start of 1970 in UTC, and nanoseconds. -/
structure Instant where
  seconds : Int
  nanos : Nat
  deriving DecidableEq, Inhabited, Repr

namespace Instant

/-- Days from the start of 1970 to a calendar date. -/
def daysOf (year month day : Int) : Int :=
  let y := if month ≤ 2 then year - 1 else year
  let era := y.fdiv 400
  let yearOfEra := y - era * 400
  let dayOfYear := (153 * (if month > 2 then month - 3 else month + 9) + 2) / 5 + day - 1
  let dayOfEra := yearOfEra * 365 + yearOfEra / 4 - yearOfEra / 100 + dayOfYear
  era * 146097 + dayOfEra - 719468

/-- The calendar date a number of days after the start of 1970. -/
def dateOf (days : Int) : Int × Int × Int :=
  let z := days + 719468
  let era := z.fdiv 146097
  let dayOfEra := z - era * 146097
  let yearOfEra := (dayOfEra - dayOfEra / 1460 + dayOfEra / 36524 - dayOfEra / 146096) / 365
  let dayOfYear := dayOfEra - (365 * yearOfEra + yearOfEra / 4 - yearOfEra / 100)
  let shifted := (5 * dayOfYear + 2) / 153
  let day := dayOfYear - (153 * shifted + 2) / 5 + 1
  let month := if shifted < 10 then shifted + 3 else shifted - 9
  (yearOfEra + era * 400 + (if month ≤ 2 then 1 else 0), month, day)

/-- The first instant of year one, the zero of the type. -/
def zero : Instant := ⟨daysOf 1 1 1 * 86400, 0⟩

/-- Year, month and day of an instant. -/
def civil (t : Instant) : Int × Int × Int := dateOf (t.seconds.fdiv 86400)

/-- Seconds since the start of the day. -/
def secondOfDay (t : Instant) : Nat := (t.seconds - t.seconds.fdiv 86400 * 86400).toNat

/-- The day of the year, from one. -/
def yearDay (t : Instant) : Int :=
  let (year, _, _) := t.civil
  t.seconds.fdiv 86400 - daysOf year 1 1 + 1

/-- A number in at least `width` digits. -/
def padded (width : Nat) (n : Int) : Text :=
  let digits := Text.ofNat n.natAbs
  (if n < 0 then "-" else "") ++ Text.replicateByte (width - digits.length) 48 ++ digits

/-- Year, month and day with hyphens. -/
def dateText (t : Instant) : Text :=
  let (year, month, day) := t.civil
  padded 4 year ++ "-" ++ padded 2 month ++ "-" ++ padded 2 day

/-- Hours, minutes and seconds with colons, and the fraction without trailing zeros. -/
def clockText (t : Instant) : Text :=
  let s := t.secondOfDay
  let fraction : Text := if t.nanos = 0 then [] else
    [byte '.'] ++ Text.dropEndWhile (· == 48) (padded 9 t.nanos)
  padded 2 (s / 3600) ++ ":" ++ padded 2 (s / 60 % 60) ++ ":" ++ padded 2 (s % 60) ++ fraction

/-- The form with a `T` between date and time, and a `Z`. -/
def rfc3339 (t : Instant) : Text := t.dateText ++ "T" ++ t.clockText ++ "Z"

/-- The form of SQL literals. -/
def sqlText (t : Instant) : Text := t.dateText ++ " " ++ t.clockText

/-- The form for reading, with the zone. -/
def text (t : Instant) : Text := t.sqlText ++ " +0000 UTC"

/-- Compares two instants: `-1`, `0` or `1`. -/
def compare (s t : Instant) : Int :=
  if s.seconds < t.seconds || (s.seconds = t.seconds && s.nanos < t.nanos) then -1
  else if s = t then 0 else 1

/-- Reads a run of exactly `n` digits. -/
def digits? (n : Nat) (t : Text) : Option (Int × Text) :=
  (Text.toNat? (t.take n)).bind fun value =>
    if (t.take n).length = n then some ((value : Int), t.drop n) else none

/-- Reads one expected byte. -/
def mark? (c : Char) : Text → Option Text
  | b :: rest => if b = byte c then some rest else none
  | [] => none

/-- Reads the zone: `Z` or a signed offset in hours and minutes, in seconds. -/
def zone? (t : Text) : Option Int :=
  match t with
  | [] => none
  | b :: rest =>
    if b = byte 'Z' then if rest.isEmpty then some 0 else none
    else do
      let sign ← if b = byte '+' then some 1 else if b = byte '-' then some (-1 : Int) else none
      let (hours, rest) ← digits? 2 rest
      let rest ← mark? ':' rest
      let (minutes, rest) ← digits? 2 rest
      if rest.isEmpty then some (sign * (hours * 3600 + minutes * 60)) else none

/-- Reads an instant with a zone; the result is in UTC. -/
def ofRfc3339? (t : Text) : Option Instant := do
  let (year, t) ← digits? 4 t
  let t ← mark? '-' t
  let (month, t) ← digits? 2 t
  let t ← mark? '-' t
  let (day, t) ← digits? 2 t
  let t ← mark? 'T' t
  let (hour, t) ← digits? 2 t
  let t ← mark? ':' t
  let (minute, t) ← digits? 2 t
  let t ← mark? ':' t
  let (second, t) ← digits? 2 t
  let (fraction, t) := match t with
    | b :: rest =>
      if b = byte '.' then (rest.takeWhile Text.isDigitByte, rest.dropWhile Text.isDigitByte)
      else ([], t)
    | [] => ([], [])
  let nanos := (Text.toNat? (fraction.take 9 ++ Text.replicateByte (9 - fraction.length) 48)).getD 0
  let offset ← zone? t
  return ⟨daysOf year month day * 86400 + hour * 3600 + minute * 60 + second - offset, nanos⟩

end Instant

end QueryTree
