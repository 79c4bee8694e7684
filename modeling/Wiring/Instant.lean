import Wiring.Calendar
import Wiring.Text.Blank
import Wiring.Text.Numeral

/-!
# Points in time

A point in time is a day and a time of day in UTC, to the nanosecond.  It is
written in the form `2024-01-02T03:04:05.678Z`, the fraction with no digit or with
three, six or nine, as few as it needs.

The reader takes more than that: blanks between the fields, fields with fewer
digits, and a time with an offset from UTC, which is taken off.
-/

namespace Wiring

open Wiring.Text

/-- A point in time, in UTC. -/
structure Instant where
  date : Date
  hour : Nat
  minute : Nat
  /-- The second; sixty in a leap second. -/
  second : Nat
  /-- The fraction of the second, in nanoseconds. -/
  nanos : Nat
  /-- A day has 24 hours. -/
  hour_lt : hour < 24
  /-- An hour has 60 minutes. -/
  minute_lt : minute < 60
  /-- A minute has 60 seconds, or one more. -/
  second_le : second ≤ 60
  nanos_lt : nanos < 1000000000
deriving DecidableEq, Repr

namespace Instant

/-- The point in time with some fields, if there is one. -/
def of? (date : Date) (hour minute second nanos : Nat) : Option Instant :=
  if h : hour < 24 ∧ minute < 60 ∧ second ≤ 60 ∧ nanos < 1000000000 then
    some ⟨date, hour, minute, second, nanos, h.1, h.2.1, h.2.2.1, h.2.2.2⟩
  else none

/-- A point in time is the one with its fields. -/
theorem of?_fields (t : Instant) :
    of? t.date t.hour t.minute t.second t.nanos = some t := by
  simp [of?, t.hour_lt, t.minute_lt, t.second_le, t.nanos_lt]

/-- The point in time at so many seconds and nanoseconds after the begin of 1970. -/
def ofUnix (seconds nanos : Nat) : Instant :=
  { date := Date.epoch.plus (seconds / 86400)
    hour := seconds / 3600 % 24
    minute := seconds / 60 % 60
    second := seconds % 60
    nanos := nanos % 1000000000
    hour_lt := Nat.mod_lt _ (by decide)
    minute_lt := Nat.mod_lt _ (by decide)
    second_le := by omega
    nanos_lt := Nat.mod_lt _ (by decide) }

/-! ## Writing -/

/-- A year between 0 and 9999 has four digits; any other has a sign and at least
four. -/
def yearText (year : Int) : List Char :=
  if 0 ≤ year ∧ year ≤ 9999 then padded 4 year.toNat
  else (if year < 0 then '-' else '+') :: padded 4 year.natAbs

/-- The fraction of a second, with the point. -/
def fractionText (nanos : Nat) : List Char :=
  if nanos = 0 then []
  else if nanos % 1000000 = 0 then '.' :: padded 3 (nanos / 1000000)
  else if nanos % 1000 = 0 then '.' :: padded 6 (nanos / 1000)
  else '.' :: padded 9 nanos

/-- The text of a point in time. -/
def text (t : Instant) : String :=
  String.ofList
    (yearText t.date.year ++ '-' :: padded 2 t.date.month ++ '-' :: padded 2 t.date.day ++
      'T' :: padded 2 t.hour ++ ':' :: padded 2 t.minute ++ ':' :: padded 2 t.second ++
      fractionText t.nanos ++ ['Z'])

/-- The text of a point in time as part of a file name: without marks, to the
microsecond.  Later points in time have greater texts. -/
def nameText (t : Instant) : String :=
  String.ofList
    (yearText t.date.year ++ padded 2 t.date.month ++ padded 2 t.date.day ++
      'T' :: padded 2 t.hour ++ padded 2 t.minute ++ padded 2 t.second ++
      '.' :: padded 6 (t.nanos / 1000))

/-! ## Offsets -/

/-- The same point in time with another offset taken off: local time is ahead of
UTC by `offset` minutes, which are less than a day. -/
def ofLocal? (t : Instant) (offset : Int) : Option Instant := do
  let minutes : Int := t.hour * 60 + t.minute - offset
  let date ←
    if minutes < 0 then t.date.previous?
    else if 1440 ≤ minutes then t.date.next?
    else some t.date
  let ofDay := (minutes % 1440).toNat
  of? date (ofDay / 60) (ofDay % 60) t.second t.nanos

/-! ## Reading -/

/-- The year: four digits at most, or a sign and any number of digits. -/
def readYear (cs : List Char) : Option (Int × List Char) :=
  match dropBlanks cs with
  | '+' :: rest => (readUpTo rest.length rest).map fun (n, rest) => ((n : Int), rest)
  | '-' :: rest => (readUpTo rest.length rest).map fun (n, rest) => (-(n : Int), rest)
  | cs => (readUpTo 4 cs).map fun (n, rest) => ((n : Int), rest)

/-- Any other field, of two digits at most. -/
def readField (cs : List Char) : Option (Nat × List Char) := readUpTo 2 (dropBlanks cs)

/-- The mark before a field. -/
def readFieldMark (mark : Char) (cs : List Char) : Option (List Char) :=
  readMark mark (dropBlanks cs)

/-- The mark between a date and a time. -/
def readTimeMark : List Char → Option (List Char)
  | 'T' :: rest | 't' :: rest | ' ' :: rest => some rest
  | _ => none

/-- The fraction of a second in nanoseconds; digits after the ninth do not count. -/
def readFraction : List Char → Option (Nat × List Char)
  | '.' :: rest =>
    let digits := rest.takeWhile Char.isDigit
    if digits = [] then none
    else
      some (Nat.ofDigitChars 10 ((digits ++ List.replicate 9 '0').take 9) 0,
        rest.dropWhile Char.isDigit)
  | cs => some (0, cs)

/-- Drop what may stand between the hours and the minutes of an offset. -/
def dropColons (cs : List Char) : List Char := cs.dropWhile fun c => c = ':' || isBlank c

/-- The hours and minutes of an offset, in minutes: less than a day. -/
def readMinutes (cs : List Char) : Option (Nat × List Char) := do
  let (hours, cs) ← readFixed 2 cs
  let (minutes, cs) ← readFixed 2 (dropColons cs)
  if hours < 24 ∧ minutes < 60 then some (hours * 60 + minutes, cs) else none

/-- Drop the name of UTC, in upper or lower case. -/
def dropUtc (cs : List Char) : Option (List Char) :=
  if (cs.take 3).map Char.toUpper = "UTC".toList then some (cs.drop 3) else none

/-- The offset from UTC in minutes. -/
def readOffset (cs : List Char) : Option (Int × List Char) :=
  match dropUtc cs, cs with
  | some rest, _ | none, 'Z' :: rest | none, 'z' :: rest => some (0, rest)
  | none, '+' :: rest => (readMinutes rest).map fun (n, rest) => ((n : Int), rest)
  | none, '-' :: rest | none, '−' :: rest =>
    (readMinutes rest).map fun (n, rest) => (-(n : Int), rest)
  | none, _ => none

/-- Read a point in time. -/
def read (s : String) : Option Instant := do
  let (year, cs) ← readYear s.toList
  let (month, cs) ← readField (← readFieldMark '-' cs)
  let (day, cs) ← readField (← readFieldMark '-' cs)
  let (hour, cs) ← readField (← readTimeMark cs)
  let (minute, cs) ← readField (← readFieldMark ':' cs)
  let (second, cs) ← readField (← readFieldMark ':' cs)
  let (nanos, cs) ← readFraction cs
  let (offset, cs) ← readOffset (dropBlanks cs)
  if !cs.all isBlank then none
  let date ← Date.of? year month day
  (← of? date hour minute second nanos).ofLocal? offset

end Instant

end Wiring
