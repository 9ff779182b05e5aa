/-!
# Dates and timestamps

Days of the calendar and points in time without a zone, to the nanosecond.

* `Date.text` — `2020-01-31`. A year outside `0 … 9999` has a sign and at least four digits.
* `Timestamp.text` — the day, a separator and the time. A fraction of a second is written with
  three, six or nine digits, the fewest that are exact.
* `Date.order`, `Timestamp.order` — the order in time.
-/

namespace DeltaCircuit

/-- A day of the calendar. -/
structure Date where
  year : Int
  month : Nat
  day : Nat
deriving DecidableEq

/-- A point in time. Nanoseconds from a whole second on belong to a leap second. -/
structure Timestamp where
  date : Date
  hour : Nat
  minute : Nat
  second : Nat
  nanosecond : Nat
deriving DecidableEq

/-- A number with zeros in front of it, up to a least width. -/
def padded (width n : Nat) : String :=
  let digits := Nat.toDigits 10 n
  String.ofList (List.replicate (width - digits.length) '0' ++ digits)

namespace Date

def order (a b : Date) : Ordering :=
  ((compare a.year b.year).then (compare a.month b.month)).then (compare a.day b.day)

def yearText (year : Int) : String :=
  let digits := padded 4 year.natAbs
  if year < 0 then "-" ++ digits else if year ≤ 9999 then digits else "+" ++ digits

def text (d : Date) : String :=
  yearText d.year ++ "-" ++ padded 2 d.month ++ "-" ++ padded 2 d.day

end Date

namespace Timestamp

def order (a b : Timestamp) : Ordering :=
  ((((a.date.order b.date).then (compare a.hour b.hour)).then (compare a.minute b.minute)).then
    (compare a.second b.second)).then (compare a.nanosecond b.nanosecond)

/-- The fraction of a second, with the fewest of three, six or nine digits that are exact. -/
def fractionText (nanosecond : Nat) : String :=
  if nanosecond = 0 then ""
  else if nanosecond % 1000000 = 0 then "." ++ padded 3 (nanosecond / 1000000)
  else if nanosecond % 1000 = 0 then "." ++ padded 6 (nanosecond / 1000)
  else "." ++ padded 9 nanosecond

def timeText (t : Timestamp) : String :=
  let second := t.second + t.nanosecond / 1000000000
  padded 2 t.hour ++ ":" ++ padded 2 t.minute ++ ":" ++ padded 2 second ++
    fractionText (t.nanosecond % 1000000000)

/-- The day and the time with `separator` between them. -/
def text (separator : String) (t : Timestamp) : String :=
  t.date.text ++ separator ++ t.timeText

end Timestamp
end DeltaCircuit
