import Messaging.Number.Shortest
import Messaging.Proto.Message

/-!
# Points in time

A point in time is a message of seconds and nanoseconds since the start of 1970. Its text is a date
and a time of day in UTC with no, three, six or nine places; it is read with any number of places
up to nine and with an offset from UTC. Years range from 1 to 9999.
-/

namespace Messaging.Proto.Timestamp

open Number

/-- The full name of the message type. -/
def typeName : String := "google.protobuf.Timestamp"

/-- The field of the seconds. -/
def secondsField : Field :=
  { name := "seconds", jsonName := "seconds", number := 1, type := .scalar .int64,
    cardinality := .singular, presence := false, packed := false }

/-- The field of the nanoseconds. -/
def nanosField : Field :=
  { name := "nanos", jsonName := "nanos", number := 2, type := .scalar .int32,
    cardinality := .singular, presence := false, packed := false }

/-- The message type. -/
def type : MessageType := { name := typeName, fields := [secondsField, nanosField] }

/-- A pool that holds the message type alone. -/
def pool : Pool := { messages := [(typeName, type)] }

/-- The integer that a body holds in a field. -/
def intOf (b : Body) (f : Field) : Int :=
  match b.get? f with
  | some (.int i) => i
  | _ => 0

/-- The body of a message. -/
def body (seconds nanos : Int) : Body :=
  let b : Body := {}
  let b := if seconds = 0 then b else b.set type secondsField (.int seconds)
  if nanos = 0 then b else b.set type nanosField (.int nanos)

/-- A message. -/
def message (seconds nanos : Int) : Message := ⟨pool, type, body seconds nanos⟩

/-! ### Days -/

/-- Days in a month of a year. -/
def daysInMonth (year : Int) (month : Nat) : Nat :=
  match month with
  | 2 => if year % 4 = 0 ∧ (year % 100 ≠ 0 ∨ year % 400 = 0) then 29 else 28
  | 4 | 6 | 9 | 11 => 30
  | _ => 31

/-- Days from the start of 1970 to a date. Years are counted from March. -/
def daysOf (year : Int) (month day : Nat) : Int :=
  let y := if month ≤ 2 then year - 1 else year
  let era := y.fdiv 400
  let yearOfEra := y - era * 400
  let monthOfYear : Int := if 2 < month then (month : Int) - 3 else month + 9
  let dayOfYear := (153 * monthOfYear + 2) / 5 + day - 1
  let dayOfEra := yearOfEra * 365 + yearOfEra / 4 - yearOfEra / 100 + dayOfYear
  era * 146097 + dayOfEra - 719468

/-- The year, month and day a number of days from the start of 1970. -/
def dateOf (days : Int) : Int × Nat × Nat :=
  let z := days + 719468
  let era := z.fdiv 146097
  let dayOfEra := z - era * 146097
  let yearOfEra := (dayOfEra - dayOfEra / 1460 + dayOfEra / 36524 - dayOfEra / 146096) / 365
  let dayOfYear := dayOfEra - (365 * yearOfEra + yearOfEra / 4 - yearOfEra / 100)
  let monthOfYear := (5 * dayOfYear + 2) / 153
  let day := dayOfYear - (153 * monthOfYear + 2) / 5 + 1
  let month := if monthOfYear < 10 then monthOfYear + 3 else monthOfYear - 9
  (yearOfEra + era * 400 + (if month ≤ 2 then 1 else 0), month.toNat, day.toNat)

/-! ### Text -/

/-- A number with zeros in front up to a width. -/
def padded (width n : Nat) : List Char :=
  let ds := digitsOf n
  List.replicate (width - ds.length) '0' ++ ds

/-- The earliest second with a text. -/
def minSeconds : Int := -62135596800

/-- The latest second with a text. -/
def maxSeconds : Int := 253402300799

/-- The places of a second. -/
def places (nanos : Nat) : List Char :=
  if nanos = 0 then []
  else if nanos % 1000000 = 0 then '.' :: padded 3 (nanos / 1000000)
  else if nanos % 1000 = 0 then '.' :: padded 6 (nanos / 1000)
  else '.' :: padded 9 nanos

/-- The year of a date: four digits, or a sign where there are more or the year is negative. -/
def yearText (year : Int) : List Char :=
  if 9999 < year then '+' :: digitsOf year.toNat
  else if year < 0 then '-' :: padded 4 year.natAbs
  else padded 4 year.toNat

/-- The text of a message. Nanoseconds beyond a second are carried over. -/
def text? (b : Body) : Option String :=
  let seconds := intOf b secondsField
  let nanos := intOf b nanosField
  if minSeconds ≤ seconds ∧ seconds ≤ maxSeconds then
    let total := seconds + nanos.fdiv 1000000000
    let nanos := (nanos.fmod 1000000000).toNat
    let (year, month, day) := dateOf (total.fdiv 86400)
    let time := (total.fmod 86400).toNat
    some (String.ofList (yearText year ++ '-' :: padded 2 month ++ '-' :: padded 2 day
      ++ 'T' :: padded 2 (time / 3600) ++ ':' :: padded 2 (time / 60 % 60)
      ++ ':' :: padded 2 (time % 60) ++ places nanos ++ ['Z']))
  else none

/-- A number of exactly `count` digits. -/
def readDigits (count : Nat) (cs : List Char) : Option (Nat × List Char) :=
  let ds := cs.take count
  if ds.length = count ∧ ds.all Char.isDigit then
    some (ds.foldl (fun n c => 10 * n + (c.toNat - '0'.toNat)) 0, cs.drop count)
  else none

/-- A character that has to be there. -/
def readChar (c : Char) : List Char → Option (List Char)
  | d :: cs => if d = c then some cs else none
  | [] => none

/-- The places of a second, in nanoseconds. -/
def readPlaces : List Char → Option (Nat × List Char)
  | '.' :: cs =>
    let ds := cs.takeWhile Char.isDigit
    if ds = [] ∨ 9 < ds.length then none
    else (readDigits ds.length cs).map fun (n, rest) => (n * Nat.pow 10 (9 - ds.length), rest)
  | cs => some (0, cs)

/-- An offset in seconds from UTC. An unknown one, written with a minus and zeros, is refused. -/
def readOffset (cs : List Char) : Option Int :=
  match cs with
  | ['Z'] => some 0
  | sign :: cs => do
    let (hour, cs) ← readDigits 2 cs
    let cs ← readChar ':' cs
    let (minute, cs) ← readDigits 2 cs
    if cs ≠ [] ∨ 24 ≤ hour ∨ 60 ≤ minute then none
    else
      let offset : Int := hour * 3600 + minute * 60
      if sign = '+' then some offset
      else if sign = '-' ∧ offset ≠ 0 then some (-offset)
      else none
  | [] => none

/-- Reads a text. A leap second counts as the second before it. -/
def ofString? (s : String) : Option (Int × Int) := do
  let (year, cs) ← readDigits 4 s.toList
  let cs ← readChar '-' cs
  let (month, cs) ← readDigits 2 cs
  let cs ← readChar '-' cs
  let (day, cs) ← readDigits 2 cs
  let cs ← readChar 'T' cs
  let (hour, cs) ← readDigits 2 cs
  let cs ← readChar ':' cs
  let (minute, cs) ← readDigits 2 cs
  let cs ← readChar ':' cs
  let (second, cs) ← readDigits 2 cs
  let (nanos, cs) ← readPlaces cs
  let offset ← readOffset cs
  if month = 0 ∨ 12 < month ∨ day = 0 ∨ daysInMonth year month < day ∨ 24 ≤ hour ∨ 60 ≤ minute
      ∨ 60 < second then none
  else
    let time := hour * 3600 + minute * 60 + min second 59
    let seconds := daysOf year month day * 86400 + time - offset
    if minSeconds ≤ seconds ∧ seconds ≤ maxSeconds then some (seconds, nanos) else none

end Messaging.Proto.Timestamp
