import DiceTome.Decimal.Read

/-!
# Moments

A moment is a day of the calendar, alone or with a time of the day, which may have a distance from
universal time.

* `Moment.read?` reads a moment and tells what is wrong with one that no calendar has.
* `Moment.text` and `Moment.shown` write it.
-/

namespace DiceTome

/-- A time of the day. Its offset from universal time is given in minutes. -/
structure Clock where
  hour : Nat
  minute : Nat
  second : Nat
  microsecond : Nat := 0
  offset : Option Int := none
  deriving Repr, DecidableEq

/-- A day, alone or with a time. -/
structure Moment where
  year : Nat
  month : Nat
  day : Nat
  clock : Option Clock := none
  deriving Repr, DecidableEq

/-- What is wrong with a moment. -/
inductive MomentError where
  | year (year : Nat)
  | month
  | day
  | hour
  | minute
  | second
  | offset (minutes : Int)
  deriving Repr, DecidableEq

namespace Moment

/-! ## Writing -/

/-- A number with zeros in front, up to a width. -/
def padded (width n : Nat) : String :=
  let digits := Nat.toDigits 10 n
  String.ofList (List.replicate (width - digits.length) '0' ++ digits)

/-- A span of minutes as messages show it: whole days, then the seconds that are left. -/
def shownSpan (minutes : Int) : String :=
  let days := Int.fdiv minutes 1440
  let seconds := Int.fmod minutes 1440 * 60
  let parts := (if days = 0 then [] else [s!"days={days}"]) ++
    (if seconds = 0 then [] else [s!"seconds={seconds}"])
  let numbers := if parts.isEmpty then "0" else ", ".intercalate parts
  s!"datetime.timedelta({numbers})"

/-- An offset as text. -/
def offsetText (minutes : Int) : String :=
  let sign := if minutes < 0 then "-" else "+"
  sign ++ padded 2 (minutes.natAbs / 60) ++ ":" ++ padded 2 (minutes.natAbs % 60)

/-- An offset as messages show it. -/
def shownOffset (minutes : Int) : String :=
  if minutes = 0 then "datetime.timezone.utc" else s!"datetime.timezone({shownSpan minutes})"

/-- The time of a moment as text. -/
def clockText (c : Clock) : String :=
  let fraction := if c.microsecond = 0 then "" else "." ++ padded 6 c.microsecond
  let offset := (c.offset.map offsetText).getD ""
  padded 2 c.hour ++ ":" ++ padded 2 c.minute ++ ":" ++ padded 2 c.second ++ fraction ++ offset

/-- The moment as text. -/
def text (m : Moment) : String :=
  let date := padded 4 m.year ++ "-" ++ padded 2 m.month ++ "-" ++ padded 2 m.day
  match m.clock with
  | none => date
  | some c => date ++ " " ++ clockText c

/-- The name of the kind of moment in messages. -/
def kindName (m : Moment) : String :=
  if m.clock.isSome then "datetime" else "date"

/-- The numbers of a time as messages show them: seconds and parts of them only if need be. -/
def clockNumbers (c : Clock) : List Nat :=
  if c.microsecond ≠ 0 then [c.hour, c.minute, c.second, c.microsecond]
  else if c.second ≠ 0 then [c.hour, c.minute, c.second]
  else [c.hour, c.minute]

/-- The moment as messages show it. -/
def shown (m : Moment) : String :=
  let numbers := [m.year, m.month, m.day] ++ (m.clock.map clockNumbers).getD []
  let offset := (m.clock.bind Clock.offset).toList.map fun minutes =>
    "tzinfo=" ++ shownOffset minutes
  s!"datetime.{m.kindName}(" ++ ", ".intercalate (numbers.map toString ++ offset) ++ ")"

/-! ## Checking -/

/-- Whether a year has a day more. -/
def isLeapYear (year : Nat) : Bool :=
  year % 4 == 0 && (year % 100 != 0 || year % 400 == 0)

/-- The number of days of a month. -/
def daysIn (year month : Nat) : Nat :=
  if month = 2 then (if isLeapYear year then 29 else 28)
  else if [4, 6, 9, 11].contains month then 30
  else 31

/-- Fails unless the numbers of a time are those of a time of the day. -/
def checkClock (c : Clock) : Except MomentError Unit := do
  if 23 < c.hour then throw .hour
  if 59 < c.minute then throw .minute
  if 59 < c.second then throw .second

/-- Fails unless an offset is less than a day. -/
def checkOffset (c : Clock) : Except MomentError Unit :=
  match c.offset with
  | some minutes => if 1440 ≤ minutes.natAbs then .error (.offset minutes) else .ok ()
  | none => .ok ()

/-- The moment, if there is such a moment. -/
def check (m : Moment) : Except MomentError Moment := do
  m.clock.forM checkOffset
  if m.year = 0 then throw (.year m.year)
  if m.month = 0 ∨ 12 < m.month then throw .month
  if m.day = 0 ∨ daysIn m.year m.month < m.day then throw .day
  m.clock.forM checkClock
  return m

/-! ## Reading -/

/-- The number of at least `least` and at most `most` digits, and what follows them. -/
def number? (least most : Nat) (cs : List Char) : Option (Nat × List Char) := do
  let digits := (cs.takeWhile Char.isDigit).take most
  if digits.length < least then none
  else return (← Decimal.asciiDigits? digits, cs.drop digits.length)

/-- What follows a character that is wanted. -/
def after? (wanted : Char) : List Char → Option (List Char)
  | c :: rest => if c = wanted then some rest else none
  | [] => none

/-- A blank between the parts of a moment. -/
def isGap (c : Char) : Bool :=
  c == ' ' || c == '\t'

/-- What follows the mark between a day and a time. -/
def timePart? (cs : List Char) : Option (List Char) :=
  match cs with
  | c :: rest =>
    if c == 'T' || c == 't' then some rest
    else if isGap c then some (rest.dropWhile isGap)
    else none
  | [] => none

/-- The part of a second in millionths, and what follows it. -/
def fraction (cs : List Char) : Nat × List Char :=
  match cs with
  | '.' :: rest =>
    let digits := (rest.takeWhile Char.isDigit).take 6
    let padding := List.replicate (6 - digits.length) '0'
    ((Decimal.asciiDigits? (digits ++ padding)).getD 0, rest.dropWhile Char.isDigit)
  | cs => (0, cs)

/-- The offset at the end of a moment: none, universal time, or hours and minutes with a sign. -/
def offset? (cs : List Char) : Option (Option Int) :=
  match cs, cs.dropWhile isGap with
  | [], _ => some none
  | _, ['Z'] => some (some 0)
  | _, sign :: rest => do
    if sign != '+' && sign != '-' then none
    let (hours, rest) ← number? 1 2 rest
    let minutes ← match rest with
      | [] => some 0
      | ':' :: rest => do
        let (n, rest) ← number? 2 2 rest
        if rest.isEmpty then some n else none
      | _ => none
    let total : Int := hours * 60 + minutes
    return some (if sign == '-' then -total else total)
  | _, [] => none

/-- The time and offset that a text spells. -/
def clock? (cs : List Char) : Option Clock := do
  let (hour, rest) ← number? 1 2 cs
  let (minute, rest) ← number? 2 2 (← after? ':' rest)
  let (second, rest) ← number? 2 2 (← after? ':' rest)
  let (microsecond, rest) := fraction rest
  return { hour, minute, second, microsecond, offset := ← offset? rest }

/-- The numbers of the moment that a text spells. A day alone has two digits for its month and two
for its day. -/
def numbers? (cs : List Char) : Option Moment := do
  let (year, rest) ← number? 4 4 cs
  let (month, rest) ← number? 1 2 (← after? '-' rest)
  let (day, rest) ← number? 1 2 (← after? '-' rest)
  if rest.isEmpty then
    if cs.length = 10 then return { year, month, day } else none
  else
    return { year, month, day, clock := some (← clock? (← timePart? rest)) }

/-- The moment that a text spells. -/
def read? (cs : List Char) : Option (Except MomentError Moment) :=
  (numbers? cs).map check

end Moment

/-- The text of the error. -/
def MomentError.message : MomentError → String
  | .year n => s!"year {n} is out of range"
  | .month => "month must be in 1..12"
  | .day => "day is out of range for month"
  | .hour => "hour must be in 0..23"
  | .minute => "minute must be in 0..59"
  | .second => "second must be in 0..59"
  | .offset minutes =>
    "offset must be a timedelta strictly between -timedelta(hours=24) and timedelta(hours=24), " ++
      s!"not {Moment.shownSpan minutes}."

end DiceTome
