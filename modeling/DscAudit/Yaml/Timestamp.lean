import DscAudit.Host.Failure
import DscAudit.Value.Datum

/-!
# Points in time in YAML

A scalar of the form of a date, or of a date and a time, is a point in time.  It is foreign to
configurations, so only its texts matter.
-/

namespace DscAudit.Yaml

/-- The time of a day, the digits of the fraction of a second, and the minutes that the clock is ahead
of the universal time, if that is given. -/
structure TimeOfDay where
  hour : Nat
  minute : Nat
  second : Nat
  fraction : List Char
  offset : Option Int

structure Timestamp where
  year : Nat
  month : Nat
  day : Nat
  time : Option TimeOfDay
  /-- Do month and day have two digits each? -/
  isPadded : Bool

namespace Timestamp

def digitValue (c : Char) : Nat := c.toNat - 0x30

/-- A number of exactly `width` digits. -/
def fixed? : (width : Nat) → List Char → Option (Nat × List Char)
  | 0, s => some (0, s)
  | _ + 1, [] => none
  | width + 1, c :: rest =>
    if c.isDigit then
      (fixed? width rest).map fun (value, rest) => (digitValue c * Nat.pow 10 width + value, rest)
    else none

/-- A number of one digit or two. -/
def short? (s : List Char) : Option (Nat × List Char) := (fixed? 2 s).or (fixed? 1 s)

def mark? (mark : Char) : List Char → Option (List Char)
  | c :: rest => if c == mark then some rest else none
  | [] => none

def isBlank (c : Char) : Bool := c == ' ' || c == '\t'

/-- The text behind what separates a time from a date. -/
def afterSeparator? : List Char → Option (List Char)
  | c :: rest =>
    if c == 'T' || c == 't' then some rest
    else if isBlank c then some (rest.dropWhile isBlank) else none
  | [] => none

/-- A zone, which ends the text. -/
def zone? (s : List Char) : Option (Option Int) :=
  let signed (sign : Int) (s : List Char) : Option (Option Int) := do
    let (hours, rest) ← short? s
    match rest with
    | [] => return some (sign * (60 * hours))
    | ':' :: rest => do
      let (minutes, rest) ← fixed? 2 rest
      if rest.isEmpty then return some (sign * (60 * hours + minutes)) else none
    | _ => none
  match s, s.dropWhile isBlank with
  | [], _ => some none
  | _, ['Z'] => some (some 0)
  | _, '+' :: rest => signed 1 rest
  | _, '-' :: rest => signed (-1) rest
  | _, _ => none

/-- A time of a day, which ends the text. -/
def time? (s : List Char) : Option TimeOfDay := do
  let (hour, rest) ← short? s
  let rest ← mark? ':' rest
  let (minute, rest) ← fixed? 2 rest
  let rest ← mark? ':' rest
  let (second, rest) ← fixed? 2 rest
  let (fraction, rest) := match rest with
    | '.' :: rest => (rest.takeWhile Char.isDigit, rest.dropWhile Char.isDigit)
    | rest => ([], rest)
  let offset ← zone? rest
  return ⟨hour, minute, second, fraction, offset⟩

/-- The point in time that a text writes. -/
def read? (s : List Char) : Option Timestamp := do
  let (year, rest) ← fixed? 4 s
  let afterYear ← mark? '-' rest
  let (month, rest) ← short? afterYear
  let afterMonth ← mark? '-' rest
  let (day, rest) ← short? afterMonth
  let isPadded := afterYear.length - afterMonth.length == 3 && afterMonth.length - rest.length == 2
  if rest.isEmpty then return ⟨year, month, day, none, isPadded⟩
  else
    let time ← time? (← afterSeparator? rest)
    return ⟨year, month, day, some time, isPadded⟩

/-- Is a plain scalar of this form a point in time?  A date alone needs two digits throughout. -/
def isPlain (timestamp : Timestamp) : Bool := timestamp.time.isSome || timestamp.isPadded

def isLeapYear (year : Nat) : Bool := year % 4 == 0 && (year % 100 != 0 || year % 400 == 0)

def daysIn (year month : Nat) : Nat :=
  if month == 2 then if isLeapYear year then 29 else 28
  else if [4, 6, 9, 11].contains month then 30 else 31

/-- The millionths of a second that the digits of a fraction write; farther digits do not count. -/
def microseconds (fraction : List Char) : Nat :=
  ((fraction ++ List.replicate 6 '0').take 6).foldl (fun n c => 10 * n + digitValue c) 0

/-- A span of seconds as a message shows it. -/
def spanLiteral (seconds : Int) : String :=
  let days := seconds / 86400
  let rest := seconds % 86400
  let part (name : String) (n : Int) : List String :=
    if n = 0 then [] else [name ++ "=" ++ String.ofList (integerText n)]
  let parts := part "days" days ++ part "seconds" rest
  "datetime.timedelta(" ++ (if parts.isEmpty then "0" else ", ".intercalate parts) ++ ")"

/-- Why no calendar has the point in time. -/
def defect? (timestamp : Timestamp) : Option Defect :=
  let ⟨year, month, day, time, _⟩ := timestamp
  let ofDate : Option Defect :=
    if year = 0 then some (.noSuchTime "year 0 is out of range")
    else if month = 0 ∨ 12 < month then some (.noSuchTime "month must be in 1..12")
    else if day = 0 ∨ daysIn year month < day then some (.noSuchTime "day is out of range for month")
    else none
  match time with
  | none => ofDate
  | some time =>
    let ofZone : Option Defect := time.offset.bind fun minutes =>
      if minutes.natAbs < 1440 then none
      else some (.noSuchTime ("offset must be a timedelta strictly between -timedelta(hours=24) and " ++
        "timedelta(hours=24), not " ++ spanLiteral (60 * minutes) ++ "."))
    let ofTime : Option Defect :=
      if 23 < time.hour then some (.noSuchTime "hour must be in 0..23")
      else if 59 < time.minute then some (.noSuchTime "minute must be in 0..59")
      else if 59 < time.second then some (.noSuchTime "second must be in 0..59")
      else none
    (ofZone.or ofDate).or ofTime

def padded (width n : Nat) : List Char :=
  let digits := Nat.toDigits 10 n
  List.replicate (width - digits.length) '0' ++ digits

def date (timestamp : Timestamp) : List Char :=
  padded 4 timestamp.year ++ '-' :: padded 2 timestamp.month ++ '-' :: padded 2 timestamp.day

/-- The zone as the text of a point in time ends with it. -/
def zoneText (minutes : Int) : List Char :=
  (if minutes < 0 then '-' else '+') :: padded 2 (minutes.natAbs / 60) ++
    ':' :: padded 2 (minutes.natAbs % 60)

def zoneLiteral (minutes : Int) : String :=
  if minutes = 0 then "datetime.timezone.utc"
  else "datetime.timezone(" ++ spanLiteral (60 * minutes) ++ ")"

/-- The number of days up to the end of a date, from the start of the first year. -/
def dayNumber (timestamp : Timestamp) : Nat :=
  let before := timestamp.year - 1
  let months := (List.range (timestamp.month - 1)).map fun m => daysIn timestamp.year (m + 1)
  365 * before + before / 4 - before / 100 + before / 400 + months.foldl (· + ·) 0 + timestamp.day

/-- The millionths of a second in universal time from the start of the first year, if the point in time
has a zone. -/
def instant? (timestamp : Timestamp) : Option Int := do
  let time ← timestamp.time
  let offset ← time.offset
  let minutes : Int := (timestamp.dayNumber * 24 + time.hour) * 60 + time.minute - offset
  return (minutes * 60 + time.second) * 1000000 + microseconds time.fraction

/-- The texts of the point in time. -/
def toDatum (timestamp : Timestamp) : Datum :=
  let ⟨year, month, day, time, _⟩ := timestamp
  match time with
  | none =>
    .foreign (String.ofList timestamp.date)
      ("datetime.date(" ++ ", ".intercalate ([year, month, day].map toString) ++ ")")
  | some time =>
    let micro := microseconds time.fraction
    let seconds := if micro = 0 then if time.second = 0 then [] else [time.second]
      else [time.second, micro]
    let numbers := ([year, month, day, time.hour, time.minute] ++ seconds).map toString
    let zone := (time.offset.map fun minutes => "tzinfo=" ++ zoneLiteral minutes).toList
    let plain := timestamp.date ++ ' ' :: padded 2 time.hour ++ ':' :: padded 2 time.minute ++
      ':' :: padded 2 time.second ++ (if micro = 0 then [] else '.' :: padded 6 micro) ++
      (time.offset.map zoneText).getD []
    .foreign (String.ofList plain) ("datetime.datetime(" ++ ", ".intercalate (numbers ++ zone) ++ ")")

end Timestamp

end DscAudit.Yaml
