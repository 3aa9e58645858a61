import ConfigVault.Text.WhiteSpace

/-!
# Timestamps

A point in time, to the nanosecond, as the calendar and the clock of universal time show it.  The
sixtieth second of a minute is a leap second.

A timestamp is written in full seconds and in universal time (`Timestamp.text`).  It is read more
freely (`Timestamp.ofText`): any offset will do, numbers need no leading zeros, blanks may stand in
front of them, and a fraction of a second is kept.
-/

namespace ConfigVault

/-- The year has a twenty-ninth of February. -/
def isLeapYear (year : Int) : Bool :=
  year % 4 == 0 && (year % 100 != 0 || year % 400 == 0)

/-- The number of days in a month. -/
def daysInMonth (year : Int) (month : Nat) : Nat :=
  if month = 2 then (if isLeapYear year then 29 else 28)
  else if month = 4 ∨ month = 6 ∨ month = 9 ∨ month = 11 then 30
  else 31

/-- A day of the calendar. -/
structure Date where
  year : Int
  month : Nat
  day : Nat
  year_mem : -262143 ≤ year ∧ year ≤ 262142
  month_mem : 1 ≤ month ∧ month ≤ 12
  day_mem : 1 ≤ day ∧ day ≤ daysInMonth year month
  deriving DecidableEq

namespace Date

/-- The day with these numbers, if there is one. -/
def of? (year : Int) (month day : Nat) : Option Date :=
  if hy : -262143 ≤ year ∧ year ≤ 262142 then
    if hm : 1 ≤ month ∧ month ≤ 12 then
      if hd : 1 ≤ day ∧ day ≤ daysInMonth year month then some ⟨year, month, day, hy, hm, hd⟩
      else none
    else none
  else none

/-- The day after. -/
def next? (d : Date) : Option Date :=
  if d.day < daysInMonth d.year d.month then of? d.year d.month (d.day + 1)
  else if d.month < 12 then of? d.year (d.month + 1) 1
  else of? (d.year + 1) 1 1

/-- The day before. -/
def previous? (d : Date) : Option Date :=
  if 1 < d.day then of? d.year d.month (d.day - 1)
  else if 1 < d.month then of? d.year (d.month - 1) (daysInMonth d.year (d.month - 1))
  else of? (d.year - 1) 12 31

end Date

/-- A point in time. -/
structure Timestamp where
  date : Date
  /-- Minutes since midnight. -/
  minutes : Nat
  second : Nat
  nanosecond : Nat
  minutes_lt : minutes < 1440
  second_le : second ≤ 60
  deriving DecidableEq

namespace Timestamp

/-! ## Writing -/

/-- The digit of a number below ten. -/
def digit (n : Nat) : Char := Char.ofNat (0x30 + n)

/-- Two digits. -/
def twoDigits (n : Nat) : List Char := [digit (n / 10), digit (n % 10)]

/-- At least four digits. -/
def fourDigits (n : Nat) : List Char :=
  if n < 10000 then twoDigits (n / 100) ++ twoDigits (n % 100) else Nat.toDigits 10 n

/-- A year; it has a sign unless it needs just four digits. -/
def yearText (year : Int) : List Char :=
  if year < 0 then '-' :: fourDigits year.natAbs
  else if year < 10000 then fourDigits year.natAbs
  else '+' :: fourDigits year.natAbs

/-- The text of a day. -/
def dateText (d : Date) : List Char :=
  yearText d.year ++ '-' :: twoDigits d.month ++ '-' :: twoDigits d.day

/-- The text of a timestamp, in full seconds. -/
def text (t : Timestamp) : String :=
  String.ofList <| dateText t.date ++ 'T' :: twoDigits (t.minutes / 60) ++
    ':' :: twoDigits (t.minutes % 60) ++ ':' :: twoDigits t.second ++ ['Z']

/-! ## Reading -/

/-- Why a text is no timestamp. -/
inductive Fault where
  | invalid
  | tooShort
  | outOfRange
  | tooLong
  /-- The offset leads out of the calendar. -/
  | impossible
  deriving DecidableEq, Repr

/-- The message of a fault. -/
def Fault.message : Fault → String
  | .invalid => "input contains invalid characters"
  | .tooShort => "premature end of input"
  | .outOfRange => "input is out of range"
  | .tooLong => "trailing input"
  | .impossible => "no possible date and time matching input"

/-- The value of a run of digits. -/
def valueOf (digits : List Char) : Nat :=
  digits.foldl (fun n c => 10 * n + (c.toNat - 0x30)) 0

/-- Takes a number of at least one digit off the front, and of at most `width` digits. -/
def number (width : Option Nat) (cs : List Char) : Except Fault (Nat × List Char) :=
  let run := cs.takeWhile Char.isDigit
  let digits := width.elim run run.take
  if digits.isEmpty then .error (if cs.isEmpty then .tooShort else .invalid)
  else .ok (valueOf digits, cs.drop digits.length)

/-- Takes a number of one or two digits off the front, which has to lie in a range. -/
def smallNumber (low high : Nat) (cs : List Char) : Except Fault (Nat × List Char) := do
  let (n, cs) ← number (some 2) (Text.trimStart cs)
  if low ≤ n ∧ n ≤ high then pure (n, cs) else throw .outOfRange

/-- The values a year may have at all. -/
def checkYear (year : Int) : Except Fault Int :=
  if -0x80000000 ≤ year ∧ year < 0x80000000 then .ok year else .error .outOfRange

/-- Takes a year off the front; without a sign it has at most four digits. -/
def year (cs : List Char) : Except Fault (Int × List Char) :=
  match Text.trimStart cs with
  | '-' :: cs => do
    let (n, cs) ← number none cs
    pure (← checkYear (-n), cs)
  | '+' :: cs => do
    let (n, cs) ← number none cs
    pure (← checkYear n, cs)
  | cs => do
    let (n, cs) ← number (some 4) cs
    pure (n, cs)

/-- Takes a separator off the front. -/
def separator (sep : Char) (cs : List Char) : Except Fault (List Char) :=
  match Text.trimStart cs with
  | [] => .error .tooShort
  | c :: cs => if c = sep then .ok cs else .error .invalid

/-- Takes the mark between the date and the time off the front. -/
def timeMark : List Char → Except Fault (List Char)
  | [] => .error .tooShort
  | c :: cs => if c = 't' ∨ c = 'T' ∨ c = ' ' then .ok cs else .error .invalid

/-- Takes a fraction of a second off the front, in nanoseconds; what is smaller is cut off. -/
def fraction : List Char → Except Fault (Nat × List Char)
  | '.' :: cs => do
    let (n, rest) ← number (some 9) cs
    let used := cs.length - rest.length
    pure (n * Nat.pow 10 (9 - used), rest.dropWhile Char.isDigit)
  | cs => .ok (0, cs)

/-- Takes two digits off the front.  A character beyond ASCII is no lack of digits. -/
def digitPair : List Char → Except Fault (Nat × List Char)
  | [] => .error .tooShort
  | [c] => .error (if c.toNat < 0x80 then .tooShort else .invalid)
  | c :: d :: cs =>
    if c.isDigit && d.isDigit then .ok (valueOf [c, d], cs) else .error .invalid

/-- Takes the hours and minutes of an offset off the front, in minutes. -/
def offsetMinutes (cs : List Char) : Except Fault (Nat × List Char) := do
  let (hours, cs) ← digitPair cs
  let (minutes, cs) ← digitPair (cs.dropWhile fun c => c == ':' || Text.isWhiteSpace c)
  if minutes < 60 then pure (hours * 60 + minutes, cs) else throw .outOfRange

/-- The text begins with the name of universal time. -/
def isUniversal : List Char → Bool
  | u :: t :: c :: _ => u.toLower == 'u' && t.toLower == 't' && c.toLower == 'c'
  | _ => false

/-- Takes the offset from universal time off the front, in minutes. -/
def offset (cs : List Char) : Except Fault (Int × List Char) :=
  if isUniversal cs then .ok (0, cs.drop 3)
  else
    match cs with
    | [] => .error .tooShort
    | c :: cs =>
      if c = 'Z' ∨ c = 'z' then .ok (0, cs)
      else if c = '+' then do
        let (n, cs) ← offsetMinutes cs
        pure (n, cs)
      else if c = '-' ∨ c = '\u2212' then do
        let (n, cs) ← offsetMinutes cs
        pure (-n, cs)
      else .error .invalid

/-- The day and the minutes of universal time, where the clock is this far ahead of it. -/
def toUniversal (date : Date) (minutes : Nat) (ahead : Int) :
    Option (Date × { m : Nat // m < 1440 }) :=
  let m := minutes - ahead
  let within : { m : Nat // m < 1440 } :=
    ⟨(m % 1440).toNat, by
      have := Int.emod_lt_of_pos m (b := 1440) (by decide)
      have := Int.emod_nonneg m (b := 1440) (by decide)
      omega⟩
  if m < 0 then date.previous?.map (·, within)
  else if 1440 ≤ m then date.next?.map (·, within)
  else some (date, within)

/-- The timestamp that a text stands for. -/
def ofChars (cs : List Char) : Except Fault Timestamp := do
  let (year, cs) ← year cs
  let cs ← separator '-' cs
  let (month, cs) ← smallNumber 1 12 cs
  let cs ← separator '-' cs
  let (day, cs) ← smallNumber 1 31 cs
  let cs ← timeMark cs
  let (hour, cs) ← smallNumber 0 23 cs
  let cs ← separator ':' cs
  let (minute, cs) ← smallNumber 0 59 cs
  let cs ← separator ':' cs
  let (second, cs) ← smallNumber 0 60 cs
  let (nanosecond, cs) ← fraction cs
  let (ahead, cs) ← offset (Text.trimStart cs)
  if !(Text.trimStart cs).isEmpty then throw .tooLong
  match Date.of? year month day with
  | none => throw .outOfRange
  | some date =>
    if 1440 ≤ ahead.natAbs then throw .outOfRange
    match toUniversal date (hour * 60 + minute) ahead with
    | none => throw .impossible
    | some (date, minutes) =>
      if h : second ≤ 60 then
        pure ⟨date, minutes.1, second, nanosecond, minutes.2, h⟩
      else throw .outOfRange

/-- The timestamp that a text stands for. -/
def ofText (s : String) : Except Fault Timestamp := ofChars s.toList

end Timestamp

end ConfigVault
