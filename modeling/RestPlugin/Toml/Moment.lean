import RestPlugin.Toml.Lexical

/-!
# Moments

A moment is a date, a time of day, or both, and then possibly with an offset from universal time.
However it was written, it has one spelling: a capital `T` before the time, a capital `Z` for
universal time, seconds in any case, and a fraction of at most nine digits that does not end in a
zero.
-/

namespace RestPlugin.Toml

open Source

/-- A day of the calendar. -/
structure Date where
  year : Nat
  month : Nat
  day : Nat
deriving DecidableEq, Repr

/-- A time of day. -/
structure Time where
  hour : Nat
  minute : Nat
  second : Nat
  nanosecond : Nat
deriving DecidableEq, Repr

/-- An offset from universal time: none at all, or a number of minutes. -/
inductive Offset where
  | universal
  | minutes (count : Int)
deriving DecidableEq, Repr

/-- A date, a time of day, or both. -/
inductive Moment where
  | date (day : Date)
  | time (clock : Time)
  | dateTime (day : Date) (clock : Time) (offset : Option Offset)
deriving DecidableEq, Repr

/-- A number of exactly `count` digits. -/
def fixedDigits (count : Nat) : Reader Nat := fun l =>
  let digits := l.take count
  if digits.length == count && digits.all Text.isDigit then
    some (digitsValue 10 digits, l.drop count)
  else none

/-- The number of days of a month. -/
def daysIn (year month : Nat) : Nat :=
  if month == 2 then
    if year % 4 == 0 && (year % 100 != 0 || year % 400 == 0) then 29 else 28
  else if month == 4 || month == 6 || month == 9 || month == 11 then 30
  else 31

/-- Reads a date. -/
def readDate : Reader Date := fun l => do
  let (year, l) ← fixedDigits 4 l
  let '-' :: l := l | none
  let (month, l) ← fixedDigits 2 l
  let '-' :: l := l | none
  let (day, l) ← fixedDigits 2 l
  if 1 ≤ month && month ≤ 12 && 1 ≤ day && day ≤ daysIn year month then
    some ({ year, month, day }, l)
  else none

/-- The digits of a fraction as nanoseconds; digits after the ninth are dropped. -/
def nanoseconds (digits : List Char) : Nat :=
  digitsValue 10 ((digits ++ List.replicate 9 '0').take 9)

/-- Reads the seconds of a time and their nanoseconds, if there are any.  A minute may have a leap
second. -/
def readSeconds : Reader (Nat × Nat)
  | ':' :: l => do
      let (second, l) ← fixedDigits 2 l
      if 60 < second then none
      else
        match l with
        | '.' :: fraction =>
            let digits := fraction.takeWhile Text.isDigit
            if digits.isEmpty then none
            else some ((second, nanoseconds digits), fraction.drop digits.length)
        | l => some ((second, 0), l)
  | l => some ((0, 0), l)

/-- Reads a time of day. -/
def readTime : Reader Time := fun l => do
  let (hour, l) ← fixedDigits 2 l
  let ':' :: l := l | none
  let (minute, l) ← fixedDigits 2 l
  if hour ≤ 23 && minute ≤ 59 then
    let ((second, nanosecond), l) ← readSeconds l
    some ({ hour, minute, second, nanosecond }, l)
  else none

/-- Reads an offset, if there is one. -/
def readOffset : Reader (Option Offset)
  | [] => some (none, [])
  | c :: l =>
      if c == 'Z' || c == 'z' then some (some .universal, l)
      else if c == '+' || c == '-' then do
        let (hour, l) ← fixedDigits 2 l
        let ':' :: l := l | none
        let (minute, l) ← fixedDigits 2 l
        let count : Int := hour * 60 + minute
        if hour ≤ 23 && minute ≤ 59 then
          some (some (.minutes (if c == '-' then -count else count)), l)
        else none
      else some (none, c :: l)

/-- The moment that a whole text writes. -/
def moment? (l : List Char) : Option Moment :=
  match readDate l with
  | some (date, []) => some (.date date)
  | some (date, c :: rest) =>
      if c == 'T' || c == 't' || c == ' ' then do
        let (time, rest) ← readTime rest
        let (offset, []) ← readOffset rest | none
        some (.dateTime date time offset)
      else none
  | none => do
      let (time, []) ← readTime l | none
      some (.time time)

/-- A number with zeros in front of it, up to a width. -/
def padded (width n : Nat) : String :=
  let digits := Nat.toDigits 10 n
  String.ofList (List.replicate (width - digits.length) '0' ++ digits)

/-- The spelling of a date. -/
def Date.text (date : Date) : String :=
  padded 4 date.year ++ "-" ++ padded 2 date.month ++ "-" ++ padded 2 date.day

/-- The spelling of a time of day. -/
def Time.text (time : Time) : String :=
  let whole := padded 2 time.hour ++ ":" ++ padded 2 time.minute ++ ":" ++ padded 2 time.second
  if time.nanosecond == 0 then whole
  else
    let digits := (padded 9 time.nanosecond).toList.reverse.dropWhile (· == '0')
    whole ++ "." ++ String.ofList digits.reverse

/-- The spelling of an offset. -/
def Offset.text : Offset → String
  | universal => "Z"
  | minutes count =>
      (if count < 0 then "-" else "+") ++ padded 2 (count.natAbs / 60) ++ ":" ++
        padded 2 (count.natAbs % 60)

/-- The spelling of a moment. -/
def Moment.text : Moment → String
  | date day => day.text
  | time clock => clock.text
  | dateTime day clock offset => day.text ++ "T" ++ clock.text ++ (offset.map Offset.text).getD ""

/-- The key of a moment's spelling. -/
def momentKey : String := "$__toml_private_datetime"

/-- A moment is a table with its spelling as the only entry. -/
def Moment.toNode (moment : Moment) : Node := .closedTable [(momentKey, 0, .str moment.text)]

end RestPlugin.Toml
