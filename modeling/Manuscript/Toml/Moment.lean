/-
# Dates and times

A moment is a date, a time of day, or both, and then perhaps the offset from
universal time. Its text may leave out the seconds and take any number of places
behind them, of which nine count; a second may be the sixty-first. A moment is
written in one way: with seconds, without zeros at the end of its fraction, with
a capital T before its time, and with a capital Z or a signed offset.

Key definitions: `Moment`, `Moment.parse?`, `Moment.render`.
-/

namespace Manuscript

/-- A day of the calendar. -/
structure Date where
  year : Nat
  month : Nat
  day : Nat
deriving Repr, DecidableEq

/-- A time of day. -/
structure DayTime where
  hour : Nat
  minute : Nat
  second : Nat := 0
  nanosecond : Nat := 0
deriving Repr, DecidableEq

/-- How far a clock is from universal time. -/
inductive Offset where
  | universal
  /-- This many minutes ahead, behind if negative. -/
  | ahead (minutes : Int)
deriving Repr, DecidableEq

/-- A date, a time of day, or both. -/
inductive Moment where
  | date (d : Date)
  | time (t : DayTime)
  | both (d : Date) (t : DayTime) (offset : Option Offset)
deriving Repr, DecidableEq

/-! ### Reading -/

/-- The value of decimal digits. -/
def decimal (ds : List Char) : Nat := ds.foldl (fun n c => n * 10 + (c.toNat - '0'.toNat)) 0

/-- Splits off a number of exactly `n` digits. -/
def takeNumber? (n : Nat) (cs : List Char) : Option (Nat × List Char) :=
  let ds := cs.take n
  if ds.length = n ∧ ds.all Char.isDigit then some (decimal ds, cs.drop n) else none

/-- A year of 366 days. -/
def isLeap (year : Nat) : Bool := year % 4 == 0 && (year % 100 != 0 || year % 400 == 0)

/-- The number of days of a month. -/
def monthDays (year month : Nat) : Nat :=
  if month = 2 then (if isLeap year then 29 else 28)
  else if [4, 6, 9, 11].contains month then 30
  else 31

/-- Splits off a date. -/
def takeDate? (cs : List Char) : Option (Date × List Char) := do
  let (year, rest) ← takeNumber? 4 cs
  let '-' :: rest := rest | none
  let (month, rest) ← takeNumber? 2 rest
  let '-' :: rest := rest | none
  let (day, rest) ← takeNumber? 2 rest
  if 1 ≤ month ∧ month ≤ 12 ∧ 1 ≤ day ∧ day ≤ monthDays year month then
    some (⟨year, month, day⟩, rest)
  else none

/-- Splits off the fraction of a second, in whole nanoseconds; zero if there is none. -/
def takeFraction? : List Char → Option (Nat × List Char)
  | '.' :: rest =>
    match rest.span Char.isDigit with
    | ([], _) => none
    | (places, rest) => some (decimal ((places ++ List.replicate 9 '0').take 9), rest)
  | cs => some (0, cs)

/-- Splits off the seconds and their fraction, zero if there are none. -/
def takeSeconds? : List Char → Option (Nat × Nat × List Char)
  | ':' :: rest => do
    let (second, rest) ← takeNumber? 2 rest
    if second ≤ 60 then some (second, ← takeFraction? rest) else none
  | cs => some (0, 0, cs)

/-- Splits off hours and minutes. -/
def takeClock? (cs : List Char) : Option (Nat × Nat × List Char) := do
  let (hour, rest) ← takeNumber? 2 cs
  let ':' :: rest := rest | none
  let (minute, rest) ← takeNumber? 2 rest
  if hour ≤ 23 ∧ minute ≤ 59 then some (hour, minute, rest) else none

/-- Splits off a time of day. -/
def takeTime? (cs : List Char) : Option (DayTime × List Char) := do
  let (hour, minute, rest) ← takeClock? cs
  let (second, nanosecond, rest) ← takeSeconds? rest
  some (⟨hour, minute, second, nanosecond⟩, rest)

/-- The minutes of an offset without its sign, which is the whole text. -/
def clockMinutes? (cs : List Char) : Option Int :=
  match takeClock? cs with
  | some (hour, minute, []) => some (hour * 60 + minute)
  | _ => none

/-- The offset that the whole text is, none if it is empty. -/
def Offset.parse? : List Char → Option (Option Offset)
  | [] => some none
  | ['Z'] => some (some universal)
  | ['z'] => some (some universal)
  | '+' :: rest => (clockMinutes? rest).map fun m => some (ahead m)
  | '-' :: rest => (clockMinutes? rest).map fun m => some (ahead (-m))
  | _ => none

/-- The whole text is a date. -/
def isDate (cs : List Char) : Bool := (takeDate? cs).any fun r => r.2.isEmpty

/-- The moment that the whole text is. -/
def Moment.parse? (cs : List Char) : Option Moment :=
  match takeTime? cs with
  | some (t, []) => some (time t)
  | _ =>
    match takeDate? cs with
    | some (d, []) => some (date d)
    | some (d, c :: rest) =>
      if ['T', 't', ' '].contains c then do
        let (t, rest) ← takeTime? rest
        some (both d t (← Offset.parse? rest))
      else none
    | none => none

/-! ### Writing -/

/-- A number in decimal digits, with zeros in front up to a width. -/
def padded (width n : Nat) : List Char :=
  let ds := Nat.toDigits 10 n
  List.replicate (width - ds.length) '0' ++ ds

/-- A date as it is written. -/
def Date.render (d : Date) : List Char :=
  padded 4 d.year ++ '-' :: padded 2 d.month ++ '-' :: padded 2 d.day

/-- The fraction of a second without the zeros at its end, nothing if it is zero. -/
def renderFraction (nanosecond : Nat) : List Char :=
  if nanosecond = 0 then []
  else '.' :: ((padded 9 nanosecond).reverse.dropWhile (· == '0')).reverse

/-- A time of day as it is written. -/
def DayTime.render (t : DayTime) : List Char :=
  padded 2 t.hour ++ ':' :: padded 2 t.minute ++ ':' :: padded 2 t.second
    ++ renderFraction t.nanosecond

/-- An offset as it is written. -/
def Offset.render : Offset → List Char
  | universal => ['Z']
  | ahead minutes =>
    let m := minutes.natAbs
    (if minutes < 0 then '-' else '+') :: padded 2 (m / 60) ++ ':' :: padded 2 (m % 60)

/-- A moment as it is written. -/
def Moment.render : Moment → List Char
  | date d => d.render
  | time t => t.render
  | both d t offset => d.render ++ 'T' :: t.render ++ (offset.map Offset.render).getD []

end Manuscript
