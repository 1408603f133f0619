import FlightLink.Toml.Layout

/-!
# TOML dates and times

A moment is a date, a time of day, or a date and a time with an optional offset from universal
time. A date must exist in the Gregorian calendar; a minute may have a leap second.
-/

namespace FlightLink.Toml

/-- Reads exactly `count` decimal digits. -/
def fixedDigits? : (count : Nat) → Reader Nat
  | 0, s => some (0, s)
  | count + 1, c :: r => do
    if c.isDigit then
      let (n, rest) ← fixedDigits? count r
      some ((c.toNat - '0'.toNat) * Nat.pow 10 count + n, rest)
    else none
  | _ + 1, [] => none

/-- Reads two digits that make a number within bounds. -/
def twoDigits? (least most : Nat) (s : List Char) : Option (Nat × List Char) := do
  let (n, rest) ← fixedDigits? 2 s
  if least ≤ n ∧ n ≤ most then some (n, rest) else none

/-- Reads one given character. -/
def char? (c : Char) : List Char → Option (List Char)
  | d :: r => if c = d then some r else none
  | [] => none

/-- Whether the year has a 29 February. -/
def isLeapYear (year : Nat) : Bool := year % 4 = 0 && (year % 100 ≠ 0 || year % 400 = 0)

/-- The number of days of a month. -/
def daysOfMonth (year month : Nat) : Nat :=
  if month = 2 then (if isLeapYear year then 29 else 28)
  else if month ∈ [4, 6, 9, 11] then 30
  else 31

/-- Reads over a date. -/
def skipDate? (s : List Char) : Option (List Char) := do
  let (year, r) ← fixedDigits? 4 s
  let (month, r) ← twoDigits? 1 12 (← char? '-' r)
  let (day, r) ← twoDigits? 1 31 (← char? '-' r)
  if day ≤ daysOfMonth year month then some r else none

/-- Reads over a time of day. -/
def skipTime? (s : List Char) : Option (List Char) := do
  let (_, r) ← twoDigits? 0 23 s
  let (_, r) ← twoDigits? 0 59 (← char? ':' r)
  let (_, r) ← twoDigits? 0 60 (← char? ':' r)
  match r with
  | '.' :: c :: r' => some (if c.isDigit then r'.dropWhile Char.isDigit else r)
  | r => some r

/-- Reads over an offset from universal time, if there is one. -/
def skipOffset? : List Char → Option (List Char)
  | 'Z' :: r => some r
  | 'z' :: r => some r
  | c :: r =>
    if c = '+' || c = '-' then do
      let (_, r) ← twoDigits? 0 23 r
      let (_, r) ← twoDigits? 0 59 (← char? ':' r)
      some r
    else some (c :: r)
  | [] => some []

/-- Reads over a date with what may follow it: a time, and then an offset. -/
def skipDateTime? (s : List Char) : Option (List Char) := do
  let r ← skipDate? s
  match r with
  | c :: r' =>
    if c = 'T' || c = 't' || c = ' ' then
      match skipTime? r' with
      | some r'' => skipOffset? r''
      | none => some r
    else some r
  | [] => some []

/-- Reads over a moment. -/
def skipMoment? (s : List Char) : Option (List Char) := skipDateTime? s <|> skipTime? s

end FlightLink.Toml
