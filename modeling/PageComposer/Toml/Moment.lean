import PageComposer.Text.Search
import PageComposer.Toml.Digits

namespace PageComposer
namespace Toml

/-!
# Points in time

A point in time is a day, a time of day, or both, and with both of them it may
have an offset from universal time.  It is written in one way only, whichever
way it was read: with a `T` between day and time, and with no more digits of a
second than it needs.

Readers return what they have read with the text behind it.
-/

/-- A day of the calendar. -/
structure Day where
  year : Nat
  month : Nat
  day : Nat
deriving DecidableEq

/-- A time of day.  Its seconds may be left out. -/
structure Time where
  hour : Nat
  minute : Nat
  second? : Option Nat
  /-- Billionths of a second, where a fraction is written. -/
  billionths? : Option Nat
deriving DecidableEq

/-- How far a time is from universal time. -/
inductive Offset
  | universal
  /-- Minutes ahead of universal time. -/
  | ahead (minutes : Int)
deriving DecidableEq

/-- A point in time. -/
inductive Moment
  | day (day : Day)
  | time (time : Time)
  | both (day : Day) (time : Time) (offset? : Option Offset)
deriving DecidableEq

/-! ## Reading -/

/-- The number of days of a month. -/
def daysIn (year month : Nat) : Nat :=
  if month = 2 then
    if year % 4 = 0 ∧ (year % 100 ≠ 0 ∨ year % 400 = 0) then 29 else 28
  else if month = 4 ∨ month = 6 ∨ month = 9 ∨ month = 11 then 30
  else 31

/-- A day at the front of a text. -/
def day? (text : Text) : Option (Day × Text) := do
  let (year, rest) <- fixedDigits? 4 text
  let rest <- Text.dropStart? ['-'] rest
  let (month, rest) <- fixedDigits? 2 rest
  let rest <- Text.dropStart? ['-'] rest
  let (day, rest) <- fixedDigits? 2 rest
  if 1 ≤ month ∧ month ≤ 12 ∧ 1 ≤ day ∧ day ≤ daysIn year month then
    pure (⟨year, month, day⟩, rest)
  else none

/-- Billionths from the digits of a fraction.  Digits behind the ninth are cut
off. -/
def billionths (digits : Text) : Nat :=
  numberOf 10 (digits.take 9) * Nat.pow 10 (9 - digits.length)

/-- A fraction of a second at the front of a text, if there is one. -/
def fraction? (text : Text) : Option (Option Nat × Text) :=
  match text with
  | '.' :: rest =>
      let digits := rest.takeWhile isDigit
      if digits.isEmpty then none
      else some (some (billionths digits), rest.dropWhile isDigit)
  | _ => some (none, text)

/-- A time of day at the front of a text.  A leap second is a second. -/
def time? (text : Text) : Option (Time × Text) := do
  let (hour, rest) <- fixedDigits? 2 text
  let rest <- Text.dropStart? [':'] rest
  let (minute, rest) <- fixedDigits? 2 rest
  if hour ≤ 23 ∧ minute ≤ 59 then
    match rest with
    | ':' :: rest => do
        let (second, rest) <- fixedDigits? 2 rest
        if second ≤ 60 then do
          let (billionths?, rest) <- fraction? rest
          pure (⟨hour, minute, some second, billionths?⟩, rest)
        else none
    | _ => pure (⟨hour, minute, none, none⟩, rest)
  else none

/-- The offset that a whole text is. -/
def offset? (text : Text) : Option Offset :=
  match text with
  | ['Z'] => some .universal
  | ['z'] => some .universal
  | sign :: rest => do
      let (hour, rest) <- fixedDigits? 2 rest
      let rest <- Text.dropStart? [':'] rest
      let (minute, rest) <- fixedDigits? 2 rest
      let minutes : Int := ↑(60 * hour + minute)
      if hour ≤ 23 ∧ minute ≤ 59 ∧ rest = [] then
        if sign = '+' then some (.ahead minutes)
        else if sign = '-' then some (.ahead (-minutes))
        else none
      else none
  | [] => none

/-- The point in time that a whole text is. -/
def moment? (text : Text) : Option Moment :=
  match day? text with
  | some (day, []) => some (.day day)
  | some (day, separator :: rest) => do
      let (time, rest) <- time? rest
      if separator = 'T' ∨ separator = 't' ∨ separator = ' ' then
        if rest.isEmpty then pure (.both day time none)
        else pure (.both day time (some (<- offset? rest)))
      else none
  | none =>
      match time? text with
      | some (time, []) => some (.time time)
      | _ => none

/-! ## Writing -/

/-- A day as it is written. -/
def Day.text (day : Day) : Text :=
  padded 4 day.year ++ '-' :: padded 2 day.month ++ '-' :: padded 2 day.day

/-- A fraction of a second as it is written: without zeros at its end, but
with one digit at least. -/
def fractionText (billionths : Nat) : Text :=
  let digits := ((padded 9 billionths).reverse.dropWhile (· == '0')).reverse
  '.' :: if digits.isEmpty then ['0'] else digits

/-- A time of day as it is written. -/
def Time.text (time : Time) : Text :=
  let seconds := (time.second?.map fun second => ':' :: padded 2 second).getD []
  let fraction := (time.billionths?.map fractionText).getD []
  padded 2 time.hour ++ ':' :: padded 2 time.minute ++ seconds ++ fraction

/-- An offset as it is written. -/
def Offset.text : Offset -> Text
  | universal => ['Z']
  | ahead minutes =>
      (if minutes < 0 then '-' else '+') :: padded 2 (minutes.natAbs / 60) ++
        ':' :: padded 2 (minutes.natAbs % 60)

/-- A point in time as it is written. -/
def Moment.text : Moment -> Text
  | day date => date.text
  | time clock => clock.text
  | both date clock offset? =>
      date.text ++ 'T' :: clock.text ++ (offset?.map Offset.text).getD []

end Toml
end PageComposer
