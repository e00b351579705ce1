import StackDepth.Numeral

/-!
# Days and times

A timestamp is a day such as `2001-12-14`, alone or followed by a time. Behind a letter `T` the time has a
zone, behind blanks it has none. All numbers but the year may have one digit or two.
-/

namespace StackDepth

namespace Yaml

/-- The number of days of a month. -/
def daysIn (year month : Nat) : Nat :=
  if month = 2 then
    if year % 4 = 0 ∧ (year % 100 ≠ 0 ∨ year % 400 = 0) then 29 else 28
  else if month = 4 ∨ month = 6 ∨ month = 9 ∨ month = 11 then 30
  else 31

/-- A number of one or two digits, and what follows it. -/
def shortNumber? : List Char → Option (Nat × List Char)
  | [] => none
  | c :: cs =>
      if !c.isDigit then none
      else
        match cs with
        | d :: rest =>
            if d.isDigit then some ((c.toNat - 48) * 10 + (d.toNat - 48), rest) else some (c.toNat - 48, cs)
        | [] => some (c.toNat - 48, [])

/-- A number behind a sign, and what follows it. -/
def numberBehind? (sign : Char) : List Char → Option (Nat × List Char)
  | [] => none
  | c :: cs => if c = sign then shortNumber? cs else none

/-- What follows a month and a day of a year, each behind a hyphen. -/
def behindDay? (year : Nat) (cs : List Char) : Option (List Char) := do
  let (month, cs) ← numberBehind? '-' cs
  let (day, cs) ← numberBehind? '-' cs
  if 1 ≤ month ∧ month ≤ 12 ∧ 1 ≤ day ∧ day ≤ daysIn year month then some cs else none

/-- What follows a fraction of a second, which may be missing. -/
def behindFraction : List Char → List Char
  | c :: d :: cs =>
      if (c = '.' ∨ c = ',') ∧ d.isDigit then cs.dropWhile Char.isDigit else c :: d :: cs
  | cs => cs

/-- What follows an hour, a minute and a second. -/
def behindClock? (cs : List Char) : Option (List Char) := do
  let (hour, cs) ← shortNumber? cs
  let (minute, cs) ← numberBehind? ':' cs
  let (second, cs) ← numberBehind? ':' cs
  if hour < 24 ∧ minute < 60 ∧ second < 60 then some (behindFraction cs) else none

/-- The text is a zone: a letter, or the hours and minutes that it is ahead or behind. -/
def isZone : List Char → Bool
  | ['Z'] => true
  | [sign, a, b, ':', c, d] =>
      (sign == '+' || sign == '-') &&
        match Numeral.magnitude? 10 [a, b], Numeral.magnitude? 10 [c, d] with
        | some hours, some minutes => hours ≤ 24 && minutes ≤ 60
        | _, _ => false
  | _ => false

/-- The text is a time behind the day. -/
def isTime : List Char → Bool
  | [] => true
  | c :: cs =>
      if c = 'T' ∨ c = 't' then
        match behindClock? cs with
        | some zone => isZone zone
        | none => false
      else c == ' ' && behindClock? (cs.dropWhile (· == ' ')) == some []

/-- The text is a timestamp. -/
def isTimestamp (s : String) : Bool :=
  let (digits, rest) := s.toList.span Char.isDigit
  match Numeral.magnitude? 10 digits with
  | some year =>
      digits.length == 4 &&
        match behindDay? year rest with
        | some cs => isTime cs
        | none => false
  | none => false

end Yaml

end StackDepth
