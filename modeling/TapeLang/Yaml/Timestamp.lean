/-!
# Dates in a YAML text

A date has a year of four digits, a month and a day. A time of day may follow, after spaces or after
a letter; in the second case with a time zone.

* `isTimestamp`: whether a text is a date.
-/

namespace TapeLang.Yaml

/-- A number of one or two digits, and what follows it. -/
def shortNumber? (text : List Char) : Option (Nat × List Char) :=
  let ds := (text.take 2).takeWhile Char.isDigit
  if ds.isEmpty then none
  else some (ds.foldl (fun n c => 10 * n + (c.toNat - 0x30)) 0, text.drop ds.length)

/-- A character that has to come next. -/
def expect? (c : Char) : List Char → Option (List Char)
  | d :: rest => if c = d then some rest else none
  | [] => none

/-- The days of a month. -/
def daysIn (year month : Nat) : Nat :=
  if month = 2 then
    if year % 4 = 0 && (year % 100 ≠ 0 || year % 400 = 0) then 29 else 28
  else if month = 4 || month = 6 || month = 9 || month = 11 then 30
  else 31

/-- A day of the calendar, and what follows it. -/
def calendarDay? (text : List Char) : Option (List Char) := do
  if (text.takeWhile Char.isDigit).length ≠ 4 then none
  let year := (text.take 4).foldl (fun n c => 10 * n + (c.toNat - 0x30)) 0
  let rest ← expect? '-' (text.drop 4)
  let (month, rest) ← shortNumber? rest
  let rest ← expect? '-' rest
  let (day, rest) ← shortNumber? rest
  if month = 0 || 12 < month || day = 0 || daysIn year month < day then none
  return rest

/-- What follows a fraction of a second, if there is one. -/
def afterFraction (text : List Char) : List Char :=
  match text with
  | c :: d :: rest =>
    if (c = '.' || c = ',') && d.isDigit then rest.dropWhile Char.isDigit else text
  | _ => text

/-- A time of day, and what follows it. -/
def timeOfDay? (text : List Char) : Option (List Char) := do
  let (hour, rest) ← shortNumber? text
  let rest ← expect? ':' rest
  let (minute, rest) ← shortNumber? rest
  let rest ← expect? ':' rest
  let (second, rest) ← shortNumber? rest
  if 24 ≤ hour || 60 ≤ minute || 60 ≤ second then none
  return afterFraction rest

/-- Whether a text is a time zone. -/
def isZone : List Char → Bool
  | ['Z'] => true
  | [sign, a, b, ':', c, d] =>
    let number := fun (x y : Char) => 10 * (x.toNat - 0x30) + (y.toNat - 0x30)
    (sign = '+' || sign = '-') && [a, b, c, d].all Char.isDigit && number a b ≤ 24 &&
      number c d ≤ 60
  | _ => false

/-- Whether a text is a date, with or without a time of day. -/
def isTimestamp (text : List Char) : Bool :=
  match calendarDay? text with
  | none => false
  | some [] => true
  | some (c :: rest) =>
    if c = ' ' then timeOfDay? (rest.dropWhile (· = ' ')) == some []
    else (c = 'T' || c = 't') && ((timeOfDay? rest).map isZone).getD false

end TapeLang.Yaml
