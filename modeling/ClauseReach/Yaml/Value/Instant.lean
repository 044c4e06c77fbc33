/-!
Which texts are dates, with or without a time of the day.
-/

namespace ClauseReach.Yaml.Instant

def short? : List Char → Option (Nat × List Char)
  | [] => none
  | first :: rest =>
    if !first.isDigit then none
    else
      let high := first.toNat - '0'.toNat
      match rest with
      | second :: behind =>
        if second.isDigit then some (10 * high + (second.toNat - '0'.toNat), behind)
        else some (high, rest)
      | [] => some (high, [])

def pairWithin (bound : Nat) (first second : Char) : Bool :=
  first.isDigit && second.isDigit &&
    10 * (first.toNat - '0'.toNat) + (second.toNat - '0'.toNat) ≤ bound

def below? (bound : Nat) (text : List Char) : Option (List Char) := do
  let (value, rest) ← short? text
  if value < bound then some rest else none

def skip? (c : Char) : List Char → Option (List Char)
  | [] => none
  | first :: rest => if first = c then some rest else none

def isLeap (year : Nat) : Bool := year % 4 = 0 && (year % 100 ≠ 0 || year % 400 = 0)

def daysIn (year month : Nat) : Nat :=
  if month = 2 then (if isLeap year then 29 else 28)
  else if [4, 6, 9, 11].contains month then 30
  else 31

def date? (text : List Char) : Option (List Char) := do
  let (year, rest) := text.span Char.isDigit
  if year.length ≠ 4 then none
  else
    let (month, rest) ← short? (← skip? '-' rest)
    let (day, rest) ← short? (← skip? '-' rest)
    let year := year.foldl (fun value c => 10 * value + (c.toNat - '0'.toNat)) 0
    if 1 ≤ month && month ≤ 12 && 1 ≤ day && day ≤ daysIn year month then some rest else none

def skipFraction (text : List Char) : List Char :=
  match text with
  | mark :: first :: rest =>
    if (mark = '.' || mark = ',') && first.isDigit then rest.dropWhile Char.isDigit else text
  | text => text

def time? (text : List Char) : Option (List Char) := do
  let rest ← skip? ':' (← below? 24 text)
  let rest ← skip? ':' (← below? 60 rest)
  return skipFraction (← below? 60 rest)

def isZone : List Char → Bool
  | ['Z'] => true
  | [sign, hour, hours, ':', minute, minutes] =>
    (sign = '+' || sign = '-') && pairWithin 24 hour hours && pairWithin 60 minute minutes
  | _ => false

/-- A time has a zone behind a letter, and none behind spaces. -/
def isTime : List Char → Bool
  | [] => true
  | mark :: rest =>
    if mark = 'T' || mark = 't' then (time? rest).any isZone
    else if mark = ' ' then (time? (rest.dropWhile (· = ' '))).any List.isEmpty
    else false

def isInstant (text : String) : Bool := (date? text.toList).any isTime

end ClauseReach.Yaml.Instant
