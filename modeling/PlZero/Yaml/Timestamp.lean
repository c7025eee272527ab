namespace PlZero.Yaml.Timestamp

def shortNumber? : List Char → Option (Nat × List Char)
  | a :: b :: rest =>
      if a.isDigit then
        if b.isDigit then some ((a.toNat - 48) * 10 + (b.toNat - 48), rest)
        else some (a.toNat - 48, b :: rest)
      else none
  | [a] => if a.isDigit then some (a.toNat - 48, []) else none
  | [] => none

def pair? : List Char → Option (Nat × List Char)
  | a :: b :: rest =>
      if a.isDigit && b.isDigit then some ((a.toNat - 48) * 10 + (b.toNat - 48), rest) else none
  | _ => none

def expect (c : Char) : List Char → Option (List Char)
  | d :: rest => if d = c then some rest else none
  | [] => none

def isLeapYear (year : Nat) : Bool :=
  year % 4 == 0 && (year % 100 != 0 || year % 400 == 0)

def daysIn (year month : Nat) : Nat :=
  if month = 2 then if isLeapYear year then 29 else 28
  else if month = 4 ∨ month = 6 ∨ month = 9 ∨ month = 11 then 30
  else 31

def date? (cs : List Char) : Option (List Char) := do
  let digits := cs.takeWhile Char.isDigit
  if digits.length ≠ 4 then none
  let year := digits.foldl (fun n d => n * 10 + (d.toNat - 48)) 0
  let (month, rest) ← shortNumber? (← expect '-' (cs.drop 4))
  let (day, rest) ← shortNumber? (← expect '-' rest)
  if 1 ≤ month ∧ month ≤ 12 ∧ 1 ≤ day ∧ day ≤ daysIn year month then some rest else none

def skipFraction (cs : List Char) : List Char :=
  match cs with
  | mark :: d :: rest =>
      if (mark == '.' || mark == ',') && d.isDigit then rest.dropWhile Char.isDigit else cs
  | cs => cs

def time? (cs : List Char) : Option (List Char) := do
  let (hour, rest) ← shortNumber? cs
  let (minute, rest) ← shortNumber? (← expect ':' rest)
  let (second, rest) ← shortNumber? (← expect ':' rest)
  if hour < 24 ∧ minute < 60 ∧ second < 60 then some (skipFraction rest) else none

def zone? (cs : List Char) : Option (List Char) :=
  match cs with
  | 'Z' :: rest => some rest
  | sign :: rest => do
      if sign ≠ '+' ∧ sign ≠ '-' then none
      let (hours, rest) ← pair? rest
      let (minutes, rest) ← pair? (← expect ':' rest)
      if hours ≤ 24 ∧ minutes ≤ 60 then some rest else none
  | [] => none

end Timestamp

def isTimestamp (cs : List Char) : Bool :=
  match Timestamp.date? cs with
  | none => false
  | some [] => true
  | some (mark :: rest) =>
      if mark == 'T' || mark == 't' then
        (Timestamp.time? rest).bind Timestamp.zone? == some []
      else if mark == ' ' then
        Timestamp.time? (rest.dropWhile (· == ' ')) == some []
      else false

end PlZero.Yaml
