import JsonTyping.Text.CharClass

/-!
# Dates and times

Three ways to write a moment: a date `2024-01-31`, a date and a time of day joined by `T`, and a
timestamp with an offset from UTC. The first two are lenient about blanks in front of numbers and
about numbers of fewer digits, the last one is not.

A reader takes characters and gives what it has read with the characters left.

The readers stand for those of the library `chrono`, release 0.4.42, which the program calls: its
formats of dates and of dates with times, and its timestamps.
-/

namespace JsonTyping.Calendar

def digits? (least most : Nat) (chars : List Char) : Option (Nat × List Char) :=
  let run := (chars.take most).takeWhile Text.isAsciiDigit
  if run.length < least then none
  else some (Text.decimalValue run, chars.drop run.length)

/-- Reads one or two digits after blanks. -/
def lenientNumber? (chars : List Char) : Option (Nat × List Char) :=
  digits? 1 2 (chars.dropWhile Text.isWhiteSpace)

def char? (c : Char) : List Char → Option (List Char)
  | d :: rest => if d = c then some rest else none
  | [] => none

/-- Reads a fraction of a second, which may be missing. -/
def fraction? : List Char → Option (List Char)
  | '.' :: rest =>
    if (rest.takeWhile Text.isAsciiDigit).isEmpty then none
    else some (rest.dropWhile Text.isAsciiDigit)
  | chars => some chars

def isLeapYear (year : Int) : Bool :=
  year % 4 == 0 && (year % 100 != 0 || year % 400 == 0)

def daysInMonth (year : Int) (month : Nat) : Nat :=
  match month with
  | 2 => if isLeapYear year then 29 else 28
  | 4 | 6 | 9 | 11 => 30
  | _ => 31

def isDate (year : Int) (month day : Nat) : Bool :=
  decide (-262143 ≤ year ∧ year ≤ 262142 ∧ 1 ≤ month ∧ month ≤ 12 ∧ 1 ≤ day
    ∧ day ≤ daysInMonth year month)

/-- Reads a year: up to four digits, or any number of digits after a sign. -/
def year? (chars : List Char) : Option (Int × List Char) :=
  match chars.dropWhile Text.isWhiteSpace with
  | '-' :: rest => (digits? 1 rest.length rest).map fun (n, rest) => (-(n : Int), rest)
  | '+' :: rest => (digits? 1 rest.length rest).map fun (n, rest) => ((n : Int), rest)
  | rest => (digits? 1 4 rest).map fun (n, rest) => ((n : Int), rest)

def date? (chars : List Char) : Option (List Char) := do
  let (year, chars) ← year? chars
  let chars ← char? '-' chars
  let (month, chars) ← lenientNumber? chars
  let chars ← char? '-' chars
  let (day, chars) ← lenientNumber? chars
  if isDate year month day then some chars else none

/-- Whether a time of day exists; a minute may have a sixty-first second. -/
def isTime (hour minute second : Nat) : Bool :=
  decide (hour ≤ 23 ∧ minute ≤ 59 ∧ second ≤ 60)

def time? (chars : List Char) : Option (List Char) := do
  let (hour, chars) ← lenientNumber? chars
  let chars ← char? ':' chars
  let (minute, chars) ← lenientNumber? chars
  let chars ← char? ':' chars
  let (second, chars) ← lenientNumber? chars
  let chars ← fraction? chars
  if isTime hour minute second then some chars else none

def offset? : List Char → Option (List Char)
  | 'Z' :: rest | 'z' :: rest => some rest
  | sign :: rest =>
    if sign = '+' ∨ sign = '-' ∨ sign = '\u2212' then do
      let (hours, rest) ← digits? 2 2 rest
      let rest ← char? ':' rest
      let (minutes, rest) ← digits? 2 2 rest
      if hours ≤ 23 ∧ minutes ≤ 59 then some rest else none
    else none
  | [] => none

def separator? : List Char → Option (List Char)
  | 'T' :: rest | 't' :: rest | ' ' :: rest => some rest
  | _ => none

def timestamp? (chars : List Char) : Option (List Char) := do
  let (year, chars) ← digits? 4 4 chars
  let chars ← char? '-' chars
  let (month, chars) ← digits? 2 2 chars
  let chars ← char? '-' chars
  let (day, chars) ← digits? 2 2 chars
  let chars ← separator? chars
  let (hour, chars) ← digits? 2 2 chars
  let chars ← char? ':' chars
  let (minute, chars) ← digits? 2 2 chars
  let chars ← char? ':' chars
  let (second, chars) ← digits? 2 2 chars
  let chars ← fraction? chars
  let chars ← offset? chars
  if isDate year month day ∧ isTime hour minute second then some chars else none

def readsAll (reader : List Char → Option (List Char)) (chars : List Char) : Bool :=
  reader chars == some []

def isDateText (chars : List Char) : Bool := readsAll date? chars

def isTimestampText (chars : List Char) : Bool := readsAll timestamp? chars

def isLocalDateTimeText (chars : List Char) : Bool :=
  readsAll (fun chars => do time? (← char? 'T' (← date? chars))) chars

/-- Reads two decimal digits of any script. -/
def twoDigits? : List Char → Option (List Char)
  | a :: b :: rest => if Text.isDecimalDigit a ∧ Text.isDecimalDigit b then some rest else none
  | _ => none

/-- Splits a time that stands alone into the time of day, in two digits each, and its offset. -/
def splitTime? (chars : List Char) : Option (List Char × List Char) := do
  let rest ← twoDigits? (← char? ':' (← twoDigits? (← char? ':' (← twoDigits? chars))))
  let rest := match rest with
    | '.' :: after =>
      if (after.takeWhile Text.isDecimalDigit).isEmpty then rest
      else after.dropWhile Text.isDecimalDigit
    | _ => rest
  let valid := match rest with
    | [] | ['Z'] | ['z'] => true
    | sign :: after =>
      (sign == '+' || sign == '-')
        && readsAll (fun r => do twoDigits? (← char? ':' (← twoDigits? r))) after
  if valid then some (chars.take (chars.length - rest.length), rest) else none

def isTimeText (chars : List Char) : Bool :=
  match splitTime? chars with
  | some (time, _) => readsAll time? time
  | none => false

/-- Whether a text that looks like a time of day has an offset. -/
def timeHasOffset (chars : List Char) : Bool :=
  match splitTime? chars with
  | some (_, offset) => !offset.isEmpty
  | none => false

end JsonTyping.Calendar
