import JsonTyping.Text.CharClass

/-!
# Labels in ASCII letters

A label with other characters is written as its ASCII characters, a hyphen, and digits that say
which other characters are put in, and where. The digits form numbers of base 36, least digit first.
The digit below its threshold is a number's last, and the thresholds follow a bias that adapts to
the numbers already written. This stands for the part of the library `idna` that writes and reads
such labels.
-/

namespace JsonTyping.Url.Punycode

def digit (value : Nat) : Char :=
  if value < 26 then Char.ofNat ('a'.toNat + value) else Char.ofNat ('0'.toNat + (value - 26))

def digitValue? (c : Char) : Option Nat :=
  if Text.isAsciiDigit c then some (c.toNat - '0'.toNat + 26)
  else if Text.isAsciiLetter c then some ((Text.lowerAscii c).toNat - 'a'.toNat)
  else none

/-- The threshold of the digit at a position, counted from zero: between 1 and 26. -/
def threshold (bias position : Nat) : Nat :=
  max 1 (min 26 (36 * (position + 1) - bias))

theorem one_le_threshold (bias position : Nat) : 1 ≤ threshold bias position := by
  unfold threshold; omega

/-- How often a number above 455 is divided by 35 to get below, and what is left. -/
def scaleDown (n : Nat) : Nat × Nat :=
  if 455 < n then
    let (times, left) := scaleDown (n / 35)
    (times + 1, left)
  else (0, n)
termination_by n
decreasing_by exact Nat.div_lt_self (by omega) (by omega)

/-- The bias after a number, when `count` characters stand; the first number counts for less. -/
def nextBias (number count : Nat) (isFirst : Bool) : Nat :=
  let damped := if isFirst then number / 700 else number / 2
  let (times, left) := scaleDown (damped + damped / count)
  36 * times + 36 * left / (left + 38)

def firstBias : Nat := 72

def firstCode : Nat := 0x80

def isAscii (c : Char) : Bool := decide (c.toNat < firstCode)

def numberDigits (bias position number : Nat) : List Char :=
  let t := threshold bias position
  if h : number < t then [digit number]
  else
    digit (t + (number - t) % (36 - t))
      :: numberDigits bias (position + 1) ((number - t) / (36 - t))
termination_by number
decreasing_by
  have := one_le_threshold bias position
  exact Nat.lt_of_le_of_lt (Nat.div_le_self _ _) (by omega)

/-- A label in the course of being written: the digits so far, how far the next number has counted,
the bias, and how many characters are written. -/
structure Writing where
  digits : List Char := []
  count : Nat := 0
  bias : Nat := firstBias
  written : Nat

def Writing.pass (code basics : Nat) (w : Writing) (c : Char) : Writing :=
  if c.toNat < code then { w with count := w.count + 1 }
  else if c.toNat = code then
    { digits := w.digits ++ numberDigits w.bias 0 w.count
      count := 0
      bias := nextBias w.count (w.written + 1) (w.written == basics)
      written := w.written + 1 }
  else w

def writeCodes (label : List Char) (basics : Nat) : (next : Nat) → List Nat → Writing → Writing
  | _, [], w => w
  | next, code :: rest, w =>
    let start := { w with count := w.count + (code - next) * (w.written + 1) }
    let passed := label.foldl (Writing.pass code basics) start
    writeCodes label basics (code + 1) rest { passed with count := passed.count + 1 }

def encode (label : List Char) : List Char :=
  let basic := label.filter isAscii
  let codes := (((label.filter (!isAscii ·)).map Char.toNat).mergeSort (· ≤ ·)).eraseReps
  let written := writeCodes label basic.length firstCode codes ⟨[], 0, firstBias, basic.length⟩
  basic ++ (if basic.isEmpty then [] else ['-']) ++ written.digits

/-- A label in the course of being read: its characters, the code point and place from which the
next number counts, the bias, and of the number that is being read its position, weight and value.
-/
structure Reading where
  label : List Char
  code : Nat := firstCode
  place : Nat := 0
  bias : Nat := firstBias
  isFirst : Bool := true
  position : Nat := 0
  weight : Nat := 1
  number : Nat := 0

def Reading.putIn (r : Reading) (number : Nat) : Option Reading :=
  let count := r.label.length + 1
  let offset := r.place + number
  let code := r.code + offset / count
  if Nat.isValidChar code then
    some {
      label := r.label.insertIdx (offset % count) (Char.ofNat code)
      code
      place := offset % count + 1
      bias := nextBias number count r.isFirst
      isFirst := false }
  else none

def Reading.digit (r : Reading) (c : Char) : Option Reading := do
  let value ← digitValue? c
  let t := threshold r.bias r.position
  let number := r.number + value * r.weight
  if value < t then r.putIn number
  else
    return { r with
      number
      position := r.position + 1
      weight := r.weight * (36 - t) }

/-- The ASCII characters before the last hyphen, and what follows it; a hyphen in front of
everything separates nothing. -/
def splitBasic (chars : List Char) : List Char × List Char :=
  let digits := (chars.reverse.takeWhile (· != '-')).reverse
  let basic := chars.take (chars.length - digits.length - 1)
  if basic.isEmpty then ([], chars) else (basic, digits)

def decode? (chars : List Char) : Option (List Char) := do
  let (basic, digits) := splitBasic chars
  if !basic.all isAscii then none
  let read ← digits.foldlM Reading.digit { label := basic }
  if read.position = 0 then some read.label else none

end JsonTyping.Url.Punycode
