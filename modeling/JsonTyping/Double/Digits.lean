import JsonTyping.Double.Basic

/-!
# The fewest digits that read back

`Double.digits` gives the decimal digits of a double: the fewest that lie in the interval of numbers
that round to it, and of those the nearest to it.
-/

namespace JsonTyping.Double

structure Decimal where
  digits : Nat
  exponent : Int
  deriving DecidableEq, Repr

/-- The numbers that round to a double, as a fraction `low / den … high / den` of ones around the
value `mid / den`; the ends belong to it iff `closed`. -/
structure Interval where
  low : Nat
  mid : Nat
  high : Nat
  den : Nat
  closed : Bool

/-- The interval of a count of units: half a step to either side, a quarter below a power of two
whose lower neighbours are closer. -/
def interval (units : Nat) : Interval :=
  let shift := excessBits units
  let significand := units >>> shift
  let below := if significand = 0x10000000000000 ∧ 0 < shift then 1 else 2
  { low := 4 * units - below <<< shift
    mid := 4 * units
    high := 4 * units + 2 <<< shift
    den := 4 * unitsPerOne
    closed := significand % 2 == 0 }

def Interval.contains (i : Interval) (num den : Nat) : Bool :=
  let low := i.low * den
  let high := i.high * den
  let x := num * i.den
  if i.closed then decide (low ≤ x ∧ x ≤ high) else decide (low < x ∧ x < high)

def scaled (d : Nat) (e : Int) : Nat × Nat :=
  if e < 0 then (d, Nat.pow 10 e.natAbs) else (d * Nat.pow 10 e.natAbs, 1)

/-- The number of the grid `10^e` nearest to the middle among those of the interval; of two equally
near ones the even one. -/
def Interval.nearest? (i : Interval) (e : Int) : Option Nat :=
  let (stepNum, stepDen) := scaled 1 e
  let num := i.mid * stepDen
  let den := i.den * stepNum
  let down := num / den
  let inside (d : Nat) : Bool := d != 0 && let (n, m) := scaled d e; i.contains n m
  let best := roundDiv num den
  if inside best then some best
  else if inside down then some down
  else if inside (down + 1) then some (down + 1)
  else none

/-- Searches the grids from the coarsest; `fuel` counts the grids left. -/
def Interval.firstGrid (i : Interval) (e : Int) : Nat → Decimal
  | 0 => ⟨(i.nearest? e).getD 0, e⟩
  | fuel + 1 =>
    match i.nearest? e with
    | some d => ⟨d, e⟩
    | none => i.firstGrid (e - 1) fuel

/-- Removes trailing zeros; `fuel` bounds the number of digits. -/
def Decimal.trim (d : Decimal) : Nat → Decimal
  | 0 => d
  | fuel + 1 =>
    if d.digits ≠ 0 ∧ d.digits % 10 = 0 then trim ⟨d.digits / 10, d.exponent + 1⟩ fuel else d

def leadingExponent (num den : Nat) : Int :=
  if den ≤ num then (Nat.log2 (num / den) : Int) * 30103 / 100000 + 1
  else -((Nat.log2 (den / num) : Int) * 30102 / 100000) + 1

/-- The fewest digits that read back to the magnitude of `x`, without trailing zeros. -/
def shortest (x : Double) : Decimal :=
  if x.units = 0 then ⟨0, 0⟩
  else
    let i := interval x.units
    (i.firstGrid (leadingExponent i.mid i.den) 20).trim 20

end JsonTyping.Double
