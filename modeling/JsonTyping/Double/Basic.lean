/-!
# Finite double-precision numbers

Every finite double is a whole number of *units*, where a unit is the least positive double, 2⁻¹⁰⁷⁴.
A `Double` is therefore a sign and a count of units, and arithmetic is exact arithmetic on counts
followed by rounding to a count that has at most 53 significant bits (`roundUnits`).
-/

namespace JsonTyping

/-- A finite double: its sign and its magnitude in units of 2⁻¹⁰⁷⁴. Zero has two signs. -/
structure Double where
  negative : Bool
  units : Nat
  deriving DecidableEq, Repr, Inhabited

namespace Double

/-- The number of units in one. -/
def unitsPerOne : Nat := Nat.pow 2 1074

/-- The least count of units that is too large for a finite double. -/
def unitsLimit : Nat := Nat.pow 2 2098

def zero : Double := ⟨false, 0⟩

/-- `num / den` to the nearest whole number, a half to the even neighbour. -/
def roundDiv (num den : Nat) : Nat :=
  let q := num / den
  let r := num % den
  if 2 * r < den then q
  else if den < 2 * r then q + 1
  else if q % 2 = 0 then q else q + 1

/-- How many low bits of a count around `q` lie beyond its 53 significant ones. -/
def excessBits (q : Nat) : Nat := Nat.log2 q - 52

/-- The count with at most 53 significant bits that is nearest to `num / den`, ties to even. -/
def roundUnits (num den : Nat) : Nat :=
  let shift := excessBits (num / den)
  roundDiv num (den <<< shift) <<< shift

/-- The double of magnitude nearest to `num / den` units, unless that is too large. -/
def ofRatio? (negative : Bool) (num den : Nat) : Option Double :=
  let units := roundUnits num den
  if units < unitsLimit then some ⟨negative, units⟩ else none

def ofNat? (n : Nat) : Option Double := ofRatio? false (n * unitsPerOne) 1

/-- The double nearest to a whole number of fewer than 1024 bits; larger ones do not occur. -/
def ofInt (n : Int) : Double :=
  let magnitude := (ofNat? n.natAbs).getD zero
  { magnitude with negative := decide (n < 0) }

def mul? (x y : Double) : Option Double :=
  ofRatio? (x.negative != y.negative) (x.units * y.units) unitsPerOne

def div? (x y : Double) : Option Double :=
  ofRatio? (x.negative != y.negative) (x.units * unitsPerOne) y.units

def toUnits (x : Double) : Int := if x.negative then -(x.units : Int) else x.units

def lt (x y : Double) : Bool := decide (x.toUnits < y.toUnits)

/-- Whether the two values are the same; the sign of zero does not count. -/
def same (x y : Double) : Bool := decide (x.toUnits = y.toUnits)

/-- The smaller value; of equal ones the first. -/
def min (x y : Double) : Double := if y.lt x then y else x

/-- The larger value; of equal ones the second. -/
def max (x y : Double) : Double := if y.lt x then x else y

def isWhole (x : Double) : Bool := x.units % unitsPerOne == 0

/-- The double nearest to 10ᵏ, for k at most 308. -/
def powerOfTen (k : Nat) : Double := (ofNat? (Nat.pow 10 k)).getD zero

/-- `x` divided by 10ᵏ, in steps of at most 308 powers of ten, each of which rounds. -/
def divPowerOfTen (x : Double) (k : Nat) : Double :=
  if k ≤ 308 then (x.div? (powerOfTen k)).getD x
  else if x.units = 0 then x
  else divPowerOfTen ((x.div? (powerOfTen 308)).getD x) (k - 308)
termination_by k

/-- The double for `significand · 10ᵉ`: the significand is rounded first and the product or the
quotient by the power of ten again. There is none when the value is too large. -/
def ofDecimal? (negative : Bool) (significand : Nat) (e : Int) : Option Double := do
  let x ← ofNat? significand
  let scaled ←
    if e < 0 then some (x.divPowerOfTen e.natAbs)
    else if e ≤ 308 then x.mul? (powerOfTen e.natAbs)
    else if x.units = 0 then some x else none
  return { scaled with negative }

end Double

end JsonTyping
