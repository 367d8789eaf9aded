import JsonTyping.Double.Digits

/-!
# The written form of a double

`Double.text` is positional for exponents from -5 to 15 and scientific otherwise.
-/

namespace JsonTyping.Double

def zeros (n : Nat) : String := String.ofList (List.replicate n '0')

def Decimal.positional (d : Decimal) : String :=
  let digits := toString d.digits
  let count := digits.length
  if 0 ≤ d.exponent then digits ++ zeros d.exponent.natAbs ++ ".0"
  else
    let places := d.exponent.natAbs
    if places < count then
      String.ofList (digits.toList.take (count - places)) ++ "."
        ++ String.ofList (digits.toList.drop (count - places))
    else "0." ++ zeros (places - count) ++ digits

def Decimal.scientific (d : Decimal) : String :=
  let digits := (toString d.digits).toList
  let e := d.exponent + (digits.length : Int) - 1
  let fraction := digits.drop 1
  let mantissa :=
    String.ofList (digits.take 1) ++ if fraction.isEmpty then "" else "." ++ String.ofList fraction
  mantissa ++ "e" ++ (if e < 0 then "-" else "+") ++ toString e.natAbs

def signed (x : Double) (magnitude : String) : String :=
  if x.negative then "-" ++ magnitude else magnitude

/-- The written form: positional when the exponent of the leading digit is from -5 to 15. -/
def text (x : Double) : String :=
  let d := x.shortest
  let e := d.exponent + ((toString d.digits).length : Int) - 1
  x.signed (if -5 ≤ e ∧ e < 16 then d.positional else d.scientific)

end JsonTyping.Double
