import JsonTyping.Json.Fault
import JsonTyping.Json.Value

/-!
# Reading a number

A number is read one character at a time. Whole numbers from -2⁶³ to 2⁶⁴ - 1 stay whole; the
significand of every other number is what fits into 64 bits of its digits, and its value is that of
`Double.ofDecimal?`.
-/

namespace JsonTyping.Json

def significandLimit : Nat := 0xFFFFFFFFFFFFFFFF

def exponentLimit : Nat := 0x7FFFFFFF

/-- A number read halfway. The exponent is that of the last digit of the significand. -/
inductive NumberState where
  | minus
  | zero (negative : Bool)
  | whole (negative : Bool) (significand : Nat)
  /-- In digits of the whole part that no longer fit. -/
  | long (negative : Bool) (significand : Nat) (exponent : Int)
  /-- After the point; `seen` says whether a digit followed. -/
  | fraction (negative : Bool) (significand : Nat) (exponent : Int) (seen : Bool)
  /-- In digits of the fraction that no longer fit. -/
  | dropped (negative : Bool) (significand : Nat) (exponent : Int)
  | mark (negative : Bool) (significand : Nat) (exponent : Int)
  | markSign (negative : Bool) (significand : Nat) (exponent : Int) (down : Bool)
  | power (negative : Bool) (significand : Nat) (exponent : Int) (down : Bool) (value : Nat)
  /-- In an exponent so large that the number is zero. -/
  | vanished (negative : Bool)
  deriving DecidableEq, Repr

inductive NumberStep where
  | more (state : NumberState)
  | ended (result : Except Problem Number)
  | refused (problem : Problem)

namespace NumberState

def digit? (c : Char) : Option Nat :=
  if '0' ≤ c ∧ c ≤ '9' then some (c.toNat - '0'.toNat) else none

def double (negative : Bool) (significand : Nat) (exponent : Int) : Except Problem Number :=
  match Double.ofDecimal? negative significand exponent with
  | some x => .ok (.double x)
  | none => .error .numberOutOfRange

/-- A number without fraction and exponent: whole if it fits, else a double; minus zero is one. -/
def wholeNumber (negative : Bool) (significand : Nat) : Except Problem Number :=
  if !negative then .ok (.integer significand)
  else if significand ≠ 0 ∧ significand ≤ 0x8000000000000000 then
    .ok (.integer (-(significand : Int)))
  else double true significand 0

def finish : NumberState → Except Problem Number
  | minus => .error .eofInValue
  | zero negative => wholeNumber negative 0
  | whole negative significand => wholeNumber negative significand
  | long negative significand exponent => double negative significand exponent
  | fraction negative significand exponent seen =>
    if seen then double negative significand exponent else .error .eofInValue
  | dropped negative significand exponent => double negative significand exponent
  | mark .. => .error .eofInValue
  | markSign .. => .error .eofInValue
  | power negative significand exponent down value =>
    double negative significand (if down then exponent - value else exponent + value)
  | vanished negative => .ok (.double ⟨negative, 0⟩)

def feedPower (negative : Bool) (significand : Nat) (exponent : Int) (down : Bool) (value d : Nat) :
    NumberStep :=
  let value' := value * 10 + d
  if value' ≤ exponentLimit then .more (.power negative significand exponent down value')
  else if down ∨ significand = 0 then .more (.vanished negative)
  else .refused .numberOutOfRange

def feed (s : NumberState) (c : Char) : NumberStep :=
  match s, digit? c with
  | minus, some 0 => .more (.zero true)
  | minus, some d => .more (.whole true d)
  | minus, none => .refused .invalidNumber
  | zero _, some _ => .refused .invalidNumber
  | zero negative, none =>
    if c = '.' then .more (.fraction negative 0 0 false)
    else if c = 'e' ∨ c = 'E' then .more (.mark negative 0 0)
    else .ended s.finish
  | whole negative significand, some d =>
    if significand * 10 + d ≤ significandLimit then .more (.whole negative (significand * 10 + d))
    else .more (.long negative significand 1)
  | whole negative significand, none =>
    if c = '.' then .more (.fraction negative significand 0 false)
    else if c = 'e' ∨ c = 'E' then .more (.mark negative significand 0)
    else .ended s.finish
  | long negative significand exponent, some _ => .more (.long negative significand (exponent + 1))
  | long negative significand exponent, none =>
    if c = '.' then .more (.fraction negative significand exponent false)
    else if c = 'e' ∨ c = 'E' then .more (.mark negative significand exponent)
    else .ended s.finish
  | fraction negative significand exponent _, some d =>
    if significand * 10 + d ≤ significandLimit then
      .more (.fraction negative (significand * 10 + d) (exponent - 1) true)
    else .more (.dropped negative significand exponent)
  | fraction negative significand exponent seen, none =>
    if !seen then .refused .invalidNumber
    else if c = 'e' ∨ c = 'E' then .more (.mark negative significand exponent)
    else .ended s.finish
  | dropped .., some _ => .more s
  | dropped negative significand exponent, none =>
    if c = 'e' ∨ c = 'E' then .more (.mark negative significand exponent) else .ended s.finish
  | mark negative significand exponent, some d =>
    feedPower negative significand exponent false 0 d
  | mark negative significand exponent, none =>
    if c = '+' then .more (.markSign negative significand exponent false)
    else if c = '-' then .more (.markSign negative significand exponent true)
    else .refused .invalidNumber
  | markSign negative significand exponent down, some d =>
    feedPower negative significand exponent down 0 d
  | markSign .., none => .refused .invalidNumber
  | power negative significand exponent down value, some d =>
    feedPower negative significand exponent down value d
  | power .., none => .ended s.finish
  | vanished _, some _ => .more s
  | vanished _, none => .ended s.finish

end NumberState

end JsonTyping.Json
