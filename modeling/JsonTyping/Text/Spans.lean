import JsonTyping.Text.CharClass

/-!
# Properties of characters as spans

A property that divides all code points from zero into stretches is written as the list of these
stretches: a length, a letter for the property's value, and a detail if the letter does not say all.
-/

namespace JsonTyping.Text

structure Span where
  length : Nat
  tag : Char
  detail : List Char

abbrev Spans := List Span

/-- Reads a span: the length, left out if it is one, the tag and the detail. -/
def Span.ofRecord? (record : List Char) : Option Span :=
  let digits := record.takeWhile isAsciiDigit
  match record.drop digits.length with
  | tag :: detail => some ⟨if digits.isEmpty then 1 else decimalValue digits, tag, detail⟩
  | [] => none

def Spans.ofRows (rows : List String) : Spans :=
  rows.flatMap fun row => (row.toList.splitOn ' ').filterMap Span.ofRecord?

/-- The span of the code point `n` places after the start of the first span, and the place of the
code point in its span. -/
def Spans.find? : Spans → Nat → Option (Span × Nat)
  | [], _ => none
  | span :: rest, n => if n < span.length then some (span, n) else find? rest (n - span.length)

end JsonTyping.Text
