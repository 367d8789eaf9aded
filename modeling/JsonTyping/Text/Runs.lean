import JsonTyping.Text.CharClass

/-!
# Sets of characters as runs

Over all code points from zero, the characters of a set and those outside it take turns. A set is
written as the lengths of these runs, beginning with the run outside.
-/

namespace JsonTyping.Text

/-- Lengths of the runs of code points, by turns outside and inside of a set. -/
abbrev Runs := List Nat

def Runs.ofRows (rows : List String) : Runs :=
  rows.flatMap fun row => (row.toList.splitOn ' ').map decimalValue

/-- Whether the code point `n` places after the start of a run is inside; `inside` says whether the
run itself is. After the last run everything is as in it. -/
def Runs.coversFrom (inside : Bool) : Runs → Nat → Bool
  | [], _ => !inside
  | length :: rest, n => if n < length then inside else coversFrom (!inside) rest (n - length)

def Runs.covers (runs : Runs) (c : Char) : Bool := runs.coversFrom false c.toNat

end JsonTyping.Text
