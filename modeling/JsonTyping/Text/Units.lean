/-!
# Length in UTF-16 units

A character beyond the first 65536 takes two 16-bit units, every other one takes one.
-/

namespace JsonTyping.Text

def charUnits (c : Char) : Nat := if c.toNat < 0x10000 then 1 else 2

def units16 (s : String) : Nat := s.toList.foldr (fun c n => charUnits c + n) 0

/-- Whether a text has at most `limit` 16-bit units. A text of no more bytes than that has no more
units either, which saves counting them. -/
def fitsUnits16 (s : String) (limit : Nat) : Bool :=
  decide (s.utf8ByteSize ≤ limit) || decide (units16 s ≤ limit)

end JsonTyping.Text
