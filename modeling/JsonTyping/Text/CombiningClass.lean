import JsonTyping.Text.Spans

/-!
# Combining classes

Marks that attach to different places of a letter have different classes, and such marks may change
places without a change of meaning. A character that begins a new letter has class zero. The table
holds the classes of Unicode 15.0, for the library `idna`.
-/

namespace JsonTyping.Text

/-- The spans of equal combining class, tagged `c`; the detail is the class. -/
def combiningSpans : Spans := Spans.ofRows [
  "768c0 21c230 c232 4c220 c232 c216 5c220 2c202 4c220 2c202 11c220 5c1 4c220 8c230 c240 c230",
  "3c220 3c230 2c220 c0 3c230 4c220 c230 c232 2c220 c230 c233 2c234 c233 2c234 c233 13c230 275c0",
  "5c230 265c0 c220 4c230 c220 3c230 c222 c220 6c230 6c220 2c230 c220 2c230 c222 c228 c230 c10",
  "c11 c12 c13 c14 c15 c16 c17 c18 2c19 c20 c21 c22 c0 c23 c0 c24 c25 c0 c230 c220 c0 c18 72c0",
  "8c230 c30 c31 c32 48c0 c27 c28 c29 c30 c31 c32 c33 c34 2c230 2c220 5c230 c220 2c230 c220 16c0",
  "c35 101c0 7c230 2c0 4c230 c220 c230 2c0 2c230 c0 c220 2c230 c220 35c0 c36 30c0 c230 c220 2c230",
  "c220 2c230 3c220 c230 2c220 c230 c220 3c230 c220 c230 c220 c230 c220 c230 c220 2c230 160c0",
  "7c230 c220 c230 9c0 c220 24c0 4c230 c0 9c230 c0 3c230 c0 5c230 43c0 3c220 60c0 c230 3c220",
  "4c230 42c0 5c230 5c220 14c230 c0 c220 2c230 c220 2c230 c220 3c230 3c220 c27 c28 c29 3c230 c220",
  "2c230 2c220 5c230 60c0 c7 16c0 c9 3c0 c230 c220 2c230 103c0 c7 16c0 c9 48c0 c230 61c0 c7 16c0",
  "c9 110c0 c7 16c0 c9 110c0 c7 16c0 c9 127c0 c9 110c0 c7 16c0 c9 7c0 c84 c91 101c0 c7 16c0 c9",
  "109c0 2c9 16c0 c9 124c0 c9 109c0 2c103 c9 13c0 4c107 108c0 2c118 c9 13c0 4c122 76c0 2c220 27c0",
  "c220 c0 c220 c0 c216 55c0 c129 c130 c0 c132 5c0 4c130 2c0 c130 c0 2c230 c9 c0 2c230 62c0 c220",
  "112c0 c7 c0 2c9 82c0 c220 719c0 3c230 948c0 2c9 30c0 c9 157c0 c9 10c0 c230 203c0 c228 143c0",
  "c222 c230 c220 219c0 c230 c220 71c0 c9 20c0 8c230 2c0 c220 48c0 5c230 6c220 2c230 c220 c0",
  "2c220 2c230 2c220 5c230 c220 4c230 101c0 c7 15c0 c9 38c0 c230 c220 7c230 54c0 2c9 58c0 c7 11c0",
  "2c9 67c0 c7 152c0 3c230 c0 c1 5c220 2c230 4c220 c230 c0 7c1 4c0 c220 6c0 c230 3c0 2c230 198c0",
  "2c230 c220 7c230 c220 2c230 c234 c214 c220 c202 37c230 c232 2c228 c220 c218 c230 c233 c220",
  "c230 c220 720c0 2c230 2c1 4c230 3c1 2c230 4c0 c230 3c0 2c1 c230 c220 c230 2c1 4c220 c230",
  "3070c0 3c230 141c0 c9 96c0 32c230 554c0 c218 c228 c232 c222 2c224 105c0 2c8 30164c0 c230 4c0",
  "10c230 32c0 2c230 80c0 2c230 276c0 c9 37c0 c9 151c0 c9 27c0 18c230 57c0 3c220 37c0 c9 95c0 c7",
  "12c0 c9 239c0 c230 c0 2c230 c220 2c0 2c230 5c0 2c230 c0 c230 52c0 c9 246c0 c9 20272c0 c26",
  "769c0 7c230 7c220 2c230 973c0 c220 226c0 c220 149c0 5c230 1682c0 c220 c0 c230 40c0 c230 c1",
  "c220 4c0 c9 165c0 c230 c220 573c0 4c230 387c0 2c230 80c0 3c220 70c0 2c220 3c230 c220 c230",
  "4c220 49c0 c230 c220 c230 c220 192c0 c9 41c0 c9 14c0 c9 57c0 c9 c7 69c0 3c230 48c0 2c9 62c0 c7",
  "76c0 c9 9c0 c7 106c0 c9 c7 178c0 c7 c9 80c0 2c7 16c0 c9 24c0 7c230 3c0 5c230 205c0 c9 3c0 c7",
  "23c0 c230 99c0 c9 c7 251c0 c9 c7 126c0 c9 118c0 c9 c7 115c0 c9 269c0 c9 c7 258c0 2c9 4c0 c7",
  "156c0 c9 83c0 c9 18c0 c9 81c0 c9 421c0 c9 258c0 c7 c0 2c9 81c0 c9 425c0 2c9 19373c0 5c1 59c0",
  "7c230 1209c0 2c6 19628c0 c1 5318c0 2c216 3c1 3c0 c226 5c216 8c0 8c220 2c0 5c230 2c220 30c0",
  "4c230 148c0 3c230 3515c0 7c230 c0 17c230 2c0 7c230 c0 2c230 c0 5c230 100c0 c230 160c0 7c230",
  "375c0 c230 61c0 4c230 508c0 2c232 c220 c230 992c0 7c220 109c0 6c230 c7 988853c0"]

def combiningClass (c : Char) : Nat :=
  match combiningSpans.find? c.toNat with
  | some (span, _) => decimalValue span.detail
  | none => 0

def viramaClass : Nat := 9

end JsonTyping.Text
