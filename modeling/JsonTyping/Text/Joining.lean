import JsonTyping.Text.Spans

/-!
# Joining of letters

In some scripts the letters of a word are joined, and a letter may be able to join the one before
it, the one after it, both or neither. The table holds the joining types of Unicode 15.0, for the
library `idna`.
-/

namespace JsonTyping.Text

/-- What a letter joins. -/
inductive Joining where
  | nothing
  /-- The letter after it. -/
  | next
  /-- The letter before it. -/
  | previous
  | both
  /-- Nothing itself: its neighbours join across it. -/
  | across
  deriving DecidableEq, Repr

def joiningSpans : Spans := Spans.ofRows [
  "768u 113t 274u 8t 262u 45t u t u 2t u 2t u 9t 64u 11t 5u d u 4r d r d r 5d 4r 13d u 7d r 2d",
  "21t 14u 2d t 3r 5u 15d 18r 38d r 2d 9r d r d r 2d 2r u r 8t u 6t 2u 2t u 4t 2r 10u 3d 2u d 16u",
  "r t 3d 5r 4d r 9d r d r d r 2d r 29t r 11d 3r 15d 2r 4d r d 2r 3d 2r 6d 38u 11t 25u 33d 9t 9u",
  "t 24u 4t u 9t u 3t u 7t 16u r 5d 2r d r 10d r d 3r 5t 2u d u 4d u r d 26r 3u d 2u 5d 10r 8t",
  "10d 3r u r 2d 2r 6d r 15d u 57t 55u t u t 4u 8t 4u t 3u 15t 2u 2t 29u t 58u t 4u 6t 6u t 20u",
  "4t 24u 5t 57u 2t 3u 27t 20u 2t 3u t 11u 2t 57u t 4u 8t 4u 3t 18u 4t 20u 8t 58u t 2u t u 6t 6u",
  "10t 11u 4t 28u t 61u t 12u 3t 48u t 3u t 55u t u 3t 5u 18t 10u 4t 27u t 58u t 2u t 6u t 5u 9t",
  "13u 4t 26u 2t 57u 2t 4u 5t 7u t 20u 4t 27u t 72u 5t 3u 6t 89u t 2u 11t 8u 8t 98u t 2u 9t 11u",
  "8t 72u 2t 27u t u t u t 55u 14t u 5t u 2t 5u 49t 8u t 102u 4t u 6t u 2t 2u 2t 25u 2t 4u 3t 16u",
  "4t 13u t 2u 2t 6u t 15u t 703u 3t 946u 3t 29u 2t 30u 14t 18u 14t 55u 7t 8u t 2u 11t 9u 3t 39u",
  "d 24u 96d 5u 2t 34d t 6d 112u 3t 4u 2t 9u t 6u 7t 215u 2t 2u 3t 56u t u 9t u t 2u 8t 6u 13t",
  "48u 84t 48u t u 5t u t 5u t 40u 9t 12u 2t 32u 4t 2u 2t u 3t 56u t u 2t 3u t u 3t 58u 8t 2u 5t",
  "149u 3t u 13t u 7t 4u t 6u t 3u 2t 198u 65t 719u 52t 3051u 4t 140u t 96u 32t 554u 4t 107u 4t",
  "30162u 4t u 10t 32u 2t 80u 2t 272u t 3u t 4u t 25u 2t 5u 4t 16u 50d l 81u 10t 18u 18t 13u t",
  "38u 8t 25u 11t 46u 3t 48u t 2u 4t 2u 2t 39u t 67u 6t 2u 2t 2u 11t 3u t 8u t 47u t 51u t u 3t",
  "2u 2t 5u 2t u t 42u 2t 8u 11t 228u t 2u t 4u 3t 20270u 148t 622u 37t 952u 131t 96u t 149u 10t",
  "1665u 15t 40u 8t 128u 5d r u r u 2r 2u l 5r 4d l 5d r 3d r 2u r 6t 4d r 144u d r d 3r 3d r 2d",
  "r d 2r d 8r 16u 4r 2d 337u l 33d r d 12t 379u 2t 80u 3t 48u 3d r 17d u 11t 3d r 27u 4d 2r 12d",
  "4t 42u d u 2d 3r u d 2r 2d r 2d u d 2r d 4u r d 21l 33u t 54u 15t 41u t 2u 2t 10u 3t 49u 4t 2u",
  "2t 7u 14t 48u 3t 36u 5t u 9t 61u t 12u 2t 52u 9t 10u 4t 2u t 95u 3t 2u t u 2t 6u t 2u 63t 95u",
  "t 3u 13t 16u 2t 57u 2t 3u t 37u 154t 56u 8t 2u 3t u t 23u t 84u 6t u t 4u 2t u 2t 238u 6t 4u",
  "2t u 2t 27u 36t 51u 8t 2u t u 2t 106u t u t 2u 6t u t 101u 3t 2u 4t u 9t 255u 9t u 2t 256u 2t",
  "u t 4u t 144u 8t 4u t 32u 10t 40u 6t 2u 4t 8u 9t u 6t 2u 3t 46u 13t u 2t 406u 14t u t 82u 23t",
  "u 7t u 2t u 75t 49u 21t u 9t 64u 3t 2u t u t 347u 2t 11u 2t 52u 8t 2u t u t 5373u t 6u 4025t",
  "9968u 5t 59u 7t 1048u t 63u 4t 81u 12t 19629u 2t 4705u 80t 535u 3t 17u 8t 2u 7t 30u 4t 148u 3t",
  "1979u 55t 4u 50t 8u t 14u t 22u 1125t 256u 256t 48u 7t 375u 18t 44u 4t 508u 4t 992u 82t 34d",
  "12t 988848u"]

def joining (c : Char) : Joining :=
  match (joiningSpans.find? c.toNat).map fun (span, _) => span.tag with
  | some 'l' => .next
  | some 'r' => .previous
  | some 'd' => .both
  | some 't' => .across
  | _ => .nothing

end JsonTyping.Text
