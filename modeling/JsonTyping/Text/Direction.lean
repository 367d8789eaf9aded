import JsonTyping.Text.Spans

/-!
# Directions of writing

Letters run from left to right or from right to left, numbers and punctuation go along with what
stands beside them. The table holds the directions of Unicode 15.0, for the library `idna`.
-/

namespace JsonTyping.Text

/-- How a character takes part in the direction of a line. -/
inductive Direction where
  | leftToRight
  | rightToLeft
  /-- A digit that is used with letters from right to left. -/
  | arabicNumber
  /-- A digit that is used with letters of both directions. -/
  | number
  | neutral
  /-- A mark, which goes along with the character before it. -/
  | mark
  /-- A character that ends a line or starts a stretch of its own direction. -/
  | control
  deriving DecidableEq, Repr

def directionSpans : Spans := Spans.ofRows [
  "9o 5x 14o 5x 15o 10e 39o 26l 100o 24l o 449l 2o 7l 14o 2l 28o l 17o 113n 4l 2o 127l 2o 139l 8n",
  "255l 7o 45n r n r 2n r 2n r 9n 54r 2o r 2o r o r 2o 11n 48r 21n 10a o 2a 3r n 101r 8n o 6n 2r",
  "2n o 4n 2r 10e 23r n 30r 29n 89r 11n 58r 9n 2r 4o 3r n 24r 4n r 9n r 3n r 7n 41r 5n 58r 8n 42r",
  "57n 55l n l n 4l 8n 4l n 3l 15n 2l 2n 29l n 58l n 4l 6n 6l n 20l 4n 12l 2o 7l o 2l 5n 57l 2n",
  "3l 27n 20l 2n 3l n 11l 2n 57l n 4l 8n 4l 3n 18l 4n 11l 8o l 8n 58l n 2l n l 6n 6l 10n 11l 4n",
  "28l n 61l n 12l 3n 35l 13o n 3l n 55l n l 3n 5l 18n 10l 4n 18l 7o 2l n 58l n 15l 9n 13l 4n 26l",
  "2n 57l 2n 4l 5n 7l n 20l 4n 27l n 72l 5n 3l 6n 89l n 2l 11n o 7l 8n 98l n 2l 9n 11l 8n 72l 2n",
  "27l n l n l n 4o 51l 14n l 5n l 2n 5l 49n 8l n 102l 4n l 6n l 2n 2l 2n 25l 2n 4l 3n 16l 4n 13l",
  "n 2l 2n 6l n 15l n 703l 3n 48l 16o 96l o 666l 5o 114l 3n 29l 2n 30l 14n 18l 14n 55l 7n 8l n 2l",
  "11n 7l o l 3n 16l 32o 117l 2n 34l n 118l 3n 4l 2n 9l n 6l 7n 6o 152l 34o 23l 2n 2l 3n 56l n l",
  "9n l n 2l 8n 6l 13n 48l 84n 48l n l 5n l n 5l n 40l 9n 12l 2n 32l 4n 2l 2n l 3n 56l n l 2n 3l",
  "n l 3n 58l 8n 2l 5n 149l 3n l 13n l 7n 4l n 6l n 3l 2n 198l 65n 523l 196o 52n 74o 60l 428o 69l",
  "26o l 790o l 339o 256l 816o 181l 7o 3l 4n 6l 7o 127l n 96l 32n 517o 3l 25o 9l 4n 2l o 6l 4o 2l",
  "4o 88l 4n 3l o 90l o 196l 48o 7120l 64o 22160l 64o 317l 3o 95l 4n o 10n 3o 29l 2n 80l 2n 14l",
  "35o 101l o 121l n 3l n 4l n 25l 2n l 4o 4n 8l 8o 52l 12o 68l 10n 18l 18n 13l n 38l 8n 25l 11n",
  "46l 3n 48l n 2l 4n 2l 2n 39l n 67l 6n 2l 2n 2l 11n 3l n 8l n 47l n 51l n l 3n 2l 2n 5l 2n l n",
  "42l 2n 8l 11n 105l 86o 37l n 2l n 4l 3n 20270l 148n 396r 226o 37n 46o 397r 257l o 62l 77o 3l",
  "64o 45l 131n 96l n 31e 118l 10n 1152l 287r o 225r 15n 40r 8n 165r 6n 78r 7o 484r 12n 336a 43r",
  "2n 80r 3n 70r 11n 49r 4n 122r l n 54l 15n 11l 20o 10l n 2l 2n 10l 3n 49l 4n 2l 2n 7l 14n 48l",
  "3n 36l 5n l 9n 61l n 12l 2n 52l 9n 10l 4n 2l n 95l 3n 2l n l 2n 6l n 2l 63n 95l n 3l 13n 16l",
  "2n 57l 2n 3l n 37l 154n 56l 8n 2l 3n l n 23l n 84l 6n l n 4l 2n l 2n 238l 6n 4l 2n l 2n 27l",
  "36n 51l 8n 2l n l 2n 31l 32o 43l n l n 2l 6n l n 101l 3n 2l 4n l 9n 255l 9n l 2n 256l 2n l n",
  "4l n 144l 8n 4l n 32l 6n 2l 2n 40l 6n 2l 4n 8l 9n l 6n 2l 3n 46l 13n l 2n 406l 14n 84l 23n l",
  "7n l 2n l 75n 49l 21n l 9n 64l 3n 2l n l n 347l 2n 11l 2n 52l 8n 2l n l n 146l 42o 5185l n 6l",
  "4025n 9968l 5n 59l 7n 1048l n 63l 4n 79l o l 12n 19629l 2n 4705l 80n 535l 3n 17l 8n 2l 7n 30l",
  "4n 59l 89o 3n 123o 64l 96o 1696l 55n 4l 50n 8l n 14l n 22l 1125n 256l 256n 48l 7n 375l 18n 44l",
  "4n 15l 465o 28l 4n 784l 208r 82n 34r 7n 1445r 608o 29l 3o 61l 57o 122l 3488o 983040l"]

def direction (c : Char) : Direction :=
  match (directionSpans.find? c.toNat).map fun (span, _) => span.tag with
  | some 'r' => .rightToLeft
  | some 'a' => .arabicNumber
  | some 'e' => .number
  | some 'o' => .neutral
  | some 'n' => .mark
  | some 'x' => .control
  | _ => .leftToRight

end JsonTyping.Text
