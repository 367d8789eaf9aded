import JsonTyping.Text.CharClass

/-!
# Lines of a text
-/

namespace JsonTyping.Text

def dropReturn (line : List Char) : List Char :=
  if line.getLast? = some '\r' then line.dropLast else line

/-- The lines of a text. A line feed, or a carriage return and a line feed, ends a line; the last
line may go without. -/
def lines (text : String) : List String :=
  let pieces := text.toList.splitOn '\n'
  let last := (pieces.getLast?).getD []
  (pieces.dropLast.map dropReturn ++ if last.isEmpty then [] else [last]).map String.ofList

def isBlank (text : String) : Bool := text.toList.all isWhiteSpace

def numberedLines (text : String) : List (Nat × String) :=
  ((lines text).zipIdx.map fun (line, i) => (i + 1, line)).filter fun (_, line) => !isBlank line

end JsonTyping.Text
