import JsonTyping.Json.Document

/-!
# Where in a document a fault lies

While events pass by, a `Trail` keeps the key or the index of the value being read in every open
container. The place of a fault is written with keys joined by dots and indices in brackets. The
places are written as the library `serde_path_to_error`, release 0.1.20, writes them.
-/

namespace JsonTyping.Json

inductive Spot where
  | index (n : Nat)
  | key (name : Option String)
  deriving DecidableEq, Repr

abbrev Trail := List Spot

namespace Trail

def complete : Trail → Trail
  | .index n :: outer => .index (n + 1) :: outer
  | .key _ :: outer => .key none :: outer
  | [] => []

def feed (t : Trail) : Event → Trail
  | .beginArray => .index 0 :: t
  | .beginObject => .key none :: t
  | .key k => .key (some k) :: t.drop 1
  | .endArray | .endObject => complete (t.drop 1)
  | _ => complete t

/-- A part of a place: `true` where a dot separates it from the part before. -/
def part : Spot → Option (Bool × String)
  | .index n => some (false, "[" ++ toString n ++ "]")
  | .key (some k) => some (true, k)
  | .key none => none

/-- Joins the parts of a place; the place of the whole document is a dot. -/
def join : List (Bool × String) → String
  | [] => "."
  | (_, first) :: rest =>
    first ++ String.join (rest.map fun (dotted, text) => if dotted then "." ++ text else text)

def place (t : Trail) : String := join (t.reverse.filterMap part)

/-- The place of a fault: a missing key or separator of an object is an unknown part of it. -/
def placeOf (t : Trail) : Site → String
  | .value => t.place
  | .list | .colon => place (t.drop 1)
  | .key => join ((t.drop 1).reverse.filterMap part ++ [(true, "?")])
  | .afterEnd => "."

def ofEvents (events : List Event) : Trail := events.foldl feed []

end Trail

structure PlacedError where
  place : String
  cause : String
  deriving DecidableEq, Repr

def PlacedError.message (e : PlacedError) : String :=
  "at JSON path " ++ e.place ++ " → " ++ e.cause

def readPlaced (text : String) : Except PlacedError Json :=
  let bytes := text.toUTF8.toList
  match readBytes bytes with
  | .ok v => .ok v.distinct
  | .error e =>
    let events := (readEvents bytes).events.map (·.event)
    .error ⟨(Trail.ofEvents events).placeOf e.fault.site, e.message⟩

end JsonTyping.Json
