import JsonTyping.Json.Value

/-!
# Event streams

Reading a value from left to right meets events: scalars, keys, and the brackets of containers.
`Json.events` lists them and `Json.ofEvents?` builds the value of a stream.
-/

namespace JsonTyping

inductive Event where
  | null
  | bool (value : Bool)
  | number (value : Number)
  | string (value : String)
  | beginArray
  | endArray
  | beginObject
  | key (name : String)
  | endObject
  deriving DecidableEq, Repr

namespace Json

mutual

def events : Json → List Event
  | .null => [.null]
  | .bool b => [.bool b]
  | .number n => [.number n]
  | .string s => [.string s]
  | .array items => .beginArray :: (eventsOfItems items ++ [.endArray])
  | .object members => .beginObject :: (eventsOfMembers members ++ [.endObject])

def eventsOfItems : List Json → List Event
  | [] => []
  | v :: rest => v.events ++ eventsOfItems rest

def eventsOfMembers : List (String × Json) → List Event
  | [] => []
  | (k, v) :: rest => .key k :: (v.events ++ eventsOfMembers rest)

end

/-- An open container: what it holds so far, newest first. -/
inductive Partial where
  | array (items : List Json)
  | object (members : List (String × Json)) (key : Option String)

/-- A stream read halfway: the open containers, innermost first, and the value once it is there. -/
structure Assembly where
  enclosing : List Partial
  result : Option Json

namespace Assembly

def start : Assembly := ⟨[], none⟩

def put (a : Assembly) (v : Json) : Option Assembly :=
  match a.enclosing with
  | [] => if a.result.isNone then some ⟨[], some v⟩ else none
  | .array items :: outer => some { a with enclosing := .array (v :: items) :: outer }
  | .object members (some k) :: outer =>
    some { a with enclosing := .object ((k, v) :: members) none :: outer }
  | .object _ none :: _ => none

/-- Takes one event; a stray key or bracket is refused. -/
def feed (a : Assembly) : Event → Option Assembly
  | .null => a.put .null
  | .bool b => a.put (.bool b)
  | .number n => a.put (.number n)
  | .string s => a.put (.string s)
  | .beginArray => some { a with enclosing := .array [] :: a.enclosing }
  | .beginObject => some { a with enclosing := .object [] none :: a.enclosing }
  | .key k =>
    match a.enclosing with
    | .object members none :: outer =>
      some { a with enclosing := .object members (some k) :: outer }
    | _ => none
  | .endArray =>
    match a.enclosing with
    | .array items :: outer => { a with enclosing := outer }.put (.array items.reverse)
    | _ => none
  | .endObject =>
    match a.enclosing with
    | .object members none :: outer => { a with enclosing := outer }.put (.object members.reverse)
    | _ => none

end Assembly

def ofEvents? (events : List Event) : Option Json := do
  let a ← events.foldlM Assembly.feed .start
  if a.enclosing.isEmpty then a.result else none

end Json

end JsonTyping
