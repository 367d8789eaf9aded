import JsonTyping.Json.Document
import JsonTyping.Samples.Table

/-!
# Recording values from their events

A `Recorder` takes the events of a value one by one (`Recorder.feed`) and puts what matters into its
table (SPEC_FULL.md §4.1). It takes exactly the event streams of values. A text that turns out not
to be JSON leaves nothing open.

The program stops where an index is too large for a handle (`Recorder.takeChecked`). Samples are
recorded as if there were always room, as there is while entries and events together are at most 2²⁸
(`Recorder.takeChecked_iff_events`).
-/

namespace JsonTyping

/-- A container whose end has not come yet: what it holds so far, newest first. -/
inductive OpenRow where
  /-- An object, with the index of a key that has no value yet. -/
  | object (members : List (Nat × Handle)) (key : Option Nat)
  | array (items : List Handle)
  deriving DecidableEq, Repr

/-- A table, the open containers, innermost first, and the finished value if it was not taken yet.
-/
structure Recorder where
  table : Table
  enclosing : List OpenRow
  root : Option Handle

namespace Recorder

def empty (settings : Settings) : Recorder := ⟨.empty settings, [], none⟩

def intern (r : Recorder) (s : String) : Recorder × Nat :=
  let (table, i) := r.table.intern s
  ({ r with table }, i)

def put (r : Recorder) (h : Handle) : Except Misuse Recorder :=
  match r.enclosing with
  | [] => if r.root.isSome then .error .rootCommittedTwice else .ok { r with root := some h }
  | .object _ none :: _ => .error .valueWithoutKey
  | .object members (some key) :: outer =>
    .ok { r with enclosing := .object ((key, h) :: members) none :: outer }
  | .array items :: outer => .ok { r with enclosing := .array (h :: items) :: outer }

/-- The key that waits for its value. -/
def pendingKey? (r : Recorder) : Option Nat :=
  match r.enclosing with
  | .object _ key :: _ => key
  | _ => none

/-- Puts a value that was made with an index, and the key that waits for it, if there is one, with
another: where either is above the limit, nothing is put. -/
def putWithin (limit : Nat) (r : Recorder) (h : Handle) : Except Misuse Recorder :=
  if h.index ≤ limit && r.pendingKey?.all (· ≤ limit) then r.put h else .error .tableOverflow

/-- Whether a text would be the target of a reference: the value of a key `$ref`, where references
are handled. -/
def expectsTarget (r : Recorder) : Bool :=
  match r.enclosing with
  | .object _ (some key) :: _ => r.table.settings.handleRefs && r.table.string key == "$ref"
  | _ => false

def setKey (r : Recorder) (name : String) : Except Misuse Recorder :=
  let (r, i) := r.intern name
  match r.enclosing with
  | .object members none :: outer => .ok { r with enclosing := .object members (some i) :: outer }
  | .object _ (some _) :: _ => .error .keySetTwice
  | _ => .error .keyOutsideObject

/-- What an event makes of a recorder, and the handle of the value that it ends, if it ends one. -/
def make (r : Recorder) : Event → Except Misuse (Recorder × Option Handle)
  | .null => .ok (r, some .null)
  | .bool b => .ok (r, some (.bool b))
  | .number (.integer _) => .ok (r, some .integer)
  | .number (.double _) => .ok (r, some .double)
  | .string s =>
    let (table, h) := r.table.addText r.expectsTarget s
    .ok ({ r with table }, some h)
  | .beginArray => .ok ({ r with enclosing := .array [] :: r.enclosing }, none)
  | .endArray =>
    match r.enclosing with
    | .array items :: outer =>
      let (table, h) := r.table.addArray items.reverse
      .ok ({ r with table, enclosing := outer }, some h)
    | _ => .error .noOpenArray
  | .beginObject => .ok ({ r with enclosing := .object [] none :: r.enclosing }, none)
  | .key name => (r.setKey name).map (·, none)
  | .endObject =>
    match r.enclosing with
    | .object members none :: outer =>
      let (table, h) := r.table.addObject members.reverse
      .ok ({ r with table, enclosing := outer }, some h)
    | .object _ (some _) :: _ => .error .danglingKey
    | _ => .error .noOpenObject

/-- Takes an event; `commit` puts the handle of a value where it belongs. -/
def feedWith (commit : Recorder → Handle → Except Misuse Recorder) (r : Recorder) (e : Event) :
    Except Misuse Recorder := do
  let (r, made) ← r.make e
  match made with
  | some h => commit r h
  | none => return r

def feed (r : Recorder) (e : Event) : Except Misuse Recorder := r.feedWith put e

def finish (r : Recorder) : Except Misuse (Recorder × Handle) :=
  if r.enclosing.isEmpty then
    match r.root with
    | some h => .ok ({ r with root := none }, h)
    | none => .error .noRoot
  else .error (.stillOpen r.enclosing.length)

/-- Forgets a value that was recorded halfway. -/
def abandon (r : Recorder) : Recorder := { r with enclosing := [], root := none }

/-- A stream of events, and then the request for the value. -/
def takeWith (commit : Recorder → Handle → Except Misuse Recorder) (r : Recorder)
    (stream : List Event) : Except Misuse (Recorder × Handle) :=
  stream.foldlM (feedWith commit) r >>= finish

/-- As the program takes a stream: no index is larger than a handle has room for. -/
def takeChecked (r : Recorder) (stream : List Event) : Except Misuse (Recorder × Handle) :=
  r.takeWith (putWithin Handle.maxIndex) stream

def addDocument (r : Recorder) (document : Json) : Except Misuse (Recorder × Handle) := do
  (← document.events.foldlM feed r).finish

/-- Records a text as it is read, repeated keys included. -/
def addText (r : Recorder) (text : String) :
    Except Misuse (Recorder × Except Json.ReadError Handle) := do
  let bytes := text.toUTF8.toList
  let reading := Json.readEvents bytes
  let r ← (reading.events.map (·.event)).foldlM feed r
  match reading.fault with
  | some fault => return (r.abandon, .error ⟨bytes, fault⟩)
  | none =>
    let (r, h) ← r.finish
    return (r, .ok h)

end Recorder

end JsonTyping
