import JsonTyping.Format.Basic
import JsonTyping.Json.Event
import JsonTyping.Misuse
import JsonTyping.Samples.Handle
import JsonTyping.Settings
import JsonTyping.Text.Units

/-!
# Tables of sampled values

A `Table` keeps texts, each once, and a row for every object and every array (SPEC_FULL.md §3). It
only grows, so a handle keeps its meaning. There is no end to the indices here; the limit that the
program has is that of `Recorder.takeChecked`.
-/

namespace JsonTyping

structure Table where
  settings : Settings
  strings : Array String
  /-- The members of each object in order, a key as the index of its text. -/
  objects : Array (List (Nat × Handle))
  arrays : Array (List Handle)

namespace Table

def empty (settings : Settings) : Table := ⟨settings, #[], #[], #[]⟩

def string (t : Table) (index : Nat) : String := t.strings[index]?.getD ""

def members (t : Table) (row : Nat) : List (String × Handle) :=
  (t.objects[row]?.getD []).map fun (key, value) => (t.string key, value)

def items (t : Table) (row : Nat) : List Handle := t.arrays[row]?.getD []

def objectMembers (t : Table) : Handle → Except Misuse (List (String × Handle))
  | .object row => .ok (t.members row)
  | other => .error (.notAnObject other.label)

def objectSize (t : Table) (h : Handle) : Except Misuse Nat := (t.objectMembers h).map List.length

def arrayItems (t : Table) : Handle → Except Misuse (List Handle)
  | .array row => .ok (t.items row)
  | other => .error (.notAnArray other.label)

/-- What was kept of a text: the text itself, or the name of its format. -/
def keptText (t : Table) : Handle → Except Misuse String
  | .text i | .format i | .traits i => .ok (t.string i)
  | other => .error (.noString other.kindName)

def format? (t : Table) : Handle → Option Format
  | .format i => Format.ofName? (t.string i)
  | .traits i => Format.recognize (t.string i)
  | _ => none

def intern (t : Table) (s : String) : Table × Nat :=
  match t.strings.idxOf? s with
  | some i => (t, i)
  | none => ({ t with strings := t.strings.push s }, t.strings.size)

def recognize (t : Table) (s : String) : Option Format :=
  if t.settings.inferStringFormats then Format.recognize s else none

/-- Takes a text. The target of a reference is kept; of a text in a format, the format or what
carries its attributes; any other text only if it is not too long. -/
def addText (t : Table) (isTarget : Bool) (s : String) : Table × Handle :=
  let keep (make : Nat → Handle) (kept : String) : Table × Handle :=
    let (t, i) := t.intern kept
    (t, make i)
  if isTarget then keep .text s
  else
    match t.recognize s with
    | some f => if f.hasTraits then keep .traits s else keep .format f.name
    | none => if Text.fitsUnits16 s t.settings.internMaxLen then keep .text s else (t, .dropped)

def addObject (t : Table) (members : List (Nat × Handle)) : Table × Handle :=
  ({ t with objects := t.objects.push members }, .object t.objects.size)

def addArray (t : Table) (items : List Handle) : Table × Handle :=
  ({ t with arrays := t.arrays.push items }, .array t.arrays.size)

end Table

end JsonTyping
