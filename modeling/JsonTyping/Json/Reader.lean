import JsonTyping.Json.Event
import JsonTyping.Json.NumberReader

/-!
# Reading JSON text

The reader is a machine that eats one byte at a time: `Reader.feed` is one step, and reading a text
is folding it over the bytes (`readEvents`). It lists the events it has met, with their places in
the text, also when the text turns out to be faulty, so that whoever follows the events sees
everything in front of the fault. Containers nest at most 127 deep. The reader stands for that of
the library `serde_json`, release 1.0.
-/

namespace JsonTyping.Json

/-- An event with the offsets of its first byte and of the byte after its last one. -/
structure Located where
  event : Event
  start : Nat
  stop : Nat

def depthLimit : Nat := 127

inductive Container where
  | array
  | object
  deriving DecidableEq, Repr

inductive Escape where
  | none
  | backslash
  /-- In the four digits, which follow a leading surrogate if `high` is there. -/
  | digits (high : Option Nat) (chars : List Char)
  | pair (high : Nat)
  | pairBackslash (high : Nat)
  deriving Repr

inductive Mode where
  | value
  | firstItem
  | itemEnd
  | nextItem
  | firstKey
  | memberEnd
  | nextKey
  | colon
  | done
  /-- In a literal name, of which `rest` must follow. -/
  | literal (event : Event) (start : Nat) (rest : List Char)
  | number (state : NumberState) (start : Nat)
  /-- In a string or a key; the bytes of its text so far are in reverse. -/
  | string (asKey : Bool) (start : Nat) (bytes : List UInt8) (escape : Escape)
  | failed (fault : Fault)

/-- A text read halfway: the open containers, innermost first, and the events, newest first. -/
structure Reader where
  mode : Mode
  enclosing : List Container
  offset : Nat
  events : List Located

namespace Reader

def start : Reader := ⟨.value, [], 0, []⟩

/-- Stops at a fault that was noticed after `offset` bytes. -/
def fail (r : Reader) (problem : Problem) (offset : Nat) (site : Site) : Reader :=
  { r with mode := .failed ⟨problem, offset, site⟩ }

def emit (r : Reader) (event : Event) (start stop : Nat) : Reader :=
  { r with events := ⟨event, start, stop⟩ :: r.events }

def afterValue (r : Reader) : Reader :=
  { r with
    mode := match r.enclosing with
      | [] => .done
      | .array :: _ => .itemEnd
      | .object :: _ => .memberEnd }

def openContainer (r : Reader) (kind : Container) (event : Event) (mode : Mode) : Reader :=
  if r.enclosing.length < depthLimit then
    { r.emit event r.offset (r.offset + 1) with mode, enclosing := kind :: r.enclosing }
  else r.fail .depthExceeded (r.offset + 1) .value

def closeContainer (r : Reader) (event : Event) : Reader :=
  { r.emit event r.offset (r.offset + 1) with enclosing := r.enclosing.drop 1 }.afterValue

def beginValue (r : Reader) (c : Char) : Reader :=
  match c with
  | 'n' => { r with mode := .literal .null r.offset ['u', 'l', 'l'] }
  | 't' => { r with mode := .literal (.bool true) r.offset ['r', 'u', 'e'] }
  | 'f' => { r with mode := .literal (.bool false) r.offset ['a', 'l', 's', 'e'] }
  | '"' => { r with mode := .string false r.offset [] .none }
  | '-' => { r with mode := .number .minus r.offset }
  | '[' => r.openContainer .array .beginArray .firstItem
  | '\x7b' => r.openContainer .object .beginObject .firstKey
  | c =>
    match NumberState.digit? c with
    | some 0 => { r with mode := .number (.zero false) r.offset }
    | some d => { r with mode := .number (.whole false d) r.offset }
    | none => r.fail .expectedValue (r.offset + 1) .value

def isBlank (c : Char) : Bool := c == ' ' || c == '\t' || c == '\n' || c == '\r'

def between (r : Reader) (c : Char) : Reader :=
  if isBlank c then r
  else
    match r.mode with
    | .value => r.beginValue c
    | .firstItem => if c = ']' then r.closeContainer .endArray else r.beginValue c
    | .itemEnd =>
      if c = ']' then r.closeContainer .endArray
      else if c = ',' then { r with mode := .nextItem }
      else r.fail .expectedListEnd (r.offset + 1) .list
    | .nextItem => if c = ']' then r.fail .trailingComma (r.offset + 1) .list else r.beginValue c
    | .firstKey =>
      if c = '\x7d' then r.closeContainer .endObject
      else if c = '"' then { r with mode := .string true r.offset [] .none }
      else r.fail .keyNotString (r.offset + 1) .key
    | .memberEnd =>
      if c = '\x7d' then r.closeContainer .endObject
      else if c = ',' then { r with mode := .nextKey }
      else r.fail .expectedObjectEnd (r.offset + 1) .key
    | .nextKey =>
      if c = '\x7d' then r.fail .trailingComma (r.offset + 1) .key
      else if c = '"' then { r with mode := .string true r.offset [] .none }
      else r.fail .keyNotString (r.offset + 1) .key
    | .colon =>
      if c = ':' then { r with mode := .value } else r.fail .expectedColon (r.offset + 1) .colon
    | .done => r.fail .trailingCharacters (r.offset + 1) .afterEnd
    | _ => r

def stringSite (asKey : Bool) : Site := if asKey then .key else .value

def pushCodePoint (n : Nat) (bytes : List UInt8) : List UInt8 :=
  (String.singleton (Char.ofNat n)).toUTF8.toList.reverse ++ bytes

def hexDigit? (c : Char) : Option Nat :=
  if '0' ≤ c ∧ c ≤ '9' then some (c.toNat - '0'.toNat)
  else if 'a' ≤ c ∧ c ≤ 'f' then some (c.toNat - 'a'.toNat + 10)
  else if 'A' ≤ c ∧ c ≤ 'F' then some (c.toNat - 'A'.toNat + 10)
  else none

def hexNumber? (chars : List Char) : Option Nat :=
  chars.foldlM (fun n c => (hexDigit? c).map (n * 16 + ·)) 0

def simpleEscape? : Char → Option Char
  | '"' => some '"'
  | '\\' => some '\\'
  | '/' => some '/'
  | 'b' => some '\x08'
  | 'f' => some '\x0c'
  | 'n' => some '\n'
  | 'r' => some '\r'
  | 't' => some '\t'
  | _ => none

def endString (r : Reader) (asKey : Bool) (start : Nat) (bytes : List UInt8) : Reader :=
  match String.fromUTF8? ⟨bytes.reverse.toArray⟩ with
  | none => r.fail .invalidCodePoint (r.offset + 1) (stringSite asKey)
  | some text =>
    if asKey then { r.emit (.key text) start (r.offset + 1) with mode := .colon }
    else (r.emit (.string text) start (r.offset + 1)).afterValue

/-- The four digits of an escape are complete. -/
def endDigits (r : Reader) (asKey : Bool) (start : Nat) (bytes : List UInt8) (high : Option Nat)
    (chars : List Char) : Reader :=
  let goOn (bytes : List UInt8) (escape : Escape) : Reader :=
    { r with mode := .string asKey start bytes escape }
  match hexNumber? chars, high with
  | none, _ => r.fail .invalidEscape (r.offset + 1) (stringSite asKey)
  | some n, none =>
    if 0xDC00 ≤ n ∧ n ≤ 0xDFFF then r.fail .loneSurrogate (r.offset + 1) (stringSite asKey)
    else if 0xD800 ≤ n ∧ n ≤ 0xDBFF then goOn bytes (.pair n)
    else goOn (pushCodePoint n bytes) .none
  | some n, some high =>
    if 0xDC00 ≤ n ∧ n ≤ 0xDFFF then
      goOn (pushCodePoint (0x10000 + (high - 0xD800) * 0x400 + (n - 0xDC00)) bytes) .none
    else r.fail .loneSurrogate (r.offset + 1) (stringSite asKey)

def inString (r : Reader) (asKey : Bool) (start : Nat) (bytes : List UInt8) (escape : Escape)
    (b : UInt8) : Reader :=
  let c := Char.ofNat b.toNat
  let goOn (bytes : List UInt8) (escape : Escape) : Reader :=
    { r with mode := .string asKey start bytes escape }
  match escape with
  | .none =>
    if c = '"' then r.endString asKey start bytes
    else if c = '\\' then goOn bytes .backslash
    else if b < 0x20 then r.fail .controlCharacter (r.offset + 1) (stringSite asKey)
    else goOn (b :: bytes) .none
  | .backslash =>
    if c = 'u' then goOn bytes (.digits none [])
    else
      match simpleEscape? c with
      | some e => goOn (pushCodePoint e.toNat bytes) .none
      | none => r.fail .invalidEscape (r.offset + 1) (stringSite asKey)
  | .digits high chars =>
    let chars := chars ++ [c]
    if chars.length < 4 then goOn bytes (.digits high chars)
    else r.endDigits asKey start bytes high chars
  | .pair high =>
    if c = '\\' then goOn bytes (.pairBackslash high)
    else r.fail .brokenSurrogatePair (r.offset + 1) (stringSite asKey)
  | .pairBackslash high =>
    if c = 'u' then goOn bytes (.digits (some high) [])
    else r.fail .brokenSurrogatePair (r.offset + 1) (stringSite asKey)

def endNumber (r : Reader) (start : Nat) : Except Problem Number → Reader
  | .ok n => (r.emit (.number n) start r.offset).afterValue
  | .error p => r.fail p r.offset .value

def react (r : Reader) (b : UInt8) : Reader :=
  let c := Char.ofNat b.toNat
  match r.mode with
  | .failed _ => r
  | .literal event start rest =>
    match rest with
    | [] => (r.emit event start r.offset).afterValue
    | [e] =>
      if c = e then (r.emit event start (r.offset + 1)).afterValue
      else r.fail .expectedIdent (r.offset + 1) .value
    | e :: rest =>
      if c = e then { r with mode := .literal event start rest }
      else r.fail .expectedIdent (r.offset + 1) .value
  | .number state start =>
    match state.feed c with
    | .more state => { r with mode := .number state start }
    | .refused p => r.fail p (r.offset + 1) .value
    | .ended result => (r.endNumber start result).between c
  | .string asKey start bytes escape => r.inString asKey start bytes escape b
  | _ => r.between c

def feed (r : Reader) (b : UInt8) : Reader :=
  let r := r.react b
  { r with offset := r.offset + 1 }

/-- The text ends here: completes a number, and fails where more must follow. -/
def finish (r : Reader) : Reader :=
  match r.mode with
  | .value => r.fail .eofInValue r.offset .value
  | .firstItem | .itemEnd => r.fail .eofInList r.offset .list
  | .nextItem => r.fail .eofInValue r.offset .list
  | .firstKey | .memberEnd => r.fail .eofInObject r.offset .key
  | .nextKey => r.fail .eofInValue r.offset .key
  | .colon => r.fail .eofInObject r.offset .colon
  | .literal .. => r.fail .eofInValue r.offset .value
  | .number state start =>
    let r := r.endNumber start state.finish
    match r.mode with
    | .itemEnd => r.fail .eofInList r.offset .list
    | .memberEnd => r.fail .eofInObject r.offset .key
    | _ => r
  | .string asKey .. => r.fail .eofInString r.offset (stringSite asKey)
  | .done | .failed _ => r

end Reader

/-- The events of a text, in order, and the fault that ends them, if any. -/
structure Reading where
  events : List Located
  fault : Option Fault

def readEvents (bytes : List UInt8) : Reading :=
  let r := (bytes.foldl Reader.feed .start).finish
  { events := r.events.reverse
    fault := match r.mode with
      | .failed fault => some fault
      | _ => none }

end JsonTyping.Json
