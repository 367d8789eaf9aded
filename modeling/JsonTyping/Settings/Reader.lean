import JsonTyping.Double.Text
import JsonTyping.Json.Trail
import JsonTyping.Settings
import JsonTyping.Text.Quoted

/-!
# Reading settings

Settings are written as an object, every member of which is optional, or as an array of the values
in a fixed order. Each value is checked as soon as it is read, so of several faults the first
counts, and a fault of the text behind a wrong value is not noticed. See SPEC_FULL.md §B.3.
-/

namespace JsonTyping.Settings

open JsonTyping.Json

inductive Field where
  | mapThreshold
  | internMaxLen
  | inferMaps
  | inferEnums
  | minEnumSamples
  | inferStringFormats
  | handleRefs
  deriving DecidableEq, Repr

namespace Field

/-- All settings, in the order of the array form. -/
def all : List Field :=
  [mapThreshold, internMaxLen, inferMaps, inferEnums, minEnumSamples, inferStringFormats,
    handleRefs]

def name : Field → String
  | mapThreshold => "mapThreshold"
  | internMaxLen => "internMaxLen"
  | inferMaps => "inferMaps"
  | inferEnums => "inferEnums"
  | minEnumSamples => "minEnumSamples"
  | inferStringFormats => "inferStringFormats"
  | handleRefs => "handleRefs"

def ofName? (s : String) : Option Field := all.find? (·.name == s)

end Field

inductive Problem where
  | unknownField (name : String)
  | duplicateField (field : Field)
  | wrongType (found expected : String)
  | wrongValue (found expected : String)
  | trailing (problem : Json.Problem)

def Problem.message : Problem → String
  | .unknownField name =>
    "unknown field `" ++ name ++ "`, expected one of "
      ++ ", ".intercalate (Field.all.map fun f => "`" ++ f.name ++ "`")
  | .duplicateField f => "duplicate field `" ++ f.name ++ "`"
  | .wrongType found expected => "invalid type: " ++ found ++ ", expected " ++ expected
  | .wrongValue found expected => "invalid value: " ++ found ++ ", expected " ++ expected
  | .trailing p => p.message

def describeEvent : Event → String
  | .null => "null"
  | .bool b => "boolean `" ++ (if b then "true" else "false") ++ "`"
  | .number (.integer n) => "integer `" ++ toString n ++ "`"
  | .number (.double x) => "floating point `" ++ x.text ++ "`"
  | .string s => "string " ++ Text.quote s
  | .beginArray | .endArray => "sequence"
  | .beginObject | .endObject | .key _ => "map"

def count? : Event → Except Problem Nat
  | .number (.integer (.ofNat n)) => .ok n
  | .number (.integer n) => .error (.wrongValue (describeEvent (.number (.integer n))) "usize")
  | e => .error (.wrongType (describeEvent e) "usize")

def switch? : Event → Except Problem Bool
  | .bool b => .ok b
  | e => .error (.wrongType (describeEvent e) "a boolean")

def set (s : Settings) : Field → Event → Except Problem Settings
  | .mapThreshold, e => (count? e).map fun n => { s with mapThreshold := n }
  | .internMaxLen, e => (count? e).map fun n => { s with internMaxLen := n }
  | .inferMaps, e => (switch? e).map fun b => { s with inferMaps := b }
  | .inferEnums, e => (switch? e).map fun b => { s with inferEnums := b }
  | .minEnumSamples, e => (count? e).map fun n => { s with minEnumSamples := n }
  | .inferStringFormats, e => (switch? e).map fun b => { s with inferStringFormats := b }
  | .handleRefs, e => (switch? e).map fun b => { s with handleRefs := b }

/-- Where the reading of settings stands. -/
inductive Stage where
  | start
  /-- In an object; the settings already given, and the one whose value follows. -/
  | object (given : List Field) (pending : Option Field)
  /-- In an array; the settings whose values may follow. -/
  | array (rest : List Field)
  | complete

/-- Where a value is wrong: the bytes in front of a container, all bytes of any other value. -/
def valueOffset (e : Located) : Nat :=
  match e.event with
  | .beginArray | .beginObject => e.start
  | _ => e.stop

def charsFrom (bytes : List UInt8) (offset : Nat) : List Char :=
  (bytes.drop offset).map fun b => Char.ofNat b.toNat

/-- Where a refused key is noticed: after the blanks behind it, and after a closing brace there. -/
def keyOffset (bytes : List UInt8) (stop : Nat) : Nat :=
  let chars := charsFrom bytes stop
  let blanks := (chars.takeWhile Reader.isBlank).length
  match chars.drop blanks with
  | '\x7d' :: _ => stop + blanks + 1
  | _ => stop + blanks

/-- The array of all settings must end after `stop` bytes: what is wrong if it does not. -/
def arrayEnd (bytes : List UInt8) (stop : Nat) : Option (Json.Problem × Nat) :=
  let chars := charsFrom bytes stop
  let blanks := (chars.takeWhile Reader.isBlank).length
  match chars.drop blanks with
  | [] => some (.eofInList, stop + blanks)
  | ']' :: _ => none
  | ',' :: rest =>
    let moreBlanks := (rest.takeWhile Reader.isBlank).length
    let offset := stop + blanks + 1 + moreBlanks
    match rest.drop moreBlanks with
    | [] => some (.trailingCharacters, offset)
    | ']' :: _ => some (.trailingComma, offset + 1)
    | _ => some (.trailingCharacters, offset + 1)
  | _ => some (.trailingCharacters, stop + blanks + 1)

structure Progress where
  settings : Settings
  stage : Stage
  trail : Trail

def placed (bytes : List UInt8) (place : String) (problem : Problem) (offset : Nat) : PlacedError :=
  ⟨place, (Position.ofOffset bytes offset).attach problem.message⟩

def feed (bytes : List UInt8) (p : Progress) (e : Located) : Except PlacedError Progress :=
  let trail := p.trail.feed e.event
  match p.stage, e.event with
  | .start, .beginObject => .ok { p with stage := .object [] none, trail }
  | .start, .beginArray => .ok { p with stage := .array Field.all, trail }
  | .start, event =>
    .error (placed bytes "." (.wrongType (describeEvent event) "struct InferenceConfig")
      (valueOffset e))
  | .object given _, .key k =>
    match Field.ofName? k with
    | none => .error (placed bytes trail.place (.unknownField k) (keyOffset bytes e.stop))
    | some f =>
      if given.contains f then
        .error (placed bytes "." (.duplicateField f) (keyOffset bytes e.stop))
      else .ok { p with stage := .object (f :: given) (some f), trail }
  | .object given (some f), event =>
    match p.settings.set f event with
    | .ok settings => .ok { settings, stage := .object given none, trail }
    | .error problem => .error (placed bytes p.trail.place problem (valueOffset e))
  | .array _, .endArray => .ok { p with stage := .complete, trail }
  | .array (f :: rest), event =>
    match p.settings.set f event with
    | .error problem => .error (placed bytes p.trail.place problem (valueOffset e))
    | .ok settings =>
      match rest, arrayEnd bytes e.stop with
      | [], some (problem, offset) => .error (placed bytes "." (.trailing problem) offset)
      | _, _ => .ok { settings, stage := .array rest, trail }
  | _, _ => .ok { p with stage := .complete, trail }

def readBytes (bytes : List UInt8) : Except PlacedError Settings := do
  let reading := readEvents bytes
  let p ← reading.events.foldlM (feed bytes) ⟨({} : Settings), .start, []⟩
  match reading.fault with
  | none => return p.settings
  | some fault => .error ⟨p.trail.placeOf fault.site, fault.message bytes⟩

def read (text : String) : Except PlacedError Settings := readBytes text.toUTF8.toList

end JsonTyping.Settings
