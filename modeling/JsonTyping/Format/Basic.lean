import JsonTyping.Format.Calendar
import JsonTyping.Graph.Attributes
import JsonTyping.Graph.Primitive
import JsonTyping.Url.Reader

/-!
# Formats of strings

Some strings have a narrower form than any text: a date, an identifier, a number. `Format.recognize`
finds the form of a string. See SPEC_FULL.md §C.3.
-/

namespace JsonTyping

inductive Format where
  | date
  | time
  | dateTime
  | uuid
  | uri
  | integerString
  | boolString
  deriving DecidableEq, Repr, Inhabited

namespace Format

def all : List Format := [date, time, dateTime, uuid, uri, integerString, boolString]

def primitive : Format → Primitive
  | date => .date
  | time => .time
  | dateTime => .dateTime
  | uuid => .uuid
  | uri => .uri
  | integerString => .integerString
  | boolString => .boolString

theorem primitive_inj {f g : Format} (h : f.primitive = g.primitive) : f = g := by
  cases f <;> cases g <;> first | rfl | exact absurd h (by decide)

instance : Ord Format := ⟨compareOn fun f => f.primitive.rank⟩

instance : Std.TransOrd Format :=
  inferInstanceAs (Std.TransCmp (compareOn fun f : Format => f.primitive.rank))

instance : Std.LawfulEqOrd Format where
  eq_of_compare h :=
    primitive_inj (Primitive.rank_inj (@Std.LawfulEqCmp.eq_of_compare Nat compare _ _ _ h))

def name (f : Format) : String := f.primitive.name

def ofName? (s : String) : Option Format := all.find? (·.name == s)

def ofKeyword? : String → Option Format
  | "date" => some date
  | "time" => some time
  | "date-time" => some dateTime
  | "uuid" => some uuid
  | "uri" => some uri
  | "integer" => some integerString
  | "boolean" => some boolString
  | _ => none

/-- Whether the strings of a format have attributes of their own. -/
def hasTraits : Format → Bool
  | time | dateTime | uri => true
  | _ => false

/-- A whole number in decimal, without leading zeros, that fits into 64 bits. -/
def isIntegerText (chars : List Char) : Bool :=
  let (negative, digits) : Bool × List Char :=
    match chars with
    | '-' :: rest => (true, rest)
    | rest => (false, rest)
  let canonical := match digits with
    | ['0'] => true
    | first :: rest => first != '0' && (first :: rest).all Text.isAsciiDigit
    | [] => false
  let most : Nat := if negative then 0x8000000000000000 else 0x7FFFFFFFFFFFFFFF
  canonical && decide (Text.decimalValue digits ≤ most)

def isHexGroups : List Nat → List Char → Bool
  | [], chars => chars.isEmpty
  | [n], chars => chars.length == n && chars.all Text.isHexDigit
  | n :: rest, chars =>
    (chars.take n).length == n && (chars.take n).all Text.isHexDigit
      && (chars.drop n).head? == some '-' && isHexGroups rest (chars.drop (n + 1))

def isUuidText (chars : List Char) : Bool := isHexGroups [8, 4, 4, 4, 12] chars

/-- Starts with a scheme and two slashes, or with a scheme that needs none, and goes on without
white space. -/
def startsLikeUri (chars : List Char) : Bool :=
  let isPart (c : Char) : Bool :=
    Text.isAsciiLetter c || Text.isAsciiDigit c || c == '+' || c == '.' || c == '-'
  let goesOn (rest : List Char) : Bool := !rest.isEmpty && !rest.any Text.isWhiteSpace
  let hierarchical := match chars with
    | first :: rest =>
      match rest.dropWhile isPart with
      | ':' :: '/' :: '/' :: after => Text.isAsciiLetter first && goesOn after
      | _ => false
    | [] => false
  hierarchical || ["mailto:", "tel:", "urn:"].any fun start =>
    start.toList.isPrefixOf chars && goesOn (chars.drop start.length)

def isUriText (s : String) : Bool := startsLikeUri s.toList && (Url.parse? s).isSome

def isDateTimeText (chars : List Char) : Bool :=
  Calendar.isTimestampText chars || Calendar.isLocalDateTimeText chars

def recognize (s : String) : Option Format :=
  let chars := s.toList
  if s = "true" ∨ s = "false" then some boolString
  else if isIntegerText chars then some integerString
  else if isUuidText chars then some uuid
  else if isDateTimeText chars then some dateTime
  else if Calendar.isDateText chars then some date
  else if Calendar.isTimeText chars then some time
  else if isUriText s then some uri
  else none

def extension? (segment : List Char) : Option String :=
  let extension := (segment.reverse.takeWhile (· != '.')).reverse
  let stem := segment.take (segment.length - extension.length - 1)
  if segment.contains '.' ∧ !stem.isEmpty ∧ !extension.isEmpty then
    some ("." ++ String.ofList (extension.map Text.lowerAscii))
  else none

def uriTraits (s : String) : UriTraits :=
  match Url.parse? s with
  | none => ⟨.empty, .empty⟩
  | some url =>
    let extension := (url.path.list.getLast?).bind fun segment => extension? segment.toList
    { schemes := .singleton url.scheme
      extensions := match extension with
        | some e => .singleton e
        | none => .empty }

def traits (f : Format) (s : String) : Attributes :=
  match f with
  | uri => { Attributes.empty with uri := some (uriTraits s) }
  | dateTime => { Attributes.empty with alwaysOffset := some (Calendar.isTimestampText s.toList) }
  | time => { Attributes.empty with alwaysOffset := some (Calendar.timeHasOffset s.toList) }
  | _ => .empty

end Format

end JsonTyping
