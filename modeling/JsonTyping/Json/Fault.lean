/-!
# Faults of JSON text

A `Fault` says what is wrong with a text, after how many bytes that was noticed, and at which place
of the grammar. Messages end with the line and the column, which count from one and count bytes.
-/

namespace JsonTyping.Json

inductive Problem where
  | eofInValue
  | eofInList
  | eofInObject
  | eofInString
  | expectedColon
  | expectedListEnd
  | expectedObjectEnd
  | expectedIdent
  | expectedValue
  | invalidEscape
  | invalidNumber
  | numberOutOfRange
  | invalidCodePoint
  | controlCharacter
  | keyNotString
  | loneSurrogate
  | brokenSurrogatePair
  | trailingComma
  | trailingCharacters
  | depthExceeded
  deriving DecidableEq, Repr

def Problem.message : Problem → String
  | .eofInValue => "EOF while parsing a value"
  | .eofInList => "EOF while parsing a list"
  | .eofInObject => "EOF while parsing an object"
  | .eofInString => "EOF while parsing a string"
  | .expectedColon => "expected `:`"
  | .expectedListEnd => "expected `,` or `]`"
  | .expectedObjectEnd => "expected `,` or `\x7d`"
  | .expectedIdent => "expected ident"
  | .expectedValue => "expected value"
  | .invalidEscape => "invalid escape"
  | .invalidNumber => "invalid number"
  | .numberOutOfRange => "number out of range"
  | .invalidCodePoint => "invalid unicode code point"
  | .controlCharacter => "control character (\\u0000-\\u001F) found while parsing a string"
  | .keyNotString => "key must be a string"
  | .loneSurrogate => "lone leading surrogate in hex escape"
  | .brokenSurrogatePair => "unexpected end of hex escape"
  | .trailingComma => "trailing comma"
  | .trailingCharacters => "trailing characters"
  | .depthExceeded => "recursion limit exceeded"

/-- The place of the grammar at which a fault was noticed. -/
inductive Site where
  | value
  | list
  | key
  | colon
  | afterEnd
  deriving DecidableEq, Repr

/-- A problem, the number of bytes read when it was noticed, and its place. -/
structure Fault where
  problem : Problem
  offset : Nat
  site : Site
  deriving DecidableEq, Repr

/-- A line and a column of a text; the column counts the bytes since the line began. -/
structure Position where
  line : Nat
  column : Nat
  deriving DecidableEq, Repr

def Position.ofOffset (bytes : List UInt8) (offset : Nat) : Position :=
  (bytes.take offset).foldl
    (fun p b => if b = 10 then ⟨p.line + 1, 0⟩ else ⟨p.line, p.column + 1⟩) ⟨1, 0⟩

def Position.attach (p : Position) (message : String) : String :=
  message ++ " at line " ++ toString p.line ++ " column " ++ toString p.column

def Fault.message (bytes : List UInt8) (f : Fault) : String :=
  (Position.ofOffset bytes f.offset).attach f.problem.message

end JsonTyping.Json
