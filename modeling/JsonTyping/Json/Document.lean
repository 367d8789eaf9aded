import JsonTyping.Json.Reader

/-!
# Reading documents

`Json.read` gives the value of a text as it stands and `Json.readDocument` the document: the value
in which no key is repeated.
-/

namespace JsonTyping.Json

structure ReadError where
  bytes : List UInt8
  fault : Fault

def ReadError.message (e : ReadError) : String := e.fault.message e.bytes

/-- The value of a text given as bytes; repeated keys stay. -/
def readBytes (bytes : List UInt8) : Except ReadError Json :=
  let reading := readEvents bytes
  match reading.fault, ofEvents? (reading.events.map (·.event)) with
  | some fault, _ => .error ⟨bytes, fault⟩
  | none, some v => .ok v
  | none, none => .error ⟨bytes, ⟨.eofInValue, bytes.length, .value⟩⟩

def read (text : String) : Except ReadError Json := readBytes text.toUTF8.toList

def readDocument (text : String) : Except ReadError Json := (read text).map distinct

end JsonTyping.Json
