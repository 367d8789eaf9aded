import JsonTyping.Double.Basic

/-!
# JSON values

A `Json` keeps the members of an object in the order of the text and may repeat a key, so it can
stand for any text. A *document* repeats no key: `Json.distinct` keeps the last value of a repeated
key at the place of the first.
-/

namespace JsonTyping

/-- A number: a whole one without fraction or exponent in its text, or a finite double. -/
inductive Number where
  | integer (value : Int)
  | double (value : Double)
  deriving DecidableEq, Repr

namespace Number

def toDouble : Number → Double
  | .integer n => .ofInt n
  | .double x => x

/-- Whether the value is whole, however it is written. -/
def isWhole : Number → Bool
  | .integer _ => true
  | .double x => x.isWhole

/-- Equality of numbers of the same form; the sign of zero does not count. -/
def same : Number → Number → Bool
  | .integer m, .integer n => m == n
  | .double x, .double y => x.same y
  | _, _ => false

end Number

/-- A JSON value. The members of an object are in order and may repeat a key. -/
inductive Json where
  | null
  | bool (value : Bool)
  | number (value : Number)
  | string (value : String)
  | array (items : List Json)
  | object (members : List (String × Json))
  deriving Inhabited, Repr

namespace Json

def kindName : Json → String
  | .null => "null"
  | .bool _ => "boolean"
  | .number _ => "number"
  | .string _ => "string"
  | .array _ => "array"
  | .object _ => "object"

def string? : Json → Option String
  | .string s => some s
  | _ => none

def items? : Json → Option (List Json)
  | .array items => some items
  | _ => none

/-- The value of a member; of a repeated key the first. -/
def get? (v : Json) (key : String) : Option Json :=
  match v with
  | .object members => members.lookup key
  | _ => none

def ofNat (n : Nat) : Json := .number (.integer n)

def ofStrings (l : List String) : Json := .array (l.map .string)

mutual

def size : Json → Nat
  | .null | .bool _ | .number _ | .string _ => 1
  | .array items => sizeItems items + 1
  | .object members => sizeMembers members + 1

def sizeItems : List Json → Nat
  | [] => 0
  | v :: rest => v.size + sizeItems rest

def sizeMembers : List (String × Json) → Nat
  | [] => 0
  | (_, v) :: rest => v.size + sizeMembers rest

end

/-- Sets a member: at its place if the key is there, else at the end. -/
def setMember (key : String) (v : Json) : List (String × Json) → List (String × Json)
  | [] => [(key, v)]
  | (k, w) :: rest => if k = key then (k, v) :: rest else (k, w) :: setMember key v rest

mutual

/-- The document of a value: of a repeated key the last value, at the place of the first. -/
def distinct : Json → Json
  | .null => .null
  | .bool b => .bool b
  | .number n => .number n
  | .string s => .string s
  | .array items => .array (distinctItems items)
  | .object members => .object (distinctMembers members [])

def distinctItems : List Json → List Json
  | [] => []
  | v :: rest => v.distinct :: distinctItems rest

/-- The members of a document, on top of the ones before. -/
def distinctMembers : List (String × Json) → List (String × Json) → List (String × Json)
  | [], done => done
  | (k, v) :: rest, done => distinctMembers rest (setMember k v.distinct done)

end

mutual

/-- Equality of documents, in which the order of members does not count. -/
def same : Json → Json → Bool
  | .null, .null => true
  | .bool a, .bool b => a == b
  | .number a, .number b => a.same b
  | .string a, .string b => a == b
  | .array a, .array b => sameItems a b
  | .object a, .object b => a.length == b.length && sameMembers a b
  | _, _ => false

def sameItems : List Json → List Json → Bool
  | [], [] => true
  | v :: a, w :: b => v.same w && sameItems a b
  | _, _ => false

def sameMembers : List (String × Json) → List (String × Json) → Bool
  | [], _ => true
  | (k, v) :: rest, other =>
    (match other.lookup k with
      | some w => v.same w
      | none => false) && sameMembers rest other

end

end Json

end JsonTyping
