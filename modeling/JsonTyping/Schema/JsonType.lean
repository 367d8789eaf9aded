import JsonTyping.Json.Value

/-!
# The types that schemas name

The keyword `type` of a schema names some of seven types of JSON values. A whole number is both a
`number` and an `integer`.
-/

namespace JsonTyping

inductive JsonType where
  | null
  | boolean
  | object
  | array
  | number
  | string
  | integer
  deriving DecidableEq, Repr, Inhabited

namespace JsonType

def all : List JsonType := [null, boolean, object, array, number, string, integer]

def rank : JsonType → Nat
  | null => 0
  | boolean => 1
  | object => 2
  | array => 3
  | number => 4
  | string => 5
  | integer => 6

theorem rank_inj {s t : JsonType} (h : s.rank = t.rank) : s = t := by
  cases s <;> cases t <;> first | rfl | exact absurd h (by decide)

instance : Ord JsonType := ⟨compareOn rank⟩

instance : Std.TransOrd JsonType := inferInstanceAs (Std.TransCmp (compareOn rank))

instance : Std.LawfulEqOrd JsonType where
  eq_of_compare h := rank_inj (@Std.LawfulEqCmp.eq_of_compare Nat compare _ _ _ h)

def name : JsonType → String
  | null => "null"
  | boolean => "boolean"
  | object => "object"
  | array => "array"
  | number => "number"
  | string => "string"
  | integer => "integer"

def ofName? (s : String) : Option JsonType := all.find? (·.name == s)

/-- Whether a value is of the type. -/
def admits : JsonType → Json → Bool
  | null, .null => true
  | boolean, .bool _ => true
  | object, .object _ => true
  | array, .array _ => true
  | number, .number _ => true
  | string, .string _ => true
  | integer, .number n => n.isWhole
  | _, _ => false

/-- The narrowest type of a value. -/
def ofValue : Json → JsonType
  | .null => null
  | .bool _ => boolean
  | .number n => if n.isWhole then integer else number
  | .string _ => string
  | .array _ => array
  | .object _ => object

end JsonType

end JsonTyping
