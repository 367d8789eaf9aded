/-!
# Primitive types
-/

namespace JsonTyping

inductive Primitive where
  | none
  | any
  | null
  | bool
  | integer
  | double
  | string
  | date
  | time
  | dateTime
  | uuid
  | uri
  | integerString
  | boolString
  deriving DecidableEq, Repr, Inhabited

namespace Primitive

def all : List Primitive :=
  [none, any, null, bool, integer, double, string, date, time, dateTime, uuid, uri, integerString,
    boolString]

def rank : Primitive → Nat
  | none => 0
  | any => 1
  | null => 2
  | bool => 3
  | integer => 4
  | double => 5
  | string => 6
  | date => 7
  | time => 8
  | dateTime => 9
  | uuid => 10
  | uri => 11
  | integerString => 12
  | boolString => 13

instance : Ord Primitive := ⟨compareOn rank⟩

instance : Std.TransOrd Primitive := inferInstanceAs (Std.TransCmp (compareOn rank))

theorem rank_inj {p q : Primitive} (h : p.rank = q.rank) : p = q := by
  cases p <;> cases q <;> first | rfl | exact absurd h (by decide)

instance : Std.LawfulEqOrd Primitive where
  eq_of_compare h := rank_inj (@Std.LawfulEqCmp.eq_of_compare Nat compare _ _ _ h)

def name : Primitive → String
  | none => "none"
  | any => "any"
  | null => "null"
  | bool => "bool"
  | integer => "integer"
  | double => "double"
  | string => "string"
  | date => "date"
  | time => "time"
  | dateTime => "date-time"
  | uuid => "uuid"
  | uri => "uri"
  | integerString => "integer-string"
  | boolString => "bool-string"

def ofName? (s : String) : Option Primitive := all.find? (·.name == s)

def isNumber : Primitive → Bool
  | integer | double => true
  | _ => false

end Primitive

end JsonTyping
