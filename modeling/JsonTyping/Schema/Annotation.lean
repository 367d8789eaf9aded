import JsonTyping.Graph.Attributes
import JsonTyping.Schema.JsonType
import JsonTyping.Schema.Reference

/-!
# Keywords that annotate

Some keywords of a schema say nothing about the structure of a type but describe it: a description,
bounds of numbers, limits of strings. An `Annotator` reads such keywords. See SPEC_FULL.md §C.8.
-/

namespace JsonTyping

/-- What an annotator has found in a schema. -/
structure Annotation where
  forType : Option Attributes
  /-- For the union of its `oneOf`. -/
  forUnion : Option Attributes
  forCases : Option (List Attributes)
  forString : Option Attributes
  forNumber : Option Attributes

namespace Annotation

def empty : Annotation := ⟨none, none, none, none, none⟩

end Annotation

/-- Reads keywords of a schema, given as its members: at a place, where the types are allowed, and
together with the cases of its `oneOf` if it has one and is read for its sake. -/
abbrev Annotator :=
  List (String × Json) → Reference → SortedSet JsonType → Option (List Json) → Option Annotation

namespace Annotator

def description? (schema : List (String × Json)) : Option Attributes :=
  ((schema.lookup "description").bind Json.string?).map .described

def descriptions : Annotator := fun schema _ _ cases =>
  let described := cases.bind fun cases =>
    let each := cases.map fun v =>
      match v with
      | .object members => (description? members).getD .empty
      | _ => .empty
    if each.all Attributes.isEmpty then none else some each
  let own := description? schema
  if own.isNone ∧ described.isNone then none
  else some { Annotation.empty with forType := own, forCases := described }

def numberOf : Json → Option Double
  | .number n => some n.toDouble
  | _ => none

/-- A whole number that is written without fraction and is not negative. -/
def countOf : Json → Option Nat
  | .number (.integer n) => if n < 0 then none else some n.toNat
  | _ => none

def numberBounds : Annotator := fun schema _ types _ =>
  if types.contains .number || types.contains .integer then
    let low := (schema.lookup "minimum").bind numberOf
    let high := (schema.lookup "maximum").bind numberOf
    if low.isNone ∧ high.isNone then none
    else
      let found := { Attributes.empty with range := some ⟨low, high⟩ }
      some { Annotation.empty with forNumber := some found }
  else none

def stringLimits : Annotator := fun schema _ types _ =>
  if types.contains .string then
    let low := (schema.lookup "minLength").bind countOf
    let high := (schema.lookup "maxLength").bind countOf
    let pattern := (schema.lookup "pattern").bind Json.string?
    let found :=
      { Attributes.empty with
        length := if low.isNone ∧ high.isNone then none else some ⟨low, high⟩
        pattern := .ofOption pattern }
    if found.isEmpty then none else some { Annotation.empty with forString := some found }
  else none

def builtin : List Annotator := [descriptions, numberBounds, stringLimits]

end Annotator

end JsonTyping
