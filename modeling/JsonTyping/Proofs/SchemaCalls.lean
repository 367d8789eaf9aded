import JsonTyping.Proofs.SchemaPlaces
import JsonTyping.Proofs.Traversals

/-!
# What schemas call for

The places that a conversion gets to from a schema, in the order in which it gets to them, and what
it finds wrong in between, can be read off the documents (`Conversion.calls`).
-/

namespace JsonTyping.Conversion

/-- The calls after something that may be wrong. -/
def callsAfter {α : Type} (read : Except SchemaError α) (rest : α → List Call) : List Call :=
  match read with
  | .ok a => rest a
  | .error error => [.fault error]

def listedCalls (r : Reference) (cases : List Json) : List Call :=
  cases.zipIdx.map fun e => .visit (r.push (toString e.2))

def itemsCalls (x : Subject) : List Call :=
  let r := x.place.canonical.push "items"
  match x.get? "items" with
  | none => []
  | some (.array cases) => listedCalls r cases
  | some (.object _) | some (.bool _) => [.visit r]
  | some _ => [.fault (.invalidItems r)]

def declaredCalls (x : Subject) (schemas : List (String × Json)) : List Call :=
  schemas.map fun e => .visit ((x.place.canonical.push "properties").push e.1)

def additionalCalls (x : Subject) : List Call :=
  match additionalSchema x with
  | none | some (.bool _, _) => []
  | some (_, place) => [.visit place.canonical]

/-- Required properties need to be declared where there may be no others. -/
def missingCalls (x : Subject) (required declared : List String) : List Call :=
  match required.filter (fun name => !declared.contains name), additionalSchema x with
  | name :: rest, some (.bool false, _) =>
    [.fault (.additionalForbidRequired x.place.canonical (name :: rest))]
  | _, _ => []

def objectCalls (x : Subject) : List Call :=
  callsAfter (requiredNames x) fun listed =>
    callsAfter (propertySchemas x) fun schemas =>
      declaredCalls x schemas ++ (additionalCalls x ++
        missingCalls x (addSelfRequired listed schemas) (schemas.map Prod.fst))

def containerCalls (x : Subject) (t : JsonType) (calls : List Call) : List Call :=
  if x.limits.admitsContainer t then calls else []

def ownCalls (x : Subject) : List Call :=
  if x.needsUnion then
    containerCalls x .array (itemsCalls x) ++ containerCalls x .object (objectCalls x)
  else []

def caseCalls (x : Subject) (keyword : String) : List Call :=
  match x.get? keyword with
  | none => []
  | some (.array cases) => listedCalls (x.place.canonical.push keyword) cases
  | some _ => [.fault (.casesNotArray (x.place.canonical.push keyword) keyword)]

section Library

variable (lib : Library)

/-- The place that a reference names, if it is found. -/
def targetCalls (base : Place) (r : Reference) : List Call :=
  match (outcome (Library.resolve base r) lib).1 with
  | .ok found => [.visit found.place.canonical]
  | .error (.schema error) => [.fault error]
  | .error _ => []

def referenceCalls (x : Subject) : List Call :=
  match x.get? "$ref" with
  | none => []
  | some (.string text) => targetCalls lib x.place (.parse text)
  | some _ => [.fault (.refNotString x.place.canonical)]

def memberCalls (x : Subject) : List Call :=
  ownCalls x ++ (referenceCalls lib x ++
    (caseCalls x "allOf" ++ (caseCalls x "oneOf" ++ caseCalls x "anyOf")))

/-- What the schema at a place calls for. -/
def calls (annotators : List Annotator) (r : Reference) : List Call :=
  match lib.value? r with
  | none | some (.bool true) => []
  | some (.bool false) => [.fault (.falseSchema r)]
  | some (.object schema) =>
    callsAfter (subject annotators schema (.ofReference r)) (memberCalls lib)
  | some v => [.fault (.notASchema r v.kindName)]

end Library

end JsonTyping.Conversion
