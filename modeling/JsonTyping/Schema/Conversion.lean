import JsonTyping.Format.Basic
import JsonTyping.Graph.Basic
import JsonTyping.Schema.Annotation
import JsonTyping.Schema.Library

/-!
# Types from schemas

A schema at a place becomes an intersection (SPEC_FULL.md §4.5). It is registered before anything
inside of it is converted, so a reference back to it finds it. Its members are, as far as the schema
has them:

* a union of the primitive types, strings, arrays and objects that it admits,
* the type of the target of its `$ref`,
* the types of its `allOf` cases,
* a union of its `oneOf` cases and one of its `anyOf` cases.
-/

namespace JsonTyping

structure Conversion where
  library : Library
  graph : Graph
  /-- The types of places that were converted or are being converted, latest first. -/
  types : List (Reference × NodeId)
  /-- The places registered by this conversion, latest first. -/
  journal : List Reference

namespace Conversion

/-- Steps of a conversion; what they did before a failure stays done. -/
abbrev ConvertM := ExceptT Halt (StateM Conversion)

def refuse {α : Type} (error : SchemaError) : ConvertM α := throw (.schema error)

def orRefuse {α : Type} : Except SchemaError α → ConvertM α
  | .ok a => pure a
  | .error error => refuse error

def onGraph {α : Type} (f : Graph → Graph × α) : ConvertM α := do
  let s ← get
  let (graph, a) := f s.graph
  set { s with graph }
  return a

def tryGraph {α : Type} (f : Graph → Except Misuse (Graph × α)) : ConvertM α := do
  let s ← get
  match f s.graph with
  | .ok (graph, a) =>
    set { s with graph }
    return a
  | .error cause => throw (.misuse cause)

def onLibrary {α : Type} (f : Library.LibraryM α) : ConvertM α := do
  let s ← get
  let (result, library) := Id.run (StateT.run (ExceptT.run f) s.library)
  set { s with library }
  match result with
  | .ok a => return a
  | .error cause => throw cause

def register (place : Place) (t : NodeId) : ConvertM Unit := do
  let s ← get
  match s.types.lookup place.canonical with
  | some present =>
    if present = t then return ()
    else throw (.misuse (.twoTypesForPlace place.canonical.text))
  | none =>
    set { s with
      types := (place.canonical, t) :: s.types, journal := place.canonical :: s.journal }

def rolledBack (s : Conversion) : List (Reference × NodeId) :=
  s.types.filter fun entry => !s.journal.contains entry.1

def typeList (place : Reference) (v : Json) : Except SchemaError (SortedSet JsonType) := do
  let names ← match v with
    | .string name => pure [name]
    | .array items =>
      match items.mapM Json.string? with
      | some names => pure names
      | none => throw (.invalidTypeList place)
    | _ => throw (.invalidTypeList place)
  let types ← names.mapM fun name =>
    match JsonType.ofName? name with
    | some t => pure t
    | none => throw (.unknownTypeName place name)
  return .ofList types

/-- The keywords of a schema that limit its values one by one. -/
structure Limits where
  types : Option (SortedSet JsonType)
  values : Option (List Json)
  only : Option Json

namespace Limits

/-- Whether values of a type can be allowed. -/
def includes (limits : Limits) (t : JsonType) : Bool :=
  let listed := match limits.types with
    | some types => types.contains t
    | none => true
  listed && match limits.values, limits.only with
    | some values, _ => values.any t.admits
    | none, some v => if limits.types.isSome then t.admits v else t == JsonType.ofValue v
    | none, none => true

def included (limits : Limits) : SortedSet JsonType :=
  .ofList (JsonType.all.filter limits.includes)

/-- Whether containers of a type are allowed; single values allow none. -/
def admitsContainer (limits : Limits) (t : JsonType) : Bool :=
  limits.values.isNone && limits.only.isNone && match limits.types with
    | some types => types.contains t
    | none => true

def cases? (limits : Limits) : Option (SortedSet String) :=
  match limits.only, limits.values with
  | some (.string s), _ => some (.singleton s)
  | some _, _ => none
  | none, some values =>
    if limits.included.contains .string then some (.ofList (values.filterMap Json.string?))
    else none
  | none, none => none

/-- The primitive types that are allowed. Doubles are integers too. -/
def primitives (limits : Limits) : List Primitive :=
  let types := limits.included
  (if types.contains .null then [.null] else [])
    ++ (if types.contains .boolean then [.bool] else [])
    ++ (if types.contains .integer && !types.contains .number then [.integer] else [])
    ++ if types.contains .number then [.double] else []

end Limits

/-- A schema at a place, as far as all parts of its conversion look at it. -/
structure Subject where
  schema : List (String × Json)
  place : Place
  limits : Limits
  annotators : List Annotator

namespace Subject

def get? (x : Subject) (keyword : String) : Option Json := x.schema.lookup keyword

def has (x : Subject) (keyword : String) : Bool := (x.get? keyword).isSome

def annotations (x : Subject) (cases : Option (List Json)) : List Annotation :=
  x.annotators.filterMap fun annotator =>
    annotator x.schema x.place.canonical x.limits.included cases

def found (x : Subject) (pick : Annotation → Option Attributes) : Attributes :=
  (x.annotations none).foldl
    (fun a annotation => match pick annotation with
      | some more => a.combine more
      | none => a)
    .empty

/-- The attributes of the type. Without `oneOf` nothing is found for a union or its cases. -/
def foundForType (x : Subject) : Except Misuse Attributes :=
  if (x.annotations none).any fun n => n.forUnion.isSome || n.forCases.isSome then
    .error .unionAttributesWithoutUnion
  else .ok (x.found Annotation.forType)

/-- Whether the schema says more than what its references and cases say. -/
def needsUnion (x : Subject) : Bool :=
  x.limits.types.isSome || x.limits.values.isSome || x.limits.only.isSome
    || ["properties", "additionalProperties", "items", "required"].any x.has

def stringKind (x : Subject) : Primitive :=
  match ((x.get? "format").bind Json.string?).bind Format.ofKeyword? with
  | some f => f.primitive
  | none => .string

end Subject

/-! ### Parts of a schema -/

/-- Converts the schema at a place, whose type gets the attributes if it is converted now. -/
abbrev Converter := Json → Place → Attributes → ConvertM NodeId

def anyType : ConvertM NodeId := onGraph (·.share (.primitive .any) .empty)

def convertCases (convert : Converter) (place : Place) (a : Attributes) (cases : List Json) :
    ConvertM (List NodeId) :=
  cases.zipIdx.mapM fun (v, i) => convert v (place.push (toString i)) a

/-- The type of the items of arrays. A list of schemas means that every item may have any of these
types. -/
def itemsType (convert : Converter) (x : Subject) (a : Attributes) : ConvertM NodeId :=
  let place := x.place.push "items"
  match x.get? "items" with
  | none => anyType
  | some (.array cases) => do
    let types ← convertCases convert place a cases
    if types.isEmpty then anyType else tryGraph (·.union (.ofList types) .empty)
  | some v@(.object _) | some v@(.bool _) => convert v place a
  | some _ => refuse (.invalidItems place.canonical)

def arrayType (convert : Converter) (x : Subject) (a : Attributes) : ConvertM NodeId := do
  let items ← itemsType convert x a
  onGraph (·.share (.array items) .empty)

def propertySchemas (x : Subject) : Except SchemaError (List (String × Json)) :=
  match x.get? "properties" with
  | none => .ok []
  | some (.object members) => .ok members
  | some _ => .error (.propertiesNotObject x.place.canonical)

def requiredNames (x : Subject) : Except SchemaError (List String) :=
  match x.get? "required" with
  | none | some (.bool _) => .ok []
  | some (.array items) =>
    match items.mapM Json.string? with
    | some names => .ok names
    | none => .error (.requiredNotStringArray x.place.canonical)
  | some _ => .error (.requiredNotStringArray x.place.canonical)

def addSelfRequired (names : List String) : List (String × Json) → List String
  | [] => names
  | (name, v) :: rest =>
    match v.get? "required" with
    | some (.bool true) =>
      addSelfRequired (if names.contains name then names else names ++ [name]) rest
    | _ => addSelfRequired names rest

/-- The schema of all other properties, with its place. -/
def additionalSchema (x : Subject) : Option (Json × Place) :=
  match x.get? "additionalProperties" with
  | some v => some (v, x.place.push "additionalProperties")
  | none =>
    ((x.get? "patternProperties").bind (·.get? ".*")).map fun v =>
      (v, (x.place.push "patternProperties").push ".*")

def declaredProperties (convert : Converter) (x : Subject) (required : List String)
    (schemas : List (String × Json)) : ConvertM (List (String × Property)) :=
  let place := x.place.push "properties"
  schemas.mapM fun (name, v) => do
    let type ← convert v (place.push name) (.inferredName name)
    return (name, ⟨type, !(required.contains name)⟩)

def additionalType (convert : Converter) (x : Subject) (a : Attributes) :
    ConvertM (Option NodeId) :=
  match additionalSchema x with
  | none | some (.bool true, _) => some <$> anyType
  | some (.bool false, _) => pure none
  | some (v, place) => some <$> convert v place a

/-- Adds the required properties without a schema of their own. They have the type of all other
properties. -/
def addRequired (x : Subject) (required : List String) (properties : SortedMap String Property)
    (additional : Option NodeId) : Except SchemaError (SortedMap String Property) :=
  let missing := required.filter fun name => !properties.contains name
  match missing, additional with
  | [], _ => .ok properties
  | _, none => .error (.additionalForbidRequired x.place.canonical missing)
  | _, some t => .ok (missing.foldl (fun p name => p.insert name ⟨t, false⟩) properties)

def objectType (convert : Converter) (x : Subject) (a : Attributes) : ConvertM NodeId := do
  let listed ← orRefuse (requiredNames x)
  let schemas ← orRefuse (propertySchemas x)
  let required := addSelfRequired listed schemas
  let declared ← declaredProperties convert x required schemas
  let additional ← additionalType convert x a
  let properties ← orRefuse (addRequired x required (.ofList declared) additional)
  onGraph (·.fresh (.object properties additional) a)

def primitiveTypes (x : Subject) : ConvertM (List NodeId) :=
  let ofNumbers := x.found Annotation.forNumber
  x.limits.primitives.mapM fun p =>
    onGraph (·.share (.primitive p) (if p.isNumber then ofNumbers else .empty))

def stringTypes (x : Subject) (names : Attributes) : ConvertM (List NodeId) :=
  let ofStrings := x.found Annotation.forString
  match x.limits.cases? with
  | some cases =>
    (fun t => [t]) <$> onGraph (·.share (.enumeration cases) (ofStrings.combine names))
  | none =>
    if x.limits.included.contains .string then
      (fun t => [t]) <$> onGraph (·.share (.primitive x.stringKind) ofStrings)
    else pure []

def containerTypes (x : Subject) (t : JsonType) (m : ConvertM NodeId) : ConvertM (List NodeId) :=
  if x.limits.admitsContainer t then (fun t => [t]) <$> m else pure []

def ownUnion (convert : Converter) (x : Subject) (names inferred : Attributes) :
    ConvertM NodeId := do
  let primitives ← primitiveTypes x
  let strings ← stringTypes x names
  let arrays ← containerTypes x .array (arrayType convert x names)
  let objects ← containerTypes x .object (objectType convert x names)
  onGraph (·.fresh (.union (some (.ofList (primitives ++ strings ++ arrays ++ objects)))) inferred)

def ownTypes (convert : Converter) (x : Subject) (names inferred : Attributes) :
    ConvertM (List NodeId) :=
  if x.needsUnion then (fun u => [u]) <$> ownUnion convert x names inferred else pure []

/-- The type of the target of a reference. A target that has not been converted gets the given names
of the schema, or else is named after itself. -/
def targetType (convert : Converter) (x : Subject) (own : Attributes) (target : Json) :
    ConvertM NodeId := do
  match target with
  | .string text =>
    let found ← onLibrary (Library.resolve x.place (.parse text))
    match found.value with
    | .error cause => throw cause
    | .ok v =>
      let a := if own.names.given.isEmpty then .inferredName found.place.canonical.name
        else .onlyNames own.names
      convert v found.place a
  | _ => refuse (.refNotString x.place.canonical)

def caseTypes (convert : Converter) (x : Subject) (keyword : String) (a : Attributes)
    (cases : Json) : ConvertM (List NodeId) := do
  let place := x.place.push keyword
  match cases with
  | .array list => convertCases convert place a list
  | _ => refuse (.casesNotArray place.canonical keyword)

def annotateCases (types : List NodeId) (found : List Attributes) : ConvertM Unit :=
  if found.length = types.length then
    (types.zip found).forM fun (t, a) => onGraph fun g => (g.addAttributes t a, ())
  else throw (.misuse .caseCount)

/-- Adds what annotators find for `oneOf` to the type of the schema and to the cases, and gives the
attributes of the union. -/
def annotateChoice (t : NodeId) (types : List NodeId) (ofUnion : Attributes) :
    List Annotation → ConvertM Attributes
  | [] => pure ofUnion
  | n :: rest => do
    n.forType.forM fun a => onGraph fun g => (g.addAttributes t a, ())
    n.forCases.forM (annotateCases types)
    annotateChoice t types ((n.forUnion.map ofUnion.combine).getD ofUnion) rest

/-- The union of the cases of `oneOf` or `anyOf`. Annotations of `oneOf` go to the type of the
schema, to the union and to the cases. -/
def choiceType (convert : Converter) (x : Subject) (t : NodeId) (inferred : Attributes)
    (keyword : String) (cases : Json) : ConvertM NodeId := do
  let types ← caseTypes convert x keyword (.onlyNames inferred.names) cases
  let found := if keyword = "oneOf" then x.annotations cases.items? else []
  let a ← annotateChoice t types inferred found
  let union ← onGraph (·.fresh (.union none) a)
  tryGraph fun g => (g.setMembers union (.ofList types)).map fun g => (g, union)

/-! ### Schemas -/

def subject (annotators : List Annotator) (schema : List (String × Json)) (place : Place) :
    Except SchemaError Subject := do
  let types ← match schema.lookup "type" with
    | some v => some <$> typeList place.canonical v
    | none => pure none
  let limits : Limits :=
    ⟨types, (schema.lookup "enum").bind Json.items?, schema.lookup "const"⟩
  return ⟨schema, place, limits, annotators⟩

/-- The attributes of the type with what annotators find; for a schema with `oneOf` that is done
together with its cases. -/
def withFound (x : Subject) (a : Attributes) : ConvertM Attributes :=
  if x.has "oneOf" then pure a
  else
    match x.foundForType with
    | .ok found => pure (a.combine found)
    | .error cause => throw (.misuse cause)

def memberTypes (convert : Converter) (x : Subject) (t : NodeId) (a : Attributes) :
    ConvertM (List NodeId) := do
  let inferred := a.makeInferred
  let names := Attributes.onlyNames inferred.names
  let own ← ownTypes convert x names inferred
  let target ← (x.get? "$ref").toList.mapM (targetType convert x a)
  let all ← (x.get? "allOf").toList.mapM (caseTypes convert x "allOf" names)
  let one ← (x.get? "oneOf").toList.mapM (choiceType convert x t inferred "oneOf")
  let any ← (x.get? "anyOf").toList.mapM (choiceType convert x t inferred "anyOf")
  let members := own ++ target ++ all.flatten ++ one ++ any
  if members.isEmpty then (fun u => [u]) <$> anyType else pure members

def convertObject (convert : Converter) (annotators : List Annotator)
    (schema : List (String × Json)) (place : Place) (a : Attributes) : ConvertM NodeId := do
  let x ← orRefuse (subject annotators schema place)
  let a ← withFound x a
  let a := if a.names.isEmpty then a.combine (.inferredName place.canonical.name) else a
  let t ← onGraph (·.fresh (.intersection none) a)
  register place t
  let members ← memberTypes convert x t a
  tryGraph fun g => (g.setMembers t (.ofList members)).map fun g => (g, t)

def convertSchema (convert : Converter) (annotators : List Annotator) (schema : Json)
    (place : Place) (a : Attributes) : ConvertM NodeId :=
  match schema with
  | .bool true => anyType
  | .bool false => refuse (.falseSchema place.canonical)
  | .object members =>
    let place := match members.lookup "$id" with
      | some id => place.withId id
      | none => place
    let a := match (members.lookup "title").bind Json.string? with
      | some title => a.combine (.givenName title)
      | none => a
    convertObject convert annotators members place a
  | other => refuse (.notASchema place.canonical other.kindName)

/-- The type of the schema at a place. `depth` bounds how deep schemas are nested, references
included. -/
def toType (annotators : List Annotator) : Nat → Converter
  | 0, _, _, _ => throw .tooDeep
  | depth + 1, schema, place, a => do
    match (← get).types.lookup place.canonical with
    | some t => return t
    | none =>
      let t ← convertSchema (toType annotators depth) annotators schema place a
      register place t
      return t

/-- How deep the conversion of the documents of a library can get: every level but the last
registers a place, and a place is where some reference leads, followed by a path inside of a
document. -/
def depthBound (lib : Library) : Nat :=
  let documents := lib.answers.filterMap (·.2)
  let addresses := documents.length + (lib.store.map Store.count).getD 0
  let volume := Json.sizeItems documents + (lib.store.map Store.volume).getD 0
  (addresses + 1) * (volume + 2) * (volume + 2) + 1

/-- The type of what a top-level reference names. -/
def convertTopLevel (annotators : List Annotator) (name : String) (r : Reference) :
    ConvertM NodeId := do
  let found ← onLibrary (Library.resolveTopLevel r)
  match found.value with
  | .error cause => throw cause
  | .ok schema =>
    toType annotators (depthBound (← get).library) schema found.place (.givenName name)

end Conversion

end JsonTyping
