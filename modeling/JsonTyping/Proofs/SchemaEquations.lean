import JsonTyping.Proofs.SchemaLimits
import JsonTyping.Proofs.SchemaPlaces

/-!
# Equations of schemas

What a conversion makes of a schema can be read off the documents, before any node exists. The types
that are made for a place have names, and every name has a body, which refers to other types by
their names. A body is missing where the schema at the place cannot be converted, and a name is
`Conversion.Sound` when no body is missing wherever one gets from it.
-/

namespace JsonTyping

/-- What a node is made for at a place. -/
inductive Role where
  /-- The type of the schema. -/
  | whole
  /-- The union of what the schema admits itself. -/
  | own
  | object
  | oneOf
  | anyOf
  deriving DecidableEq

structure TypeName where
  place : Reference
  role : Role
  deriving DecidableEq

inductive SimpleType where
  | named (name : TypeName)
  | primitive (kind : Primitive)
  | enumeration (cases : SortedSet String)

inductive TypeTerm where
  | simple (type : SimpleType)
  /-- A value of some of the types; they may all be the same. -/
  | either (types : List SimpleType)
  | array (items : TypeTerm)

inductive TypeBody where
  | intersection (members : List TypeTerm)
  | union (members : List TypeTerm)
  /-- Required properties that are not declared have the additional type. -/
  | object (required : List String) (declared : List (String × SimpleType))
      (additional : Option SimpleType)

/-- Every name in it satisfies `P`. -/
def SimpleType.All (P : TypeName → Prop) : SimpleType → Prop
  | .named name => P name
  | .primitive _ | .enumeration _ => True

def TypeTerm.All (P : TypeName → Prop) : TypeTerm → Prop
  | .simple type => type.All P
  | .either types => ∀ type ∈ types, type.All P
  | .array items => items.All P

def TypeBody.All (P : TypeName → Prop) : TypeBody → Prop
  | .intersection members | .union members => ∀ term ∈ members, term.All P
  | .object _ declared additional =>
    (∀ e ∈ declared, e.2.All P) ∧ ∀ type ∈ additional, type.All P

variable {P Q : TypeName → Prop}

theorem SimpleType.All.imp (hPQ : ∀ name, P name → Q name) {type : SimpleType} (h : type.All P) :
    type.All Q := by
  cases type with
  | named name => exact hPQ name h
  | primitive kind => trivial
  | enumeration cases => trivial

theorem TypeTerm.All.imp (hPQ : ∀ name, P name → Q name) {term : TypeTerm} (h : term.All P) :
    term.All Q := by
  induction term with
  | simple type => exact SimpleType.All.imp hPQ h
  | either types => exact fun type htype => (h type htype).imp hPQ
  | array items ih => exact ih h

theorem TypeBody.All.imp (hPQ : ∀ name, P name → Q name) {body : TypeBody} (h : body.All P) :
    body.All Q := by
  cases body with
  | intersection members => exact fun term hterm => (h term hterm).imp hPQ
  | union members => exact fun term hterm => (h term hterm).imp hPQ
  | object required declared additional =>
    exact ⟨fun e he => (h.1 e he).imp hPQ, fun type htype => (h.2 type htype).imp hPQ⟩

namespace Conversion

section Equations

variable (lib : Library)

/-! ### Terms of a schema -/

def anything : SimpleType := .primitive .any

/-- The type of the schema at a place; `true` is not given a name. -/
def typeAt (r : Reference) : SimpleType :=
  match lib.value? r with
  | some (.bool true) => anything
  | _ => .named ⟨r, .whole⟩

def typesAt (r : Reference) (cases : List Json) : List SimpleType :=
  cases.zipIdx.map fun e => typeAt lib (r.push (toString e.2))

/-- The type of the items of arrays, if the keyword for them can be read. -/
def itemsTerm (x : Subject) : Option TypeTerm :=
  let r := x.place.canonical.push "items"
  match x.get? "items" with
  | none => some (.simple anything)
  | some (.array cases) =>
    some (if cases.isEmpty then .simple anything else .either (typesAt lib r cases))
  | some (.object _) | some (.bool _) => some (.simple (typeAt lib r))
  | some _ => none

/-- The type of all properties that are not declared, if there may be any. -/
def additionalSimple (x : Subject) : Option SimpleType :=
  match additionalSchema x with
  | none | some (.bool true, _) => some anything
  | some (.bool false, _) => none
  | some (_, place) => some (typeAt lib place.canonical)

def objectBody (x : Subject) : Option TypeBody :=
  match requiredNames x, propertySchemas x with
  | .ok listed, .ok schemas =>
    let required := addSelfRequired listed schemas
    let declared := schemas.map fun e =>
      (e.1, typeAt lib ((x.place.canonical.push "properties").push e.1))
    let additional := additionalSimple lib x
    if additional.isSome ∨ ∀ name ∈ required, name ∈ schemas.map (·.1) then
      some (.object required declared additional)
    else none
  | _, _ => none

def textTypes (x : Subject) : List SimpleType :=
  match x.limits.cases? with
  | some cases => [.enumeration cases]
  | none => if x.limits.included.contains .string then [.primitive x.stringKind] else []

def scalarTypes (x : Subject) : List SimpleType :=
  x.limits.primitives.map .primitive ++ textTypes x

def arrayTerms (x : Subject) : Option (List TypeTerm) :=
  if x.limits.admitsContainer .array then (itemsTerm lib x).map fun items => [.array items]
  else some []

def objectTerms (x : Subject) : List TypeTerm :=
  if x.limits.admitsContainer .object then [.simple (.named ⟨x.place.canonical, .object⟩)] else []

def ownBody (x : Subject) : Option TypeBody :=
  (arrayTerms lib x).map fun arrays =>
    .union ((scalarTypes x).map .simple ++ arrays ++ objectTerms x)

/-- The cases under a keyword, if they can be read. -/
def caseList (x : Subject) (keyword : String) : Option (List SimpleType) :=
  match x.get? keyword with
  | some (.array cases) => some (typesAt lib (x.place.canonical.push keyword) cases)
  | _ => none

def choiceBody (x : Subject) (keyword : String) : Option TypeBody :=
  (caseList lib x keyword).map fun types => .union (types.map .simple)

/-- The target of the reference, if it is found. -/
def targetTerms (x : Subject) : Option (List TypeTerm) :=
  match x.get? "$ref" with
  | none => some []
  | some (.string text) =>
    match (outcome (Library.resolve x.place (.parse text)) lib).1 with
    | .ok found => some [.simple (typeAt lib found.place.canonical)]
    | .error _ => none
  | some _ => none

def allTerms (x : Subject) : Option (List TypeTerm) :=
  if x.has "allOf" then (caseList lib x "allOf").map fun types => types.map .simple else some []

/-- The type of a role, if the schema asks for it. -/
def roleTerms (x : Subject) (asked : Bool) (role : Role) : List TypeTerm :=
  if asked then [.simple (.named ⟨x.place.canonical, role⟩)] else []

def wholeBody (x : Subject) : Option TypeBody :=
  match targetTerms lib x, allTerms lib x with
  | some target, some all =>
    let members := roleTerms x x.needsUnion .own ++ target ++ all
      ++ roleTerms x (x.has "oneOf") .oneOf ++ roleTerms x (x.has "anyOf") .anyOf
    some (.intersection (if members.isEmpty then [.simple anything] else members))
  | _, _ => none

/-- What the type of a name is made of, if the schema at the place can be converted so far. -/
def bodyOf (x : Subject) : Role → Option TypeBody
  | .whole => wholeBody lib x
  | .own => ownBody lib x
  | .object => objectBody lib x
  | .oneOf => choiceBody lib x "oneOf"
  | .anyOf => choiceBody lib x "anyOf"

def body (annotators : List Annotator) (name : TypeName) : Option TypeBody :=
  match lib.value? name.place with
  | some (.object schema) =>
    match subject annotators schema (.ofReference name.place) with
    | .ok x => bodyOf lib x name.role
    | .error _ => none
  | _ => none

/-- No body is missing, of this name and of all that it leads to. -/
def Sound (annotators : List Annotator) (name : TypeName) : Prop :=
  ∃ N : TypeName → Prop, N name ∧
    ∀ m, N m → ∃ b, body lib annotators m = some b ∧ b.All N

end Equations

variable {lib : Library} {annotators : List Annotator}

theorem Sound.exists_body {name : TypeName} (h : Sound lib annotators name) :
    ∃ b, body lib annotators name = some b ∧ b.All (Sound lib annotators) := by
  obtain ⟨N, hname, hN⟩ := h
  obtain ⟨b, hb, hall⟩ := hN name hname
  exact ⟨b, hb, hall.imp fun m hm => ⟨N, hm, hN⟩⟩

/-- A term has names that are all sound, if there is a term. -/
def SoundTerm (lib : Library) (annotators : List Annotator) (term : Option TypeTerm) : Prop :=
  ∃ t, term = some t ∧ t.All (Sound lib annotators)

def SoundTerms (lib : Library) (annotators : List Annotator) (terms : Option (List TypeTerm)) :
    Prop :=
  ∃ ts, terms = some ts ∧ ∀ t ∈ ts, t.All (Sound lib annotators)

theorem body_eq {place : Place} (hplain : place.IsPlain) {schema : List (String × Json)}
    (hvalue : lib.value? place.canonical = some (.object schema)) {x : Subject}
    (hx : subject annotators schema place = .ok x) (role : Role) :
    body lib annotators ⟨place.canonical, role⟩ = bodyOf lib x role := by
  rw [hplain.1] at hx
  simp only [body, hvalue, hx]

theorem body_eq_none {r : Reference} (hvalue : ∀ schema, lib.value? r ≠ some (.object schema))
    (role : Role) : body lib annotators ⟨r, role⟩ = none := by
  unfold body
  split
  · next schema hschema => exact absurd hschema (hvalue schema)
  · rfl

theorem typeAt_of_true {r : Reference} (h : lib.value? r = some (.bool true)) :
    typeAt lib r = anything := by
  simp only [typeAt, h]

theorem typeAt_of_ne {r : Reference} {v : Json} (h : lib.value? r = some v) (hv : v ≠ .bool true) :
    typeAt lib r = .named ⟨r, .whole⟩ := by
  unfold typeAt
  split
  · next htrue => exact absurd (Option.some.inj (h.symm.trans htrue)) hv
  · rfl

/-- Where the own types of a schema are sound, so are those of its parts. -/
theorem soundTerms_of_own {x : Subject} {b : TypeBody} (hb : ownBody lib x = some b)
    (h : b.All (Sound lib annotators)) :
    SoundTerms lib annotators (arrayTerms lib x) ∧
      ∀ t ∈ objectTerms x, t.All (Sound lib annotators) := by
  unfold ownBody at hb
  obtain ⟨arrays, harrays, rfl⟩ := Option.map_eq_some_iff.1 hb
  refine ⟨⟨arrays, harrays, fun t ht => h t ?_⟩, fun t ht => h t ?_⟩
  · exact List.mem_append_left _ (List.mem_append_right _ ht)
  · exact List.mem_append_right _ ht

/-- Where the type of a schema is sound, so is each of its members. -/
theorem soundTerms_of_whole {x : Subject} {b : TypeBody} (hb : wholeBody lib x = some b)
    (h : b.All (Sound lib annotators)) :
    (x.needsUnion = true → Sound lib annotators ⟨x.place.canonical, .own⟩) ∧
      SoundTerms lib annotators (targetTerms lib x) ∧ SoundTerms lib annotators (allTerms lib x) ∧
      (x.has "oneOf" = true → Sound lib annotators ⟨x.place.canonical, .oneOf⟩) ∧
      (x.has "anyOf" = true → Sound lib annotators ⟨x.place.canonical, .anyOf⟩) := by
  unfold wholeBody at hb
  split at hb
  · next target all htarget hall =>
    obtain rfl := Option.some.inj hb
    have hmembers : ∀ t ∈ roleTerms x x.needsUnion .own ++ target ++ all
        ++ roleTerms x (x.has "oneOf") .oneOf ++ roleTerms x (x.has "anyOf") .anyOf,
        t.All (Sound lib annotators) := by
      intro t ht
      refine h t ?_
      rw [if_neg (fun hnil => List.ne_nil_of_mem ht (List.isEmpty_iff.1 hnil))]
      exact ht
    have hrole : ∀ role asked, asked = true →
        (∀ t ∈ roleTerms x asked role, t.All (Sound lib annotators)) →
          Sound lib annotators ⟨x.place.canonical, role⟩ := by
      rintro role _ rfl hterms
      exact hterms _ (List.mem_singleton_self _)
    simp only [List.mem_append] at hmembers
    refine ⟨fun hneeds => ?_, ⟨target, htarget, ?_⟩, ⟨all, hall, ?_⟩, fun hone => ?_,
      fun hany => ?_⟩
    · exact hrole _ _ hneeds fun t ht => hmembers t (.inl (.inl (.inl (.inl ht))))
    · exact fun t ht => hmembers t (.inl (.inl (.inl (.inr ht))))
    · exact fun t ht => hmembers t (.inl (.inl (.inr ht)))
    · exact hrole _ _ hone fun t ht => hmembers t (.inl (.inr ht))
    · exact hrole _ _ hany fun t ht => hmembers t (.inr ht)
  · cases hb

end Conversion

end JsonTyping
