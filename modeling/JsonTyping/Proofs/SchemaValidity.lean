import JsonTyping.Graph.Basic
import JsonTyping.Proofs.Runs
import JsonTyping.Schema.JsonType
import JsonTyping.Schema.Library

/-!
# Values of schemas and of their types

`Valid` says which values are valid for a schema, keyword by keyword, and `Graph.Admits` which
values a type of a graph has, as types of schemas are meant: formats do not count. Both are the
least relations of their kind, so a schema or a type that only leads back to itself has no values.
-/

namespace JsonTyping

/-- The value in units of 2⁻¹⁰⁷⁴, however the number is written. -/
def Number.toUnits : Number → Int
  | .integer n => n * (Double.unitsPerOne : Int)
  | .double x => x.toUnits

theorem Double.isWhole_iff (x : Double) : x.isWhole = true ↔ (unitsPerOne : Int) ∣ x.toUnits := by
  have hnat : x.isWhole = true ↔ unitsPerOne ∣ x.units := by
    rw [isWhole, beq_iff_eq, Nat.dvd_iff_mod_eq_zero]
  rw [hnat, toUnits]
  split
  · rw [Int.dvd_neg, Int.natCast_dvd_natCast]
  · rw [Int.natCast_dvd_natCast]

theorem Number.isWhole_iff (n : Number) :
    n.isWhole = true ↔ (Double.unitsPerOne : Int) ∣ n.toUnits := by
  cases n with
  | integer n => exact ⟨fun _ => Int.dvd_mul_left n _, fun _ => rfl⟩
  | double x => exact x.isWhole_iff

/-- The values are the same scalar; numbers count by value. -/
inductive Json.SameScalar : Json → Json → Prop
  | null : SameScalar .null .null
  | bool (b : Bool) : SameScalar (.bool b) (.bool b)
  | number {m n : Number} (h : m.toUnits = n.toUnits) : SameScalar (.number m) (.number n)
  | string (s : String) : SameScalar (.string s) (.string s)

theorem Json.SameScalar.admits {v w : Json} (h : v.SameScalar w) (t : JsonType) :
    t.admits v = t.admits w := by
  cases h with
  | @number m n h =>
    have hwhole : m.isWhole = n.isWhole := by
      rw [Bool.eq_iff_iff, m.isWhole_iff, n.isWhole_iff, h]
    cases t with
    | integer => exact hwhole
    | _ => rfl
  | _ => rfl

theorem Json.SameScalar.ofValue {v w : Json} (h : v.SameScalar w) :
    JsonType.ofValue v = JsonType.ofValue w := by
  cases h with
  | @number m n h =>
    have hwhole : m.isWhole = n.isWhole := by
      rw [Bool.eq_iff_iff, m.isWhole_iff, n.isWhole_iff, h]
    simp only [JsonType.ofValue, hwhole]
  | _ => rfl

def typeNames : Json → List String
  | .string name => [name]
  | .array items => items.filterMap Json.string?
  | _ => []

/-- The schema gives the property a schema of its own. -/
def Declares (schema : List (String × Json)) (name : String) : Prop :=
  ∃ declared S, schema.lookup "properties" = some (.object declared) ∧ (name, S) ∈ declared

/-- The property is listed as required, or says itself that it is. -/
def Requires (schema : List (String × Json)) (name : String) : Prop :=
  (∃ names, schema.lookup "required" = some (.array names) ∧ .string name ∈ names) ∨
    ∃ declared S, schema.lookup "properties" = some (.object declared) ∧ (name, S) ∈ declared ∧
      S.get? "required" = some (.bool true)

/-- The value satisfies every keyword of the schema at the place; `parts p S w` says that `w` is
valid for the schema `S` at `p`. A value may satisfy more than one case of `oneOf`. Schemas with
`patternProperties` are left out, and so are the literals of `enum` and `const` that are no
scalars. -/
structure Allows (lib : Library) (parts : Place → Json → Json → Prop) (place : Place)
    (schema : List (String × Json)) (v : Json) : Prop where
  noPatterns : schema.lookup "patternProperties" = none
  type : ∀ w, schema.lookup "type" = some w →
    ∃ name ∈ typeNames w, ∃ t, JsonType.ofName? name = some t ∧ t.admits v = true
  enum : ∀ values, schema.lookup "enum" = some (.array values) →
    ∃ literal ∈ values, literal.SameScalar v
  const : ∀ literal, schema.lookup "const" = some literal → literal.SameScalar v
  properties : ∀ declared members, schema.lookup "properties" = some (.object declared) →
    v = .object members → ∀ name S w, (name, S) ∈ declared → (name, w) ∈ members →
      parts ((place.push "properties").push name) S w
  required : ∀ members, v = .object members → ∀ name, Requires schema name →
    ∃ w, (name, w) ∈ members
  additional : ∀ S members, schema.lookup "additionalProperties" = some S → v = .object members →
    ∀ name w, (name, w) ∈ members → ¬ Declares schema name →
      parts (place.push "additionalProperties") S w
  items : ∀ S vs, schema.lookup "items" = some S → (∀ cases, S ≠ .array cases) → v = .array vs →
    ∀ w ∈ vs, parts (place.push "items") S w
  listedItems : ∀ cases vs, schema.lookup "items" = some (.array cases) → cases ≠ [] →
    v = .array vs → ∀ w ∈ vs, ∃ (i : Nat) (S : Json), cases[i]? = some S ∧
      parts ((place.push "items").push (toString i)) S w
  target : ∀ text, schema.lookup "$ref" = some (.string text) →
    ∃ found S, (outcome (Library.resolve place (.parse text)) lib).1 = .ok found ∧
      found.value = .ok S ∧ parts found.place S v
  allOf : ∀ cases, schema.lookup "allOf" = some (.array cases) →
    ∀ (i : Nat) (S : Json), cases[i]? = some S → parts ((place.push "allOf").push (toString i)) S v
  choice : ∀ keyword cases, keyword = "oneOf" ∨ keyword = "anyOf" →
    schema.lookup keyword = some (.array cases) →
      ∃ (i : Nat) (S : Json), cases[i]? = some S ∧
        parts ((place.push keyword).push (toString i)) S v

theorem Allows.mono {lib : Library} {parts parts' : Place → Json → Json → Prop} {place : Place}
    {schema : List (String × Json)} {v : Json} (h : Allows lib parts place schema v)
    (hparts : ∀ p S w, parts p S w → parts' p S w) : Allows lib parts' place schema v where
  noPatterns := h.noPatterns
  type := h.type
  enum := h.enum
  const := h.const
  properties declared members hdeclared hv name S w hS hw :=
    hparts _ _ _ (h.properties declared members hdeclared hv name S w hS hw)
  required := h.required
  additional S members hS hv name w hw hname :=
    hparts _ _ _ (h.additional S members hS hv name w hw hname)
  items S vs hS hlist hv w hw := hparts _ _ _ (h.items S vs hS hlist hv w hw)
  listedItems cases vs hcases hne hv w hw := by
    obtain ⟨i, S, hi, hS⟩ := h.listedItems cases vs hcases hne hv w hw
    exact ⟨i, S, hi, hparts _ _ _ hS⟩
  target text htext := by
    obtain ⟨found, S, hfound, hvalue, hS⟩ := h.target text htext
    exact ⟨found, S, hfound, hvalue, hparts _ _ _ hS⟩
  allOf cases hcases i S hi := hparts _ _ _ (h.allOf cases hcases i S hi)
  choice keyword cases hkeyword hcases := by
    obtain ⟨i, S, hi, hS⟩ := h.choice keyword cases hkeyword hcases
    exact ⟨i, S, hi, hparts _ _ _ hS⟩

/-- The value is valid for the schema at the place. -/
inductive Valid (lib : Library) : Place → Json → Json → Prop
  | anything (place : Place) (v : Json) : Valid lib place (.bool true) v
  | object {parts : Place → Json → Json → Prop} {place : Place} {schema : List (String × Json)}
      {v : Json} (hparts : ∀ p S w, parts p S w → Valid lib p S w)
      (h : Allows lib parts place schema v) : Valid lib place (.object schema) v

/-- A value is valid if every keyword holds, where parts are valid in the same sense. -/
theorem valid_object {lib : Library} {place : Place} {schema : List (String × Json)} {v : Json} :
    Valid lib place (.object schema) v ↔ Allows lib (Valid lib) place schema v := by
  constructor
  · intro h
    cases h with
    | object hparts h => exact h.mono hparts
  · exact .object fun _ _ _ hS => hS

/-- The types of strings, of whatever format. -/
def Primitive.isString : Primitive → Bool
  | .string | .date | .time | .dateTime | .uuid | .uri | .integerString | .boolString => true
  | _ => false

/-- The type of a property of an object type: its own, or that of all other properties. -/
def typeOfProperty (properties : SortedMap String Property) (additional : Option NodeId)
    (name : String) : Option NodeId :=
  match properties.find? name with
  | some p => some p.type
  | none => additional

namespace Graph

/-- The value is one of the type. -/
inductive Admits (g : Graph) : NodeId → Json → Prop
  | any {t : NodeId} (h : g.shape t = .primitive .any) (v : Json) : Admits g t v
  | null {t : NodeId} (h : g.shape t = .primitive .null) : Admits g t .null
  | bool {t : NodeId} (h : g.shape t = .primitive .bool) (b : Bool) : Admits g t (.bool b)
  | integer {t : NodeId} (h : g.shape t = .primitive .integer) {n : Number}
      (hn : JsonType.integer.admits (.number n) = true) : Admits g t (.number n)
  | double {t : NodeId} (h : g.shape t = .primitive .double) (n : Number) : Admits g t (.number n)
  | string {t : NodeId} {p : Primitive} (h : g.shape t = .primitive p) (hp : p.isString = true)
      (s : String) : Admits g t (.string s)
  | enumeration {t : NodeId} {cases : SortedSet String} (h : g.shape t = .enumeration cases)
      {s : String} (hs : s ∈ cases) : Admits g t (.string s)
  | array {t items : NodeId} (h : g.shape t = .array items) {vs : List Json}
      (hvs : ∀ v ∈ vs, Admits g items v) : Admits g t (.array vs)
  | object {t : NodeId} {properties : SortedMap String Property} {additional : Option NodeId}
      (h : g.shape t = .object properties additional) {members : List (String × Json)}
      (hknown : ∀ name v, (name, v) ∈ members →
        (typeOfProperty properties additional name).isSome = true)
      (htyped : ∀ name v u, (name, v) ∈ members →
        typeOfProperty properties additional name = some u → Admits g u v)
      (hpresent : ∀ name p, properties.find? name = some p → p.optional = false →
        ∃ v, (name, v) ∈ members) : Admits g t (.object members)
  | union {t u : NodeId} {members : SortedSet NodeId} (h : g.shape t = .union (some members))
      (hu : u ∈ members) {v : Json} (hv : Admits g u v) : Admits g t v
  | intersection {t : NodeId} {members : SortedSet NodeId}
      (h : g.shape t = .intersection (some members)) {v : Json}
      (hv : ∀ u ∈ members, Admits g u v) : Admits g t v

end Graph

end JsonTyping
