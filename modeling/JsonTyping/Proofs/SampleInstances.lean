import JsonTyping.Proofs.GraphGrowth
import JsonTyping.Samples.Resolution

/-!
# Instances of sampled types

`Graph.Instance` says which values a type of a graph has, as types of samples are meant: a record
has no other keys than its properties, and a format has the strings that are recognized in it. What
the intersections made for references stand for is a parameter. In a finished graph it is
`Graph.Targets`: an intersection stands for the references that lead to one of its members
(`Graph.Leads`), and where a reference leads is unique (`Graph.Leads.unique`).
-/

namespace JsonTyping

/-- The values of a primitive type. -/
def Primitive.Holds : Primitive → Json → Prop
  | .any, _ => True
  | .null, .null => True
  | .bool, .bool _ => True
  | .integer, .number (.integer _) => True
  | .double, .number _ => True
  | .string, .string _ => True
  | p, .string s => ∃ f : Format, f.primitive = p ∧ Format.recognize s = some f
  | _, _ => False

theorem Primitive.not_holds_none (v : Json) : ¬ Primitive.none.Holds v := by
  intro h
  cases v with
  | string s =>
    obtain ⟨f, hf, -⟩ := h
    cases f <;> cases hf
  | _ => exact h

theorem Primitive.holds_of_recognize {s : String} {f : Format} (h : Format.recognize s = some f) :
    f.primitive.Holds (.string s) := by
  cases f <;> exact ⟨_, rfl, h⟩

namespace Graph

/-- The values of the type of a node; `refs t s` says that the reference `s` is a value of `t`. -/
inductive Instance (g : Graph) (refs : NodeId → String → Prop) : NodeId → Json → Prop
  | primitive {t : NodeId} {p : Primitive} {v : Json} :
    g.shape t = .primitive p → p.Holds v → Instance g refs t v
  | enumeration {t : NodeId} {cases : SortedSet String} {s : String} :
    g.shape t = .enumeration cases → s ∈ cases → Instance g refs t (.string s)
  | array {t items : NodeId} {vs : List Json} :
    g.shape t = .array items → (∀ v ∈ vs, Instance g refs items v) →
      Instance g refs t (.array vs)
  | map {t values : NodeId} {ms : List (String × Json)} :
    g.shape t = .map values → (∀ k v, (k, v) ∈ ms → Instance g refs values v) →
      Instance g refs t (.object ms)
  | record {t : NodeId} {properties : SortedMap String Property} {ms : List (String × Json)} :
    g.shape t = .record properties →
      (∀ k v, (k, v) ∈ ms → ∃ p, properties.find? k = some p) →
      (∀ k v p, (k, v) ∈ ms → properties.find? k = some p → Instance g refs p.type v) →
      (∀ k p, properties.find? k = some p → p.optional = false → ∃ v, (k, v) ∈ ms) →
      Instance g refs t (.object ms)
  | union {t u : NodeId} {members : SortedSet NodeId} {v : Json} :
    g.shape t = .union (some members) → u ∈ members → Instance g refs u v →
      Instance g refs t v
  | reference {t : NodeId} {s : String} :
    refs t s → Instance g refs t (.object [("$ref", .string s)])

/-- Values stay values as long as all shapes but intersections stay, and references stay. -/
theorem Instance.mono {g g' : Graph} {refs refs' : NodeId → String → Prop}
    (hshape : ∀ t s, g.shape t = s → s ≠ .primitive .none → (∀ m, s ≠ .intersection m) →
      g'.shape t = s)
    (hrefs : ∀ t s, refs t s → refs' t s) {t : NodeId} {v : Json} (h : g.Instance refs t v) :
    g'.Instance refs' t v := by
  induction h with
  | @primitive t p v ht hp =>
    have hne : p ≠ .none := by
      rintro rfl
      exact Primitive.not_holds_none v hp
    exact .primitive (hshape _ _ ht (by simpa using hne) nofun) hp
  | enumeration ht hs => exact .enumeration (hshape _ _ ht nofun nofun) hs
  | array ht _ ih => exact .array (hshape _ _ ht nofun nofun) ih
  | map ht _ ih => exact .map (hshape _ _ ht nofun nofun) ih
  | record ht hdeclared _ hpresent ih =>
    exact .record (hshape _ _ ht nofun nofun) hdeclared ih hpresent
  | union ht hu _ ih => exact .union (hshape _ _ ht nofun nofun) hu ih
  | reference h => exact .reference (hrefs _ _ h)

/-- A path leads from one type to another: from container to container, through nullable types and
intersections of one member. -/
inductive Leads (g : Graph) : NodeId → List String → NodeId → Prop
  | here {t : NodeId} : Leads g t [] t
  | nullable {t u r : NodeId} {segment : String} {rest : List String} :
    g.nullableInner? t = some u → Leads g u (segment :: rest) r → Leads g t (segment :: rest) r
  | only {t u r : NodeId} {members : SortedSet NodeId} {segment : String} {rest : List String} :
    g.shape t = .intersection (some members) → members.toList = [u] →
      Leads g u (segment :: rest) r → Leads g t (segment :: rest) r
  | into {t u r : NodeId} {segment : String} {rest : List String} :
    Inference.step g t segment = .ok u → Leads g u rest r → Leads g t (segment :: rest) r

/-- A reference seen from the type of the whole sample refers to a type. -/
def RefersTo (g : Graph) (top : NodeId) (reference : String) (t : NodeId) : Prop :=
  ∃ segments, Inference.segments? reference = some segments ∧ g.Leads top segments t

/-- The type is an intersection, and the reference refers to one of its members. -/
def Targets (g : Graph) (top t : NodeId) (reference : String) : Prop :=
  ∃ members r, g.shape t = .intersection (some members) ∧ r ∈ members ∧
    g.RefersTo top reference r

theorem shape_of_nullableInner? {g : Graph} {t u : NodeId} (h : g.nullableInner? t = some u) :
    ∃ members, g.shape t = .union (some members) := by
  unfold nullableInner? at h
  split at h
  · next members hshape => exact ⟨members, hshape⟩
  · cases h

/-- A path goes into containers only. -/
theorem step_of_union {g : Graph} {t : NodeId} {members : Option (SortedSet NodeId)}
    (h : g.shape t = .union members) (segment : String) (u : NodeId) :
    Inference.step g t segment ≠ .ok u := by
  simp only [Inference.step, h]
  exact nofun

theorem step_of_intersection {g : Graph} {t : NodeId} {members : Option (SortedSet NodeId)}
    (h : g.shape t = .intersection members) (segment : String) (u : NodeId) :
    Inference.step g t segment ≠ .ok u := by
  simp only [Inference.step, h]
  exact nofun

theorem Leads.unique {g : Graph} {t r r' : NodeId} {path : List String} (h : g.Leads t path r)
    (h' : g.Leads t path r') : r = r' := by
  induction h with
  | here =>
    cases h'
    rfl
  | nullable hinner _ ih =>
    obtain ⟨members, hshape⟩ := shape_of_nullableInner? hinner
    cases h' with
    | nullable hinner' h' =>
      obtain rfl := Option.some.inj (hinner.symm.trans hinner')
      exact ih h'
    | only hshape' _ _ =>
      rw [hshape] at hshape'
      cases hshape'
    | into hstep _ => exact absurd hstep (step_of_union hshape _ _)
  | only hshape honly _ ih =>
    cases h' with
    | nullable hinner' _ =>
      obtain ⟨members, hshape'⟩ := shape_of_nullableInner? hinner'
      rw [hshape] at hshape'
      cases hshape'
    | only hshape' honly' h' =>
      rw [hshape] at hshape'
      cases hshape'
      rw [honly] at honly'
      cases honly'
      exact ih h'
    | into hstep _ => exact absurd hstep (step_of_intersection hshape _ _)
  | into hstep _ ih =>
    cases h' with
    | nullable hinner' _ =>
      obtain ⟨members, hshape'⟩ := shape_of_nullableInner? hinner'
      exact absurd hstep (step_of_union hshape' _ _)
    | only hshape' _ _ => exact absurd hstep (step_of_intersection hshape' _ _)
    | into hstep' h' =>
      rw [hstep] at hstep'
      cases hstep'
      exact ih h'

end Graph

end JsonTyping
