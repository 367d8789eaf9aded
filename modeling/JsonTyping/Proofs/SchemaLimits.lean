import JsonTyping.Proofs.Runs
import JsonTyping.Proofs.SchemaValidity
import JsonTyping.Schema.Conversion

/-!
# Limits of schemas

What `type`, `enum` and `const` say about a value (`Limits.Allow`) holds of every valid value
(`limits_of_allows`). The kinds of types that a conversion derives from the three keywords leave
room for such a value: a listed string, a type that includes it
(`Limits.Allow.exists_mem_included`), and among the primitive types one for every scalar but
strings (`Limits.Allow.exists_mem_primitives`).
-/

namespace JsonTyping.Conversion

namespace Limits

/-- The value is of a listed type, one of the listed values, and the only one. -/
structure Allow (limits : Limits) (v : Json) : Prop where
  types : ∀ types, limits.types = some types → ∃ t ∈ types, t.admits v = true
  values : ∀ values, limits.values = some values → ∃ literal ∈ values, literal.SameScalar v
  only : ∀ literal, limits.only = some literal → literal.SameScalar v

end Limits

/-- A name that is read as a type is among the types of the list. -/
theorem mem_of_listed {f : String → Except SchemaError JsonType} {names : List String}
    {types : SortedSet JsonType} {name : String} {t : JsonType}
    (h : (do let types ← names.mapM f; pure (SortedSet.ofList types)) = Except.ok types)
    (hname : name ∈ names) (ht : f name = .ok t) : t ∈ types := by
  obtain ⟨ts, hts, h⟩ := bind_eq_ok.1 h
  obtain rfl := Except.ok.inj h
  obtain ⟨u, hu, heq⟩ := exists_right_of_forall₂ (forall₂_of_mapM_eq_ok hts) hname
  obtain rfl := Except.ok.inj (ht.symm.trans heq)
  exact SortedSet.mem_ofList.2 hu

theorem mem_of_typeList {place : Reference} {w : Json} {types : SortedSet JsonType}
    (h : typeList place w = .ok types) {name : String} (hname : name ∈ typeNames w) {t : JsonType}
    (ht : JsonType.ofName? name = some t) : t ∈ types := by
  unfold typeList at h
  cases w with
  | string s =>
    refine mem_of_listed h hname ?_
    rw [ht]
    rfl
  | array items =>
    dsimp only at h
    split at h
    · next strings hstrings =>
      have hmem : name ∈ strings := by
        obtain ⟨item, hitem, hstring⟩ := List.mem_filterMap.1 hname
        obtain ⟨s, hs, heq⟩ := exists_right_of_forall₂ (forall₂_of_mapM_eq_some hstrings) hitem
        obtain rfl := Option.some.inj (hstring.symm.trans heq)
        exact hs
      refine mem_of_listed h hmem ?_
      rw [ht]
      rfl
    · cases h
  | _ => cases hname

/-- What the conversion of a schema looks at comes from the schema. -/
structure IsSubject (annotators : List Annotator) (x : Subject) : Prop where
  annotators : x.annotators = annotators
  types : ∀ types, x.limits.types = some types →
    ∃ w, x.get? "type" = some w ∧ typeList x.place.canonical w = .ok types
  values : x.limits.values = (x.get? "enum").bind Json.items?
  only : x.limits.only = x.get? "const"

theorem isSubject_of_subject {annotators : List Annotator} {schema : List (String × Json)}
    {place : Place} {x : Subject} (h : subject annotators schema place = .ok x) :
    IsSubject annotators x ∧ x.schema = schema ∧ x.place = place := by
  unfold subject at h
  cases hlookup : schema.lookup "type" with
  | none =>
    rw [hlookup] at h
    obtain rfl := Except.ok.inj h
    exact ⟨⟨rfl, nofun, rfl, rfl⟩, rfl, rfl⟩
  | some w =>
    rw [hlookup] at h
    cases hlist : typeList place.canonical w with
    | error e =>
      simp only [hlist] at h
      cases h
    | ok types =>
      simp only [hlist] at h
      obtain rfl := Except.ok.inj h
      refine ⟨⟨rfl, fun set hset => ⟨w, hlookup, ?_⟩, rfl, rfl⟩, rfl, rfl⟩
      obtain rfl := Option.some.inj hset
      exact hlist

/-- The keywords `type`, `enum` and `const`, as far as they are there, allow the value. -/
structure AllowsValue (schema : List (String × Json)) (v : Json) : Prop where
  type : ∀ w, schema.lookup "type" = some w →
    ∃ name ∈ typeNames w, ∃ t, JsonType.ofName? name = some t ∧ t.admits v = true
  enum : ∀ values, schema.lookup "enum" = some (.array values) →
    ∃ literal ∈ values, literal.SameScalar v
  const : ∀ literal, schema.lookup "const" = some literal → literal.SameScalar v

theorem limits_of_allowsValue {annotators : List Annotator} {x : Subject}
    (hx : IsSubject annotators x) {v : Json} (h : AllowsValue x.schema v) : x.limits.Allow v where
  types types htypes := by
    obtain ⟨w, hw, hlist⟩ := hx.types types htypes
    obtain ⟨name, hname, t, ht, hadmits⟩ := h.type w hw
    exact ⟨t, mem_of_typeList hlist hname ht, hadmits⟩
  values values hvalues := by
    rw [hx.values] at hvalues
    obtain ⟨w, hw, hitems⟩ := Option.bind_eq_some_iff.1 hvalues
    cases w with
    | array items =>
      obtain rfl := Option.some.inj hitems
      exact h.enum items hw
    | _ => cases hitems
  only literal hliteral := by
    rw [hx.only] at hliteral
    exact h.const literal hliteral

theorem limits_of_allows {annotators : List Annotator} {x : Subject} (hx : IsSubject annotators x)
    {lib : Library} {parts : Place → Json → Json → Prop} {v : Json}
    (h : Allows lib parts x.place x.schema v) : x.limits.Allow v :=
  limits_of_allowsValue hx ⟨h.type, h.enum, h.const⟩

theorem admits_ofValue (v : Json) : (JsonType.ofValue v).admits v = true := by
  cases v with
  | number n =>
    cases hn : n.isWhole with
    | true => simp only [JsonType.ofValue, hn, if_true, JsonType.admits]
    | false => simp only [JsonType.ofValue, hn, Bool.false_eq_true, if_false, JsonType.admits]
  | _ => rfl

namespace Limits

variable {limits : Limits} {v : Json}

theorem mem_included {t : JsonType} : t ∈ limits.included ↔ limits.includes t = true := by
  have hall : t ∈ JsonType.all := by cases t <;> decide
  rw [included, SortedSet.mem_ofList, List.mem_filter]
  exact ⟨And.right, fun h => ⟨hall, h⟩⟩

theorem Allow.includes (h : limits.Allow v) {t : JsonType} (hv : t.admits v = true)
    (hlisted : ∀ types, limits.types = some types → t ∈ types)
    (hnarrow : limits.types = none → t = JsonType.ofValue v) : limits.includes t = true := by
  obtain ⟨types, values, only⟩ := limits
  unfold Limits.includes
  rw [Bool.and_eq_true]
  constructor
  · cases types with
    | none => rfl
    | some types => exact SortedSet.contains_iff.2 (hlisted types rfl)
  · cases values with
    | some values =>
      obtain ⟨literal, hliteral, hsame⟩ := h.values values rfl
      exact List.any_eq_true.2 ⟨literal, hliteral, (hsame.admits t).trans hv⟩
    | none =>
      cases only with
      | none => rfl
      | some literal =>
        have hsame := h.only literal rfl
        cases types with
        | some types => exact (hsame.admits t).trans hv
        | none =>
          rw [hnarrow rfl, ← hsame.ofValue]
          exact beq_self_eq_true _

theorem Allow.exists_mem_included (h : limits.Allow v) :
    ∃ t ∈ limits.included, t.admits v = true := by
  cases htypes : limits.types with
  | none =>
    refine ⟨JsonType.ofValue v, mem_included.2 (h.includes (admits_ofValue v) ?_ fun _ => rfl),
      admits_ofValue v⟩
    intro types hsome
    rw [htypes] at hsome
    cases hsome
  | some types =>
    obtain ⟨t, ht, hadmits⟩ := h.types types htypes
    refine ⟨t, mem_included.2 (h.includes hadmits ?_ ?_), hadmits⟩
    · intro types' hsome
      obtain rfl := Option.some.inj (htypes.symm.trans hsome)
      exact ht
    · intro hnone
      rw [htypes] at hnone
      cases hnone

/-- The primitive type has the value, as values of schemas are meant. -/
def Fits (p : Primitive) : Json → Prop
  | .null => p = .null
  | .bool _ => p = .bool
  | .number n => p = .double ∨ p = .integer ∧ n.isWhole = true
  | _ => False

theorem Allow.exists_mem_primitives (h : limits.Allow v) (hstring : ∀ s, v ≠ .string s)
    (harray : ∀ items, v ≠ .array items) (hobject : ∀ members, v ≠ .object members) :
    ∃ p ∈ limits.primitives, Fits p v := by
  obtain ⟨t, ht, hadmits⟩ := h.exists_mem_included
  have hcontains := SortedSet.contains_iff.2 ht
  unfold primitives
  simp only [List.mem_append]
  cases v with
  | string s => exact absurd rfl (hstring s)
  | array items => exact absurd rfl (harray items)
  | object members => exact absurd rfl (hobject members)
  | null =>
    have hnull : t = .null := by cases t <;> first | rfl | cases hadmits
    subst hnull
    refine ⟨.null, .inl (.inl (.inl ?_)), rfl⟩
    rw [if_pos hcontains]
    exact List.mem_singleton.2 rfl
  | bool b =>
    have hbool : t = .boolean := by cases t <;> first | rfl | cases hadmits
    subst hbool
    refine ⟨.bool, .inl (.inl (.inr ?_)), rfl⟩
    rw [if_pos hcontains]
    exact List.mem_singleton.2 rfl
  | number n =>
    cases hnumber : limits.included.contains .number with
    | true => exact ⟨.double, .inr (List.mem_singleton.2 rfl), .inl rfl⟩
    | false =>
      have hinteger : t = .integer := by
        cases t with
        | integer => rfl
        | number =>
          rw [hnumber] at hcontains
          cases hcontains
        | _ => cases hadmits
      subst hinteger
      refine ⟨.integer, .inl (.inr ?_), .inr ⟨rfl, hadmits⟩⟩
      rw [hcontains]
      exact List.mem_singleton.2 rfl

theorem Allow.mem_cases {s : String} (h : limits.Allow (.string s)) {cases : SortedSet String}
    (hcases : limits.cases? = some cases) : s ∈ cases := by
  unfold cases? at hcases
  split at hcases
  · next text _ honly =>
    obtain rfl := Option.some.inj hcases
    cases h.only _ honly
    exact SortedSet.mem_singleton.2 rfl
  · cases hcases
  · next values _ hvalues =>
    split at hcases
    · obtain rfl := Option.some.inj hcases
      obtain ⟨literal, hliteral, hsame⟩ := h.values values hvalues
      cases hsame
      exact SortedSet.mem_ofList.2 (List.mem_filterMap.2 ⟨_, hliteral, rfl⟩)
    · cases hcases
  · cases hcases

theorem Allow.contains_string {s : String} (h : limits.Allow (.string s)) :
    limits.included.contains .string = true := by
  obtain ⟨t, ht, hadmits⟩ := h.exists_mem_included
  have hstring : t = .string := by cases t <;> first | rfl | cases hadmits
  subst hstring
  exact SortedSet.contains_iff.2 ht

theorem Allow.admitsContainer (h : limits.Allow v) (hscalar : ∀ w : Json, ¬ w.SameScalar v)
    {t : JsonType} (hv : ∀ u : JsonType, u.admits v = true → u = t) :
    limits.admitsContainer t = true := by
  obtain ⟨types, values, only⟩ := limits
  have hvalues : values = none := by
    cases values with
    | none => rfl
    | some values =>
      obtain ⟨literal, -, hsame⟩ := h.values values rfl
      exact absurd hsame (hscalar literal)
  have honly : only = none := by
    cases only with
    | none => rfl
    | some literal => exact absurd (h.only literal rfl) (hscalar literal)
  subst hvalues honly
  cases types with
  | none => rfl
  | some types =>
    obtain ⟨u, hu, hadmits⟩ := h.types types rfl
    obtain rfl := hv u hadmits
    exact SortedSet.contains_iff.2 hu

end Limits

theorem isString_stringKind (x : Subject) : x.stringKind.isString = true := by
  unfold Subject.stringKind
  split
  · next f _ => cases f <;> rfl
  · rfl

end JsonTyping.Conversion
