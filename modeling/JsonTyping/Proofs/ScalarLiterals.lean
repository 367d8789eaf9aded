import JsonTyping.Proofs.SchemaMembers
import JsonTyping.Proofs.UnionArms

/-!
# Scalar literals

A scalar that the keywords of a schema permit is a value of its type (`Batch.literals_admitted`):
so are the scalars under `enum` and `const` that satisfy the other keywords. A schema with an `enum`
or a `const` is converted to types of scalars only, so no array and no object is a value of its
type, also where it is a literal of the schema (`Batch.literals_container`).
-/

namespace JsonTyping

/-- The value is no array and no object. -/
def Json.IsAtomic : Json → Prop
  | .array _ | .object _ => False
  | _ => True

namespace Graph

variable {g : Graph} {t : NodeId} {members : SortedSet NodeId} {v : Json}

theorem Admits.exists_mem (h : g.Admits t v) (ht : g.shape t = .union (some members)) :
    ∃ u ∈ members, g.Admits u v := by
  cases h with
  | union hunion hu hv =>
    obtain rfl := Option.some.inj (Shape.union.inj (ht.symm.trans hunion))
    exact ⟨_, hu, hv⟩
  | _ => simp_all

theorem Admits.forall_mem (h : g.Admits t v) (ht : g.shape t = .intersection (some members)) :
    ∀ u ∈ members, g.Admits u v := by
  cases h with
  | intersection hintersection hv =>
    obtain rfl := Option.some.inj (Shape.intersection.inj (ht.symm.trans hintersection))
    exact hv
  | _ => simp_all

end Graph

namespace Conversion

/-- The scalar satisfies every keyword of the schema at the place; `parts` are the places whose
schemas it satisfies, and `leads` says where references lead. A value may satisfy more than one case
of `oneOf`. -/
structure Permits (leads : Reference → Option Reference) (parts : Reference → Prop) (r : Reference)
    (schema : List (String × Json)) (v : Json) : Prop extends AllowsValue schema v where
  target : ∀ text, schema.lookup "$ref" = some (.string text) →
    ∃ r', leads r = some r' ∧ parts r'
  allOf : ∀ cases, schema.lookup "allOf" = some (.array cases) →
    ∀ i < cases.length, parts ((r.push "allOf").push (toString i))
  choice : ∀ keyword cases, keyword = "oneOf" ∨ keyword = "anyOf" →
    schema.lookup keyword = some (.array cases) →
      ∃ i < cases.length, parts ((r.push keyword).push (toString i))

/-- The scalar satisfies the schema at the place. Of a place that had a type in the graph before, it
satisfies the type. -/
inductive Conforms (lib : Library) (leads : Reference → Option Reference)
    (before : List (Reference × NodeId)) (g : Graph) (v : Json) : Reference → Prop
  | before {r : Reference} {t : NodeId} (ht : before.lookup r = some t) (hv : g.Admits t v) :
      Conforms lib leads before g v r
  | anything {r : Reference} (hnew : before.lookup r = none)
      (hvalue : lib.value? r = some (.bool true)) : Conforms lib leads before g v r
  | object {r : Reference} {schema : List (String × Json)} {parts : Reference → Prop}
      (hnew : before.lookup r = none) (hschema : lib.value? r = some (.object schema))
      (hparts : ∀ r', parts r' → Conforms lib leads before g v r')
      (h : Permits leads parts r schema v) : Conforms lib leads before g v r

/-- The schema names its values one by one. -/
def HasLiterals (schema : List (String × Json)) : Prop :=
  (∃ values, schema.lookup "enum" = some (.array values)) ∨
    ∃ literal, schema.lookup "const" = some literal

variable {lib : Library} {annotators : List Annotator} {s : Conversion} {x : Subject}
  {r : Reference} {t u : NodeId} {target : Option Reference} {v : Json}

theorem scalarType?_ne_none {type : SimpleType} (hmem : type ∈ scalarTypes x)
    (h : StandsFor s x u type) : (s.graph.shape u).scalarType? ≠ none := by
  rcases List.mem_append.1 hmem with hprimitive | htext
  · obtain ⟨p, hp, rfl⟩ := List.mem_map.1 hprimitive
    rw [h.1]
    rcases cases_of_mem_primitives hp with rfl | rfl | rfl | rfl <;> exact nofun
  · unfold textTypes at htext
    split at htext
    · obtain rfl := List.mem_singleton.1 htext
      rw [show s.graph.shape u = .enumeration _ from h]
      exact nofun
    · split at htext
      · obtain rfl := List.mem_singleton.1 htext
        rw [h.1, scalarType?_eq_string.2 (isString_stringKind x)]
        exact nofun
      · cases htext

theorem isAtomic_of_admits {g : Graph} (ht : (g.shape t).scalarType? ≠ none) (h : g.Admits t v) :
    v.IsAtomic := by
  cases h with
  | any hshape v => exact absurd (congrArg Shape.scalarType? hshape) ht
  | array hshape _ => exact absurd (congrArg Shape.scalarType? hshape) ht
  | object hshape _ _ _ => exact absurd (congrArg Shape.scalarType? hshape) ht
  | union hshape _ _ => exact absurd (congrArg Shape.scalarType? hshape) ht
  | intersection hshape _ => exact absurd (congrArg Shape.scalarType? hshape) ht
  | _ => trivial

/-- One of the types for scalars has an allowed scalar. -/
theorem exists_scalarType (h : x.limits.Allow v) (hv : v.IsAtomic) :
    ∃ type ∈ scalarTypes x, ∀ u, StandsFor s x u type → s.graph.Admits u v := by
  have hplain : (∀ text, v ≠ .string text) →
      ∃ type ∈ scalarTypes x, ∀ u, StandsFor s x u type → s.graph.Admits u v := by
    intro htext
    obtain ⟨p, hp, hfits⟩ := h.exists_mem_primitives htext
      (fun items heq => by rw [heq] at hv; exact hv)
      (fun members heq => by rw [heq] at hv; exact hv)
    exact ⟨.primitive p, List.mem_append_left _ (List.mem_map.2 ⟨p, hp, rfl⟩),
      fun u hu => admits_of_fits hfits hu.1⟩
  cases v with
  | string text =>
    cases hcases : x.limits.cases? with
    | some cases =>
      refine ⟨.enumeration cases, List.mem_append_right _ ?_, fun u hu =>
        .enumeration hu (h.mem_cases hcases)⟩
      rw [textTypes, hcases]
      exact List.mem_singleton.2 rfl
    | none =>
      refine ⟨.primitive x.stringKind, List.mem_append_right _ ?_, fun u hu =>
        .string hu.1 (isString_stringKind x) text⟩
      rw [textTypes, hcases]
      dsimp only
      rw [if_pos h.contains_string]
      exact List.mem_singleton.2 rfl
  | array items => exact hv.elim
  | object members => exact hv.elim
  | null => exact hplain nofun
  | bool b => exact hplain nofun
  | number n => exact hplain nofun

theorem IsOwnUnion.admits (h : IsOwnUnion s x u) (hallow : x.limits.Allow v) (hv : v.IsAtomic) :
    s.graph.Admits u v := by
  obtain ⟨scalars, containers, hu, hscalars, -⟩ := h
  obtain ⟨type, htype, hadmits⟩ := exists_scalarType (s := s) hallow hv
  obtain ⟨m, hm, hstands⟩ := exists_right_of_forall₂ hscalars htype
  exact .union hu (SortedSet.mem_ofList.2 (List.mem_append_left _ hm)) (hadmits m hstands)

theorem limits_of_hasLiterals (hx : IsSubject annotators x) (h : HasLiterals x.schema) :
    x.limits.values.isSome = true ∨ x.limits.only.isSome = true := by
  rcases h with ⟨values, hvalues⟩ | ⟨literal, hliteral⟩
  · exact .inl (by rw [values_of_array hx hvalues]; rfl)
  · exact .inr (by rw [hx.only, Subject.get?, hliteral]; rfl)

theorem admitsContainer_of_hasLiterals (hx : IsSubject annotators x) (h : HasLiterals x.schema)
    (T : JsonType) : x.limits.admitsContainer T = false := by
  unfold Limits.admitsContainer
  rcases limits_of_hasLiterals hx h with hvalues | honly
  · obtain ⟨values, hvalues⟩ := Option.isSome_iff_exists.1 hvalues
    rw [hvalues]
    rfl
  · obtain ⟨literal, honly⟩ := Option.isSome_iff_exists.1 honly
    rw [honly, Option.isNone_some, Bool.and_false]
    rfl

theorem needsUnion_of_hasLiterals (hx : IsSubject annotators x) (h : HasLiterals x.schema) :
    x.needsUnion = true := by
  unfold Subject.needsUnion
  simp only [Bool.or_eq_true]
  rcases limits_of_hasLiterals hx h with hvalues | honly
  · exact .inl (.inl (.inr hvalues))
  · exact .inl (.inr honly)

/-- With literals, there are no types of containers. -/
theorem IsOwnUnion.isAtomic (h : IsOwnUnion s x u) (hx : IsSubject annotators x)
    (hliterals : HasLiterals x.schema) (hv : s.graph.Admits u v) : v.IsAtomic := by
  obtain ⟨scalars, containers, hu, hscalars, hcontainers⟩ := h
  obtain ⟨m, hm, hadmits⟩ := hv.exists_mem hu
  rcases List.mem_append.1 (SortedSet.mem_ofList.1 hm) with hmem | hmem
  · obtain ⟨type, htype, hstands⟩ := exists_left_of_forall₂ hscalars hmem
    exact isAtomic_of_admits (scalarType?_ne_none htype hstands) hadmits
  · obtain ⟨⟨T, hT⟩, -⟩ := hcontainers m hmem
    cases (admitsContainer_of_hasLiterals hx hliterals T).symm.trans hT

/-! ### Members and places -/

theorem MadeFor.admits (h : MadeFor s x target u) (hx : IsSubject annotators x)
    {leads : Reference → Option Reference} (htarget : leads x.place.canonical = target)
    (hpermits : Permits leads (fun r => ∀ t, s.types.lookup r = some t → s.graph.Admits t v)
      x.place.canonical x.schema v) (hv : v.IsAtomic) : s.graph.Admits u v := by
  cases h with
  | own hu => exact hu.admits (limits_of_allowsValue hx hpermits.toAllowsValue) hv
  | target htext hr hu =>
    obtain ⟨r, hleads, hpart⟩ := hpermits.target _ htext
    obtain rfl := Option.some.inj (hr.symm.trans (htarget.symm.trans hleads))
    exact hpart u hu
  | case hcases hi hu =>
    have hlength := (List.getElem?_eq_some_iff.1 hi).1
    exact hpermits.allOf _ hcases _ hlength u hu
  | choice hkeyword hcases htypes hu =>
    obtain ⟨i, hi, hpart⟩ := hpermits.choice _ _ hkeyword hcases
    obtain ⟨c, hc, hlookup⟩ := htypes.exists_type (List.getElem?_eq_getElem hi)
    exact .union hu (SortedSet.mem_ofList.2 hc) (hpart c hlookup)
  | anything hu => exact .any hu v

theorem Permits.mono {leads : Reference → Option Reference} {parts parts' : Reference → Prop}
    {schema : List (String × Json)} (h : Permits leads parts r schema v)
    (hparts : ∀ r, parts r → parts' r) : Permits leads parts' r schema v where
  toAllowsValue := h.toAllowsValue
  target text htext := (h.target text htext).imp fun _ hr => ⟨hr.1, hparts _ hr.2⟩
  allOf cases hcases i hi := hparts _ (h.allOf cases hcases i hi)
  choice keyword cases hkeyword hcases :=
    (h.choice keyword cases hkeyword hcases).imp fun _ hi => ⟨hi.1, hparts _ hi.2⟩

/-- Types that were there before are kept, and new ones are recorded. -/
theorem admits_of_conforms {before : List (Reference × NodeId)}
    {leads : Reference → Option Reference}
    (hkept : ∀ r t, before.lookup r = some t → s.types.lookup r = some t)
    (hrecorded : ∀ r t, before.lookup r = none → s.types.lookup r = some t →
      RecordedWith lib annotators s r t (leads r)) (hv : v.IsAtomic)
    (h : Conforms lib leads before s.graph v r) :
    ∀ t, s.types.lookup r = some t → s.graph.Admits t v := by
  induction h with
  | before ht hadmits =>
    intro t ht'
    obtain rfl := Option.some.inj ((hkept _ _ ht).symm.trans ht')
    exact hadmits
  | anything hnew hvalue =>
    intro t ht
    cases hrecorded _ _ hnew ht with
    | anything _ hshape => exact .any hshape v
    | schema _ _ hvalue' _ _ => cases hvalue.symm.trans hvalue'
  | object hnew hschema _ hpermits ih =>
    intro t ht
    cases hrecorded _ _ hnew ht with
    | anything hvalue _ => cases hschema.symm.trans hvalue
    | schema hsubject hplace hvalue hshape hmembers =>
      obtain ⟨hx, -, -⟩ := isSubject_of_subject hsubject
      obtain rfl := Json.object.inj (Option.some.inj (hschema.symm.trans hvalue))
      subst hplace
      exact .intersection hshape fun u hu =>
        (hmembers.made u (SortedSet.mem_ofList.1 hu)).admits hx rfl (hpermits.mono ih) hv

theorem RecordedWith.isAtomic (h : RecordedWith lib annotators s r t target)
    {schema : List (String × Json)} (hschema : lib.value? r = some (.object schema))
    (hliterals : HasLiterals schema) (hv : s.graph.Admits t v) : v.IsAtomic := by
  cases h with
  | anything hvalue _ => cases hschema.symm.trans hvalue
  | schema hsubject hplace hvalue hshape hmembers =>
    obtain ⟨hx, -, -⟩ := isSubject_of_subject hsubject
    obtain rfl := Json.object.inj (Option.some.inj (hschema.symm.trans hvalue))
    obtain ⟨u, hu, hown⟩ := hmembers.own (needsUnion_of_hasLiterals hx hliterals)
    exact hown.isAtomic hx hliterals (hv.forall_mem hshape u (SortedSet.mem_ofList.2 hu))

end Conversion

open Conversion

namespace Batch

/-- There is a reading of the references in the converted schemas, each as resolved while the batch
was converted, under which the types have every scalar that the schemas permit. A schema with an
`enum` or a `const` has no other values than scalars. -/
theorem literals_admitted {b b' : Batch} {graph graph' : Graph} {report : Report}
    (hlib : b.library.Holds) (hrun : b.convert graph = (b', graph', .ok report)) :
    ∃ leads : Reference → Option Reference,
      ∀ r t schema, b.types.lookup r = none → b'.types.lookup r = some t →
        b.library.value? r = some (.object schema) →
          (∀ text, schema.lookup "$ref" = some (.string text) → ∃ place r',
            place.canonical = r ∧ leads r = some r' ∧
              b.library.Led b'.library place text r') ∧
          (∀ v : Json, v.IsAtomic → Conforms b.library leads b.types graph' v r →
            graph'.Admits t v) ∧
          (HasLiterals schema → ∀ v : Json, ¬ v.IsAtomic → ¬ graph'.Admits t v) := by
  have hexists : ∀ r, ∃ target, ∀ t, b.types.lookup r = none → b'.types.lookup r = some t →
      RecordedWith b.library b.annotators (b'.conversion graph') r t target := by
    intro r
    by_cases hnew : ∃ t, b.types.lookup r = none ∧ b'.types.lookup r = some t
    · obtain ⟨t, hnone, ht⟩ := hnew
      obtain ⟨target, hrecorded⟩ := recorded_convert hlib hrun hnone ht
      refine ⟨target, fun t' _ ht' => ?_⟩
      obtain rfl := Option.some.inj (ht.symm.trans ht')
      exact hrecorded
    · exact ⟨none, fun t hnone ht => absurd ⟨t, hnone, ht⟩ hnew⟩
  choose leads hleads using hexists
  have hkept := (progress_convert hlib hrun).retains.lookup
  refine ⟨leads, fun r t schema hnew ht hschema => ?_⟩
  have hrecorded := hleads r t hnew ht
  refine ⟨fun text htext => ?_, fun v hv hconforms => ?_, fun hliterals v hv hadmits => ?_⟩
  · cases hrecorded with
    | anything hvalue _ => cases hschema.symm.trans hvalue
    | schema _ hplace hvalue _ hmembers =>
      obtain rfl := Json.object.inj (Option.some.inj (hschema.symm.trans hvalue))
      obtain ⟨r', hr', hled⟩ := hmembers.led text htext
      exact ⟨_, r', hplace, hr', hled⟩
  · exact admits_of_conforms hkept hleads hv hconforms t ht
  · exact hv (hrecorded.isAtomic hschema hliterals hadmits)

/-- A number, a text and an array are listed, and a case allows whole numbers only. -/
def listedSchema : List (String × Json) :=
  [("enum", .array [.number (.integer 1), .string "a", .array [.null]]),
    ("allOf", .array [.object [("type", .string "integer")]])]

def listedCase : Reference := ((Reference.parse "a.json").push "allOf").push (toString 0)

theorem value?_listedCase : (ofSchema listedSchema).library.value? listedCase =
    some (.object [("type", .string "integer")]) := by
  have haddress : listedCase.address = some "a.json" := by decide +kernel
  have hpath : listedCase.path = [.root, .key "allOf", .key "0"] := by decide +kernel
  have hdocument : (ofSchema listedSchema).library.fetched "a.json" =
      .ok (some (.object listedSchema)) := rfl
  rw [Library.value?_eq haddress hdocument, hpath]
  rfl

theorem literals_admitted_listed :
    ∃ b' graph' report, (ofSchema listedSchema).convert .empty = (b', graph', .ok report) ∧
      b'.types.lookup (.parse "a.json") = some 0 ∧
      graph'.Admits 0 (.number (.integer 1)) ∧ ¬ graph'.Admits 0 (.array [.null]) := by
  have htypes : ((ofSchema listedSchema).convert .empty).1.types.lookup (.parse "a.json") =
      some 0 := by decide +kernel
  obtain ⟨report, hrun⟩ := exists_report (ofSchema listedSchema) .empty (by decide +kernel)
  obtain ⟨leads, hleads⟩ := literals_admitted (Library.holds_of_empty rfl) hrun
  obtain ⟨-, hscalars, hcontainers⟩ := hleads _ 0 listedSchema rfl htypes (value?_ofSchema _)
  have hwhole : Permits leads (fun _ => False) listedCase [("type", .string "integer")]
      (.number (.integer 1)) := by
    refine ⟨⟨?_, nofun, nofun⟩, nofun, nofun, ?_⟩
    · rintro w ⟨⟩
      exact ⟨"integer", List.mem_singleton.2 rfl, .integer, by decide, rfl⟩
    · rintro keyword cases (rfl | rfl) ⟨⟩
  have hlisted : Permits leads (· = listedCase) (.parse "a.json") listedSchema
      (.number (.integer 1)) := by
    refine ⟨⟨nofun, ?_, nofun⟩, nofun, ?_, ?_⟩
    · rintro values ⟨⟩
      exact ⟨_, List.mem_cons_self, .number rfl⟩
    · rintro cases ⟨⟩ i hi
      obtain rfl : i = 0 := Nat.lt_one_iff.1 hi
      rfl
    · rintro keyword cases (rfl | rfl) ⟨⟩
  have hconforms : Conforms (ofSchema listedSchema).library leads []
      ((ofSchema listedSchema).convert .empty).2.1 (.number (.integer 1)) (.parse "a.json") := by
    refine .object rfl (value?_ofSchema _) ?_ hlisted
    rintro r' rfl
    exact .object rfl value?_listedCase nofun hwhole
  exact ⟨_, _, report, hrun, htypes, hscalars _ trivial hconforms,
    hcontainers (.inl ⟨_, rfl⟩) _ id⟩

/-- A listed array and an object under `const` satisfy all keywords, but are no values. -/
theorem literals_container :
    let listed : List (String × Json) := [("enum", .array [.array [.number (.integer 1)]])]
    let only : List (String × Json) := [("type", .string "object"), ("const", .object [])]
    let result (schema : List (String × Json)) := (ofSchema schema).convert .empty
    (((result listed).2.2.map Report.converted = .ok [("a", 0)] ∧
        (result listed).1.types.lookup (.parse "a.json") = some 0) ∧
      ¬ (result listed).2.1.Admits 0 (.array [.number (.integer 1)])) ∧
    ((result only).2.2.map Report.converted = .ok [("a", 0)] ∧
        (result only).1.types.lookup (.parse "a.json") = some 0) ∧
      ¬ (result only).2.1.Admits 0 (.object []) := by
  intro listed only result
  have hnothing : ∀ {g : Graph} {v : Json}, g.shape 0 = .intersection (some (.singleton 1)) →
      g.shape 1 = .union (some (.ofList [])) → ¬ g.Admits 0 v := by
    intro g v hwhole hunion h
    obtain ⟨u, hu, -⟩ := (h.forall_mem hwhole 1 (SortedSet.mem_singleton.2 rfl)).exists_mem hunion
    cases SortedSet.mem_ofList.1 hu
  refine ⟨⟨by decide +kernel, hnothing ?_ ?_⟩, by decide +kernel, hnothing ?_ ?_⟩ <;>
    decide +kernel

end Batch

end JsonTyping
