import JsonTyping.Proofs.BatchRecords

/-!
# Arms of unions

What a schema admits itself is a union in its type. Its arms for scalars stand for types that
`type`, `enum` and `const` leave room for (`Batch.arms_leaveRoom`), unless the schema has a literal
that is looked at in place of another keyword: `enum` in place of `const`, and a string under
`const` in place of both others (`Conversion.Overrules`).
-/

namespace JsonTyping

/-- The second node is a member of a union that the first one, an intersection, has. -/
def Graph.HasArm (g : Graph) (t m : NodeId) : Prop :=
  ∃ members u arms, g.shape t = .intersection (some members) ∧ u ∈ members ∧
    g.shape u = .union (some arms) ∧ m ∈ arms

/-- The type of the scalars that the shape is for. -/
def Shape.scalarType? : Shape → Option JsonType
  | .primitive .null => some .null
  | .primitive .bool => some .boolean
  | .primitive .integer => some .integer
  | .primitive .double => some .number
  | .primitive p => if p.isString then some .string else none
  | .enumeration _ => some .string
  | _ => none

theorem scalarType?_eq_string {p : Primitive} :
    (Shape.primitive p).scalarType? = some .string ↔ p.isString = true := by
  cases p <;> decide

namespace Conversion

variable {lib : Library} {annotators : List Annotator} {s : Conversion} {x : Subject}
  {r : Reference} {t m : NodeId} {target : Option Reference}

/-- The types of places are intersections, or have all values. -/
def PlacesTyped (s : Conversion) : Prop :=
  ∀ r t, s.types.lookup r = some t →
    s.graph.shape t = .primitive .any ∨ ∃ members, s.graph.shape t = .intersection (some members)

theorem Recorded.shape_cases (h : Recorded lib annotators s r t) :
    s.graph.shape t = .primitive .any ∨
      ∃ members, s.graph.shape t = .intersection (some members) := by
  obtain ⟨target, h⟩ := h
  cases h with
  | anything _ ht => exact .inl ht
  | schema _ _ _ ht _ => exact .inr ⟨_, ht⟩

theorem PlacesTyped.ne_union (hs : PlacesTyped s) (ht : s.types.lookup r = some t)
    (members : Option (SortedSet NodeId)) : s.graph.shape t ≠ .union members := by
  intro hunion
  rcases hs r t ht with hany | ⟨members', hintersection⟩
  · cases hany.symm.trans hunion
  · cases hintersection.symm.trans hunion

theorem PlacesTyped.scalarType?_eq_none (hs : PlacesTyped s) (ht : s.types.lookup r = some t) :
    (s.graph.shape t).scalarType? = none := by
  rcases hs r t ht with hany | ⟨members, hintersection⟩
  · rw [hany]
    rfl
  · rw [hintersection]
    rfl

/-- The types of places in a graph that keeps what was known. -/
theorem PlacesTyped.keeps (hs : PlacesTyped s) {g : Graph}
    (hg : s.graph.Keeps g) (ht : s.types.lookup r = some t) :
    g.shape t = .primitive .any ∨ ∃ members, g.shape t = .intersection (some members) := by
  rcases hs r t ht with hany | ⟨members, hintersection⟩
  · exact .inl (hg.shape_eq hany (isKnown_primitive nofun))
  · exact .inr ⟨members, hg.shape_eq hintersection (isKnown_intersection _)⟩

/-- The arms for scalars are those of what the schema admits itself. Types of places are no unions,
and they stand for no scalars. -/
theorem MembersFor.standsFor_of_hasArm (hs : PlacesTyped s) {members : List NodeId}
    (ht : s.graph.shape t = .intersection (some (.ofList members)))
    (hmembers : MembersFor lib s x members target) (hm : s.graph.HasArm t m)
    (hscalar : (s.graph.shape m).scalarType? ≠ none) :
    ∃ type ∈ scalarTypes x, StandsFor s x m type := by
  obtain ⟨members', u, arms, ht', hu, hunion, harm⟩ := hm
  obtain rfl := Option.some.inj (Shape.intersection.inj (ht.symm.trans ht'))
  have hmade := hmembers.made u (SortedSet.mem_ofList.1 hu)
  cases hmade with
  | own hown =>
    obtain ⟨scalars, containers, hshape, hscalars, hcontainers⟩ := hown
    obtain rfl := Option.some.inj (Shape.union.inj (hshape.symm.trans hunion))
    rcases List.mem_append.1 (SortedSet.mem_ofList.1 harm) with hmem | hmem
    · exact exists_left_of_forall₂ hscalars hmem
    · rcases (hcontainers m hmem).2 with ⟨items, harray⟩ | ⟨properties, additional, hobject⟩
      · rw [harray] at hscalar
        exact absurd rfl hscalar
      · rw [hobject] at hscalar
        exact absurd rfl hscalar
  | target _ _ hlookup => exact absurd hunion (hs.ne_union hlookup _)
  | case _ _ hlookup => exact absurd hunion (hs.ne_union hlookup _)
  | choice _ _ htypes hshape =>
    obtain rfl := Option.some.inj (Shape.union.inj (hshape.symm.trans hunion))
    obtain ⟨i, v, -, hlookup⟩ := htypes.exists_case (SortedSet.mem_ofList.1 harm)
    exact absurd (hs.scalarType?_eq_none hlookup) hscalar
  | anything hany => cases hany.symm.trans hunion

namespace Limits

variable {limits : Limits} {T : JsonType}

/-- The keywords leave room for values of the type; `const` is looked at only without `enum`. -/
structure Inhabits (limits : Limits) (T : JsonType) : Prop where
  types : ∀ types, limits.types = some types → T ∈ types
  values : ∀ values, limits.values = some values → ∃ literal ∈ values, T.admits literal = true
  only : limits.values = none → ∀ literal, limits.only = some literal → T.admits literal = true

theorem inhabits_of_mem_included (h : T ∈ limits.included) : limits.Inhabits T := by
  have hincludes := mem_included.1 h
  obtain ⟨types, values, only⟩ := limits
  unfold includes at hincludes
  obtain ⟨hlisted, hliterals⟩ := Bool.and_eq_true_iff.1 hincludes
  refine ⟨?_, ?_, ?_⟩
  · rintro types rfl
    exact SortedSet.contains_iff.1 hlisted
  · rintro values rfl
    exact List.any_eq_true.1 hliterals
  · rintro rfl literal rfl
    dsimp only at hliterals
    split at hliterals
    · exact hliterals
    · obtain rfl := of_decide_eq_true hliterals
      exact admits_ofValue literal

/-- A primitive type of scalars but strings comes from an included type. -/
theorem mem_included_of_mem_primitives {p : Primitive} (hp : p ∈ limits.primitives)
    (hT : (Shape.primitive p).scalarType? = some T) : T ∈ limits.included := by
  unfold primitives at hp
  simp only [List.mem_append, List.mem_ite_nil_right, List.mem_singleton] at hp
  rcases hp with ((⟨hmem, rfl⟩ | ⟨hmem, rfl⟩) | ⟨hmem, rfl⟩) | ⟨hmem, rfl⟩ <;>
    obtain rfl := Option.some.inj hT
  · exact SortedSet.contains_iff.1 hmem
  · exact SortedSet.contains_iff.1 hmem
  · exact SortedSet.contains_iff.1 (Bool.and_eq_true_iff.1 hmem).1
  · exact SortedSet.contains_iff.1 hmem

/-- Cases come from a string under `const`, or else from the strings under `enum`. -/
theorem cases?_cases {cases : SortedSet String} (h : limits.cases? = some cases) :
    (∃ text, limits.only = some (.string text) ∧ cases = .singleton text) ∨
      limits.only = none ∧ ∃ values, limits.values = some values ∧
        JsonType.string ∈ limits.included ∧ cases = .ofList (values.filterMap Json.string?) := by
  unfold cases? at h
  split at h
  · next text honly => exact .inl ⟨text, honly, (Option.some.inj h).symm⟩
  · cases h
  · next values honly hvalues =>
    obtain ⟨hmem, hcases⟩ := Option.ite_none_right_eq_some.1 h
    exact .inr ⟨honly, values, hvalues, SortedSet.contains_iff.1 hmem,
      (Option.some.inj hcases).symm⟩
  · cases h

end Limits

/-- What an arm for scalars stands for: a type that is included, or the cases of strings. -/
theorem StandsFor.included_or_cases {type : SimpleType} (hmem : type ∈ scalarTypes x)
    (h : StandsFor s x m type) {T : JsonType} (hT : (s.graph.shape m).scalarType? = some T) :
    (T ∈ x.limits.included ∧ ∃ p, s.graph.shape m = .primitive p ∧
        (T = .string → x.limits.cases? = none)) ∨
      T = .string ∧ ∃ cases, x.limits.cases? = some cases ∧
        s.graph.shape m = .enumeration cases := by
  rcases List.mem_append.1 hmem with hprimitive | htext
  · obtain ⟨p, hp, rfl⟩ := List.mem_map.1 hprimitive
    rw [h.1] at hT
    refine .inl ⟨Limits.mem_included_of_mem_primitives hp hT, p, h.1, ?_⟩
    rintro rfl
    cases (kind_of_mem_primitives hp).2.symm.trans (scalarType?_eq_string.1 hT)
  · unfold textTypes at htext
    split at htext
    · next cases hcases =>
      obtain rfl := List.mem_singleton.1 htext
      have hshape : s.graph.shape m = .enumeration cases := h
      rw [hshape] at hT
      exact .inr ⟨(Option.some.inj hT).symm, cases, hcases, hshape⟩
    · next hcases =>
      split at htext
      · next hcontains =>
        obtain rfl := List.mem_singleton.1 htext
        rw [h.1, scalarType?_eq_string.2 (isString_stringKind x)] at hT
        obtain rfl := Option.some.inj hT
        exact .inl ⟨SortedSet.contains_iff.1 hcontains, _, h.1, fun _ => hcases⟩
      · cases htext

/-! ### What the keywords leave room for -/

/-- The keyword `type` lists the type, if it is there. -/
def Lists (schema : List (String × Json)) (T : JsonType) : Prop :=
  ∀ w, schema.lookup "type" = some w → ∃ name ∈ typeNames w, JsonType.ofName? name = some T

/-- Some literal of `enum` is of the type, if the keyword is there. -/
def HasLiteral (schema : List (String × Json)) (T : JsonType) : Prop :=
  ∀ values, schema.lookup "enum" = some (.array values) →
    ∃ literal ∈ values, T.admits literal = true

/-- The keywords `type`, `enum` and `const`, as far as they are there, leave room for values of the
type. -/
structure LeavesRoom (schema : List (String × Json)) (T : JsonType) : Prop where
  type : Lists schema T
  enum : HasLiteral schema T
  const : ∀ literal, schema.lookup "const" = some literal → T.admits literal = true

/-- The keywords `type`, `enum` and `const`, as far as they are there, allow the text. -/
structure AllowsText (schema : List (String × Json)) (text : String) : Prop where
  type : Lists schema .string
  enum : ∀ values, schema.lookup "enum" = some (.array values) → .string text ∈ values
  const : ∀ literal, schema.lookup "const" = some literal → literal = .string text

/-- A literal is looked at in place of another keyword: the schema has both `enum` and `const`, or a
string under `const` that its `type` does not allow. -/
def Overrules (schema : List (String × Json)) : Prop :=
  (∃ values literal, schema.lookup "enum" = some (.array values) ∧
    schema.lookup "const" = some literal) ∨
  (∃ text, schema.lookup "const" = some (.string text)) ∧ ¬ Lists schema .string

/-- A type of the list is read from one of the names. -/
theorem exists_name_of_listed {f : String → Except SchemaError JsonType} {names : List String}
    {types : SortedSet JsonType}
    (h : (do let types ← names.mapM f; pure (SortedSet.ofList types)) = Except.ok types)
    {T : JsonType} (hT : T ∈ types) : ∃ name ∈ names, f name = .ok T := by
  obtain ⟨ts, hts, h⟩ := bind_eq_ok.1 h
  obtain rfl := Except.ok.inj h
  exact exists_left_of_forall₂ (forall₂_of_mapM_eq_ok hts) (SortedSet.mem_ofList.1 hT)

theorem exists_name_of_mem_typeList {place : Reference} {w : Json} {types : SortedSet JsonType}
    (h : typeList place w = .ok types) {T : JsonType} (hT : T ∈ types) :
    ∃ name ∈ typeNames w, JsonType.ofName? name = some T := by
  unfold typeList at h
  cases w with
  | string text =>
    obtain ⟨name, hname, hread⟩ := exists_name_of_listed h hT
    refine ⟨name, hname, ?_⟩
    split at hread
    · next hlisted => exact hlisted.trans (congrArg some (Except.ok.inj hread))
    · cases hread
  | array items =>
    dsimp only at h
    split at h
    · next names hnames =>
      obtain ⟨name, hname, hread⟩ := exists_name_of_listed h hT
      obtain ⟨item, hitem, hstring⟩ :=
        exists_left_of_forall₂ (forall₂_of_mapM_eq_some hnames) hname
      refine ⟨name, List.mem_filterMap.2 ⟨item, hitem, hstring⟩, ?_⟩
      split at hread
      · next hlisted => exact hlisted.trans (congrArg some (Except.ok.inj hread))
      · cases hread
    · cases h
  | _ => cases h

theorem lists_of_subject (h : subject annotators x.schema x.place = .ok x) {T : JsonType}
    (hT : ∀ types, x.limits.types = some types → T ∈ types) : Lists x.schema T := by
  intro w hw
  unfold subject at h
  rw [hw] at h
  obtain ⟨types, hlist, h⟩ := bind_eq_ok.1 h
  cases hread : typeList x.place.canonical w with
  | error e =>
    rw [hread] at hlist
    cases hlist
  | ok set =>
    rw [hread] at hlist
    obtain rfl := Except.ok.inj hlist
    have hlimits := congrArg (fun y => y.limits.types) (Except.ok.inj h)
    exact exists_name_of_mem_typeList hread (hT set hlimits.symm)

theorem values_of_array (h : IsSubject annotators x) {values : List Json}
    (hvalues : x.schema.lookup "enum" = some (.array values)) : x.limits.values = some values := by
  rw [h.values, Subject.get?, hvalues]
  rfl

theorem array_of_values (h : IsSubject annotators x) {values : List Json}
    (hvalues : x.limits.values = some values) :
    x.schema.lookup "enum" = some (.array values) := by
  rw [h.values] at hvalues
  obtain ⟨w, hw, hitems⟩ := Option.bind_eq_some_iff.1 hvalues
  cases w with
  | array items =>
    obtain rfl := Option.some.inj hitems
    exact hw
  | _ => cases hitems

/-- Where no literal overrules a keyword, an included type is one that all keywords leave room
for. -/
theorem leavesRoom_of_included (h : subject annotators x.schema x.place = .ok x)
    (hoverrules : ¬ Overrules x.schema) {T : JsonType} (hT : T ∈ x.limits.included) :
    LeavesRoom x.schema T := by
  obtain ⟨hsubject, -, -⟩ := isSubject_of_subject h
  have hinhabits := Limits.inhabits_of_mem_included hT
  refine ⟨lists_of_subject h hinhabits.types,
    fun values hvalues => hinhabits.values values (values_of_array hsubject hvalues),
    fun literal hliteral => hinhabits.only ?_ literal (hsubject.only.trans hliteral)⟩
  cases hvalues : x.limits.values with
  | none => rfl
  | some values =>
    exact absurd (.inl ⟨values, literal, array_of_values hsubject hvalues, hliteral⟩) hoverrules

/-- Where no literal overrules a keyword, the cases of strings are allowed by all keywords. -/
theorem allowsText_of_cases (h : subject annotators x.schema x.place = .ok x)
    (hoverrules : ¬ Overrules x.schema) {cases : SortedSet String}
    (hcases : x.limits.cases? = some cases) {text : String} (htext : text ∈ cases) :
    AllowsText x.schema text := by
  obtain ⟨hsubject, -, -⟩ := isSubject_of_subject h
  rcases Limits.cases?_cases hcases with ⟨only, honly, rfl⟩ | ⟨honly, values, hvalues, hmem, rfl⟩
  · obtain rfl := SortedSet.mem_singleton.1 htext
    have hconst : x.schema.lookup "const" = some (.string text) := hsubject.only.symm.trans honly
    refine ⟨?_, fun values hvalues => ?_, fun literal hliteral => ?_⟩
    · exact Classical.not_not.1 fun hlists => hoverrules (.inr ⟨⟨text, hconst⟩, hlists⟩)
    · exact absurd (.inl ⟨values, _, hvalues, hconst⟩) hoverrules
    · exact Option.some.inj (hliteral.symm.trans hconst)
  · obtain ⟨literal, hliteral, hstring⟩ :=
      List.mem_filterMap.1 (SortedSet.mem_ofList.1 htext)
    have hinhabits := Limits.inhabits_of_mem_included hmem
    refine ⟨lists_of_subject h hinhabits.types, fun values' hvalues' => ?_,
      fun literal' hliteral' => ?_⟩
    · obtain rfl := Option.some.inj ((values_of_array hsubject hvalues').symm.trans hvalues)
      cases literal with
      | string other =>
        obtain rfl := Option.some.inj hstring
        exact hliteral
      | _ => cases hstring
    · cases honly.symm.trans (hsubject.only.trans hliteral')

theorem leavesRoom_of_cases (h : subject annotators x.schema x.place = .ok x)
    (hoverrules : ¬ Overrules x.schema) {cases : SortedSet String}
    (hcases : x.limits.cases? = some cases) : LeavesRoom x.schema .string := by
  rcases Limits.cases?_cases hcases with ⟨text, -, hsingle⟩ | ⟨-, -, -, hmem, -⟩
  · have hmem : text ∈ cases := by
      rw [hsingle]
      exact SortedSet.mem_singleton.2 rfl
    have htext := allowsText_of_cases h hoverrules hcases hmem
    refine ⟨htext.type, fun values hvalues => ⟨_, htext.enum values hvalues, rfl⟩,
      fun literal hliteral => ?_⟩
    rw [htext.const literal hliteral]
    rfl
  · exact leavesRoom_of_included h hoverrules hmem

theorem cases?_of_const (h : IsSubject annotators x) {text : String}
    (hconst : x.schema.lookup "const" = some (.string text)) :
    x.limits.cases? = some (.singleton text) := by
  have honly : x.limits.only = some (.string text) := h.only.trans hconst
  simp only [Limits.cases?, honly]

end Conversion

open Conversion

namespace Batch

theorem Usable.placesTyped {b : Batch} {graph : Graph} (h : Usable b graph) :
    PlacesTyped (b.conversion graph) := by
  induction h with
  | new store graph => exact nofun
  | annotated _ _ ih => exact ih
  | @added b _ _ s ih =>
    intro r t ht
    rw [show ((b.addSource s).1.conversion _).types = b.types from types_addSource b s] at ht
    exact ih r t ht
  | @converted b b' graph graph' report h hrun ih =>
    intro r t ht
    have hprogress := progress_convert h.holds hrun
    rcases hprogress.records r t ht with hold | hrecorded
    · exact ih.keeps hprogress.retains.gains.keeps hold
    · exact hrecorded.shape_cases
  | grown _ hgraph ih => exact fun r t ht => ih.keeps hgraph.keeps ht

/-- An arm for scalars in the type of a place stands for a type of scalars of the schema there. -/
theorem exists_standsFor {b b' : Batch} {graph graph' : Graph} {report : Report}
    (hb : Usable b graph) (hrun : b.convert graph = (b', graph', .ok report)) {r : Reference}
    {t : NodeId} (hnew : b.types.lookup r = none) (ht : b'.types.lookup r = some t)
    {schema : List (String × Json)} (hschema : b.library.value? r = some (.object schema))
    {m : NodeId} (hm : graph'.HasArm t m) {T : JsonType}
    (hT : (graph'.shape m).scalarType? = some T) :
    ∃ x type, subject b.annotators x.schema x.place = .ok x ∧ x.schema = schema ∧
      type ∈ scalarTypes x ∧ StandsFor (b'.conversion graph') x m type := by
  obtain ⟨x, target, members, hsubject, -, hsame, hshape, hmembers⟩ :=
    (recorded_convert hb.holds hrun hnew ht).exists_members hschema
  have hscalar : ((b'.conversion graph').graph.shape m).scalarType? ≠ none := by
    rw [show (b'.conversion graph').graph = graph' from rfl, hT]
    exact nofun
  obtain ⟨type, htype, hstands⟩ :=
    hmembers.standsFor_of_hasArm (hb.converted hrun).placesTyped hshape hm hscalar
  exact ⟨x, type, hsubject, hsame, htype, hstands⟩

/-- The arms for scalars stand for types that all three keywords leave room for, and the cases of
strings are allowed by all three, unless a literal overrules a keyword. Then `type` and `enum` still
hold of all arms but those for strings, and a string under `const` is the only one. -/
theorem arms_leaveRoom {b b' : Batch} {graph graph' : Graph} {report : Report}
    (hb : Usable b graph) (hrun : b.convert graph = (b', graph', .ok report)) {r : Reference}
    {t : NodeId} (hnew : b.types.lookup r = none) (ht : b'.types.lookup r = some t)
    {schema : List (String × Json)} (hschema : b.library.value? r = some (.object schema))
    {m : NodeId} {T : JsonType} (hm : graph'.HasArm t m)
    (hT : (graph'.shape m).scalarType? = some T) :
    (¬ Overrules schema → LeavesRoom schema T ∧
      ∀ cases, graph'.shape m = .enumeration cases → ∀ text ∈ cases, AllowsText schema text) ∧
    (T ≠ .string → Lists schema T ∧ HasLiteral schema T) ∧
    ∀ text, schema.lookup "const" = some (.string text) → T = .string →
      graph'.shape m = .enumeration (.singleton text) := by
  obtain ⟨x, type, hsubject, rfl, htype, hstands⟩ :=
    exists_standsFor hb hrun hnew ht hschema hm hT
  obtain ⟨hx, -, -⟩ := isSubject_of_subject hsubject
  rcases hstands.included_or_cases htype hT with
    ⟨hincluded, p, hp, hcases⟩ | ⟨rfl, cases, hcases, henumeration⟩
  · have hinhabits := Limits.inhabits_of_mem_included hincluded
    refine ⟨fun hoverrules => ⟨leavesRoom_of_included hsubject hoverrules hincluded, ?_⟩,
      fun _ => ⟨lists_of_subject hsubject hinhabits.types,
        fun values hvalues => hinhabits.values values (values_of_array hx hvalues)⟩, ?_⟩
    · intro cases henumeration
      cases hp.symm.trans henumeration
    · intro text hconst hstring
      cases (hcases hstring).symm.trans (cases?_of_const hx hconst)
  · refine ⟨fun hoverrules => ⟨leavesRoom_of_cases hsubject hoverrules hcases, ?_⟩,
      fun hstring => absurd rfl hstring, fun text hconst _ => ?_⟩
    · intro cases' hsame text htext
      obtain rfl := Shape.enumeration.inj (henumeration.symm.trans hsame)
      exact allowsText_of_cases hsubject hoverrules hcases htext
    · obtain rfl := Option.some.inj (hcases.symm.trans (cases?_of_const hx hconst))
      exact henumeration

def nullableCase : List (String × Json) :=
  [("type", .array [.string "string", .string "null"]), ("enum", .array [.string "a", .null])]

theorem arms_leaveRoom_nullable :
    ∃ b' graph' report, (ofSchema nullableCase).convert .empty = (b', graph', .ok report) ∧
      b'.types.lookup (.parse "a.json") = some 0 ∧ graph'.HasArm 0 2 ∧
      graph'.shape 2 = .enumeration (.singleton "a") ∧
      LeavesRoom nullableCase .string ∧ AllowsText nullableCase "a" := by
  have htypes : ((ofSchema nullableCase).convert .empty).1.types.lookup (.parse "a.json") =
      some 0 := by decide +kernel
  have hshapes : [0, 3, 2].map ((ofSchema nullableCase).convert .empty).2.1.shape =
      [.intersection (some (.singleton 3)), .union (some (.ofList [1, 2])),
        .enumeration (.singleton "a")] := by decide +kernel
  have hoverrules : ¬ Overrules nullableCase := by
    rintro (⟨-, literal, -, hconst⟩ | ⟨⟨text, hconst⟩, -⟩) <;> cases hconst
  obtain ⟨report, hrun⟩ := exists_report (ofSchema nullableCase) .empty (by decide +kernel)
  simp only [List.map_cons, List.map_nil, List.cons.injEq] at hshapes
  obtain ⟨hwhole, hunion, hcases, -⟩ := hshapes
  have harm : ((ofSchema nullableCase).convert .empty).2.1.HasArm 0 2 :=
    ⟨_, 3, _, hwhole, SortedSet.mem_singleton.2 rfl, hunion, SortedSet.mem_ofList.2 (by decide)⟩
  obtain ⟨hroom, -⟩ := arms_leaveRoom (usable_ofSchema _ _) hrun rfl htypes
    (value?_ofSchema _) harm (T := .string) (by rw [hcases]; rfl)
  obtain ⟨hstring, htexts⟩ := hroom hoverrules
  exact ⟨_, _, report, hrun, htypes, harm, hcases, hstring,
    htexts _ hcases "a" (SortedSet.mem_singleton.2 rfl)⟩

/-- With both `enum` and `const` there is an arm for a literal that `const` does not allow, and a
string under `const` is an arm although `type` does not allow it. -/
theorem arms_overruled :
    let both := [("enum", .array [.string "a", .number (.integer 1)]),
      ("const", .number (.integer 1))]
    let excluded := [("type", .string "integer"), ("const", .string "x")]
    let graph (schema : List (String × Json)) := ((ofSchema schema).convert .empty).2.1
    (((ofSchema both).convert .empty).2.2.map Report.converted = .ok [("a", 0)] ∧
      (graph both).HasArm 0 2 ∧ (graph both).shape 2 = .primitive .string ∧
      ¬ LeavesRoom both .string) ∧
    ((ofSchema excluded).convert .empty).2.2.map Report.converted = .ok [("a", 0)] ∧
      (graph excluded).HasArm 0 1 ∧ (graph excluded).shape 1 = .enumeration (.singleton "x") ∧
      ¬ LeavesRoom excluded .string := by
  intro both excluded graph
  have hboth : [0, 3, 2].map (graph both).shape = [.intersection (some (.singleton 3)),
      .union (some (.ofList [1, 2])), .primitive .string] := by decide +kernel
  have hexcluded : [0, 2, 1].map (graph excluded).shape = [.intersection (some (.singleton 2)),
      .union (some (.singleton 1)), .enumeration (.singleton "x")] := by decide +kernel
  simp only [List.map_cons, List.map_nil, List.cons.injEq] at hboth hexcluded
  obtain ⟨hwhole, hunion, hstring, -⟩ := hboth
  obtain ⟨hwhole', hunion', hcases, -⟩ := hexcluded
  refine ⟨⟨by decide +kernel, ?_, hstring, fun hroom => ?_⟩, by decide +kernel, ?_, hcases,
    fun hroom => ?_⟩
  · exact ⟨_, 3, _, hwhole, SortedSet.mem_singleton.2 rfl, hunion,
      SortedSet.mem_ofList.2 (by decide)⟩
  · cases hroom.const _ rfl
  · exact ⟨_, 2, _, hwhole', SortedSet.mem_singleton.2 rfl, hunion',
      SortedSet.mem_singleton.2 rfl⟩
  · obtain ⟨name, hname, htype⟩ := hroom.type _ rfl
    obtain rfl := List.mem_singleton.1 hname
    exact absurd htype (by decide)

end Batch

end JsonTyping
