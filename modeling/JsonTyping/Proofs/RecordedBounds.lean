import JsonTyping.Proofs.UnionArms

/-!
# Bounds that are recorded

The nodes of primitive types are shared, so one node has the bounds of many schemas. Whatever a
schema with bounds of its own allows lies within those of its node (`Batch.bounds_hold`). A schema
without bounds adds nothing, so values that it allows can be outside of the bounds of others
(`Batch.bounds_narrowed`).
-/

namespace JsonTyping

namespace Conversion

/-- The schema has a bound for numbers. -/
def GivesBound (schema : List (String × Json)) : Prop :=
  ∃ keyword bound, (keyword = "minimum" ∨ keyword = "maximum") ∧
    schema.lookup keyword = some (.number bound)

/-- The number is not outside of the bounds of the schema, which are read as doubles. -/
structure WithinBounds (schema : List (String × Json)) (n : Number) : Prop where
  low : ∀ bound, schema.lookup "minimum" = some (.number bound) →
    bound.toDouble.toUnits ≤ n.toUnits
  high : ∀ bound, schema.lookup "maximum" = some (.number bound) →
    n.toUnits ≤ bound.toDouble.toUnits

/-- The schema has a limit for the length of strings. -/
def GivesLimit (schema : List (String × Json)) : Prop :=
  ∃ (keyword : String) (count : Nat), (keyword = "minLength" ∨ keyword = "maxLength") ∧
    schema.lookup keyword = some (.number (.integer count))

/-- The text is not shorter or longer than the schema allows. -/
structure WithinLimits (schema : List (String × Json)) (text : String) : Prop where
  low : ∀ count : Nat, schema.lookup "minLength" = some (.number (.integer count)) →
    count ≤ text.length
  high : ∀ count : Nat, schema.lookup "maxLength" = some (.number (.integer count)) →
    text.length ≤ count

def rangeOf (schema : List (String × Json)) : Bounds Double :=
  ⟨(schema.lookup "minimum").bind Annotator.numberOf,
    (schema.lookup "maximum").bind Annotator.numberOf⟩

def lengthsOf (schema : List (String × Json)) : Bounds Nat :=
  ⟨(schema.lookup "minLength").bind Annotator.countOf,
    (schema.lookup "maxLength").bind Annotator.countOf⟩

section Bounds

variable {schema : List (String × Json)} {keyword : String}

theorem lookup_of_numberOf {x : Double}
    (h : (schema.lookup keyword).bind Annotator.numberOf = some x) :
    ∃ bound, schema.lookup keyword = some (.number bound) ∧ x = bound.toDouble := by
  obtain ⟨v, hv, hx⟩ := Option.bind_eq_some_iff.1 h
  cases v with
  | number bound => exact ⟨bound, hv, (Option.some.inj hx).symm⟩
  | _ => cases hx

theorem lookup_of_countOf {count : Nat}
    (h : (schema.lookup keyword).bind Annotator.countOf = some count) :
    schema.lookup keyword = some (.number (.integer count)) := by
  obtain ⟨v, hv, hcount⟩ := Option.bind_eq_some_iff.1 h
  rw [hv]
  cases v with
  | number n =>
    cases n with
    | integer n =>
      obtain ⟨hn, hcount⟩ := Option.ite_none_left_eq_some.1 hcount
      obtain rfl := Option.some.inj hcount
      rw [Int.toNat_of_nonneg (Int.not_lt.1 hn)]
    | double _ => cases hcount
  | _ => cases hcount

theorem contains_rangeOf {n : Number} (h : WithinBounds schema n) :
    (rangeOf schema).values.Contains n.toUnits := by
  constructor
  · intro low hlow
    obtain ⟨x, hx, rfl⟩ := Option.map_eq_some_iff.1 hlow
    obtain ⟨bound, hbound, rfl⟩ := lookup_of_numberOf hx
    exact h.low bound hbound
  · intro high hhigh
    obtain ⟨x, hx, rfl⟩ := Option.map_eq_some_iff.1 hhigh
    obtain ⟨bound, hbound, rfl⟩ := lookup_of_numberOf hx
    exact h.high bound hbound

theorem contains_lengthsOf {text : String} (h : WithinLimits schema text) :
    (lengthsOf schema).Contains text.length :=
  ⟨fun count hcount => h.low count (lookup_of_countOf hcount),
    fun count hcount => h.high count (lookup_of_countOf hcount)⟩

theorem GivesBound.isSome (h : GivesBound schema) :
    ¬ ((rangeOf schema).low.isNone ∧ (rangeOf schema).high.isNone) := by
  rintro ⟨hlow, hhigh⟩
  obtain ⟨keyword, bound, rfl | rfl, hbound⟩ := h
  · simp [rangeOf, hbound, Annotator.numberOf] at hlow
  · simp [rangeOf, hbound, Annotator.numberOf] at hhigh

theorem GivesLimit.isSome (h : GivesLimit schema) :
    ¬ ((lengthsOf schema).low.isNone ∧ (lengthsOf schema).high.isNone) := by
  rintro ⟨hlow, hhigh⟩
  obtain ⟨keyword, count, rfl | rfl, hcount⟩ := h
  · simp [lengthsOf, hcount, Annotator.countOf] at hlow
  · simp [lengthsOf, hcount, Annotator.countOf] at hhigh

end Bounds

/-! ### What is found in a schema -/

variable {x : Subject}

theorem foldl_filterMap_combine {α : Type} (pick : Annotation → Option Attributes)
    (f : α → Option Annotation) (l : List α) (a : Attributes) :
    (l.filterMap f).foldl (fun a n => match pick n with
        | some more => a.combine more
        | none => a) a =
      l.foldl (fun a e => a.combine (((f e).bind pick).getD .empty)) a := by
  induction l generalizing a with
  | nil => rfl
  | cons e l ih =>
    rw [List.foldl_cons, List.filterMap_cons]
    cases f e with
    | none => rw [ih, Option.bind_none, Option.getD_none, Attributes.combine_empty]
    | some n =>
      rw [List.foldl_cons, ih, Option.bind_some]
      cases pick n with
      | none => rw [Option.getD_none, Attributes.combine_empty]
      | some more => rfl

/-- What the annotator finds in the schema without looking at cases. -/
def Subject.foundBy (x : Subject) (pick : Annotation → Option Attributes) (annotator : Annotator) :
    Attributes :=
  ((annotator x.schema x.place.canonical x.limits.included none).bind pick).getD .empty

theorem found_builtin (hx : x.annotators = Annotator.builtin)
    (pick : Annotation → Option Attributes) :
    x.found pick = ((x.foundBy pick Annotator.descriptions).combine
      (x.foundBy pick Annotator.numberBounds)).combine (x.foundBy pick Annotator.stringLimits) := by
  rw [Subject.found, Subject.annotations, hx]
  refine (foldl_filterMap_combine pick _ _ _).trans ?_
  simp only [Annotator.builtin, List.foldl_cons, List.foldl_nil, Attributes.empty_combine]
  rfl

theorem foundBy_descriptions {pick : Annotation → Option Attributes}
    (hpick : ∀ own, pick ⟨own, none, none, none, none⟩ = none) :
    x.foundBy pick Annotator.descriptions = .empty := by
  unfold Subject.foundBy Annotator.descriptions
  dsimp only [Option.bind_none]
  split
  · rfl
  · exact congrArg (Option.getD · .empty) (hpick _)

theorem foundBy_numberBounds
    (hincluded : .number ∈ x.limits.included ∨ .integer ∈ x.limits.included)
    (hgives : GivesBound x.schema) :
    x.foundBy Annotation.forNumber Annotator.numberBounds =
      { Attributes.empty with range := some (rangeOf x.schema) } := by
  have hcontains : (x.limits.included.contains .number || x.limits.included.contains .integer) =
      true :=
    Bool.or_eq_true_iff.2 (hincluded.imp SortedSet.contains_iff.2 SortedSet.contains_iff.2)
  have hsome := hgives.isSome
  dsimp only [rangeOf] at hsome
  unfold Subject.foundBy Annotator.numberBounds
  rw [if_pos hcontains, if_neg hsome]
  rfl

theorem foundBy_stringLimits (hincluded : .string ∈ x.limits.included)
    (hgives : GivesLimit x.schema) :
    (x.foundBy Annotation.forString Annotator.stringLimits).length = some (lengthsOf x.schema) := by
  have hsome := hgives.isSome
  dsimp only [lengthsOf] at hsome
  unfold Subject.foundBy Annotator.stringLimits
  rw [if_pos (SortedSet.contains_iff.2 hincluded)]
  dsimp only
  rw [if_neg hsome, if_neg]
  · rfl
  · intro hempty
    cases congrArg Attributes.length (of_decide_eq_true hempty)

theorem foundBy_stringLimits_forNumber :
    x.foundBy Annotation.forNumber Annotator.stringLimits = .empty := by
  unfold Subject.foundBy
  cases hn : Annotator.stringLimits x.schema x.place.canonical x.limits.included none with
  | none => rfl
  | some n =>
    simp only [Annotator.stringLimits] at hn
    split at hn
    · rw [Option.ite_none_left_eq_some] at hn
      obtain rfl := Option.some.inj hn.2
      rfl
    · cases hn

theorem foundBy_numberBounds_forString :
    x.foundBy Annotation.forString Annotator.numberBounds = .empty := by
  unfold Subject.foundBy Annotator.numberBounds
  split
  · dsimp only
    split <;> rfl
  · rfl

theorem range_found (hx : x.annotators = Annotator.builtin)
    (hincluded : .number ∈ x.limits.included ∨ .integer ∈ x.limits.included)
    (hgives : GivesBound x.schema) :
    (x.found Annotation.forNumber).range = some (rangeOf x.schema) := by
  rw [found_builtin hx, foundBy_descriptions fun _ => rfl, foundBy_numberBounds hincluded hgives,
    foundBy_stringLimits_forNumber, Attributes.combine_empty, Attributes.empty_combine]

theorem length_found (hx : x.annotators = Annotator.builtin)
    (hincluded : .string ∈ x.limits.included) (hgives : GivesLimit x.schema) :
    (x.found Annotation.forString).length = some (lengthsOf x.schema) := by
  rw [found_builtin hx, foundBy_descriptions fun _ => rfl, foundBy_numberBounds_forString,
    Attributes.combine_empty, Attributes.empty_combine, foundBy_stringLimits hincluded hgives]

/-- The node of a primitive type has what was found for the type, which is included. -/
theorem StandsFor.primitive {s : Conversion} {m : NodeId} {type : SimpleType}
    (hmem : type ∈ scalarTypes x) (h : StandsFor s x m type) {p : Primitive}
    (hp : s.graph.shape m = .primitive p) :
    (s.graph.attributes m).Includes (x.foundFor p) ∧
      ∀ T, (Shape.primitive p).scalarType? = some T → T ∈ x.limits.included := by
  constructor
  · cases type with
    | named name => exact h.elim
    | primitive q =>
      obtain rfl := Shape.primitive.inj (h.1.symm.trans hp)
      exact h.2
    | enumeration cases =>
      have henumeration : s.graph.shape m = .enumeration cases := h
      cases henumeration.symm.trans hp
  · intro T hT
    rw [← hp] at hT
    rcases h.included_or_cases hmem hT with ⟨hincluded, -⟩ | ⟨-, cases, -, henumeration⟩
    · exact hincluded
    · cases henumeration.symm.trans hp

end Conversion

open Conversion

namespace Batch

/-- Every number within the bounds of a schema that has some lies within the range of its node for
numbers, and every text within its limits has a length within those of its node for strings. -/
theorem bounds_hold {b b' : Batch} {graph graph' : Graph} {report : Report}
    (hb : Usable b graph) (hannotators : b.annotators = Annotator.builtin)
    (hrun : b.convert graph = (b', graph', .ok report)) {r : Reference} {t : NodeId}
    (hnew : b.types.lookup r = none) (ht : b'.types.lookup r = some t)
    {schema : List (String × Json)} (hschema : b.library.value? r = some (.object schema))
    {m : NodeId} {p : Primitive} (hm : graph'.HasArm t m) (hp : graph'.shape m = .primitive p) :
    (p.isNumber = true → GivesBound schema → ∀ n, WithinBounds schema n →
      (graph'.attributes m).AllowsNumber n.toUnits) ∧
    (p.isString = true → GivesLimit schema → ∀ text, WithinLimits schema text →
      (graph'.attributes m).AllowsLength text.length) := by
  have hstands : ∀ T, (Shape.primitive p).scalarType? = some T →
      ∃ x : Subject, x.annotators = Annotator.builtin ∧ x.schema = schema ∧
        (graph'.attributes m).Includes (x.foundFor p) ∧ T ∈ x.limits.included := by
    intro T hT
    obtain ⟨x, type, hsubject, hsame, htype, hstands⟩ :=
      exists_standsFor hb hrun hnew ht hschema hm ((congrArg Shape.scalarType? hp).trans hT)
    obtain ⟨hincludes, hincluded⟩ := hstands.primitive htype hp
    exact ⟨x, (isSubject_of_subject hsubject).1.annotators.trans hannotators, hsame, hincludes,
      hincluded T hT⟩
  refine ⟨fun hnumber hgives n hn => ?_, fun hstring hgives text htext => ?_⟩
  · obtain ⟨T, hT, hkind⟩ : ∃ T, (Shape.primitive p).scalarType? = some T ∧
        (T = .number ∨ T = .integer) := by
      cases p with
      | integer => exact ⟨.integer, rfl, .inr rfl⟩
      | double => exact ⟨.number, rfl, .inl rfl⟩
      | _ => cases hnumber
    obtain ⟨x, hx, rfl, hincludes, hincluded⟩ := hstands T hT
    rw [Subject.foundFor, if_pos hnumber] at hincludes
    have hnumbers : .number ∈ x.limits.included ∨ .integer ∈ x.limits.included := by
      rcases hkind with rfl | rfl
      · exact .inl hincluded
      · exact .inr hincluded
    exact hincludes.allowsNumber (range_found hx hnumbers hgives) (contains_rangeOf hn)
  · obtain ⟨x, hx, rfl, hincludes, hincluded⟩ :=
      hstands .string (scalarType?_eq_string.2 hstring)
    rw [Subject.foundFor, isNumber_of_isString hstring, hstring] at hincludes
    exact hincludes.allowsLength (length_found hx hincluded hgives) (contains_lengthsOf htext)

def boundedSchema : List (String × Json) :=
  [("type", .array [.string "number", .string "string"]), ("minimum", .number (.integer 5)),
    ("maxLength", .number (.integer 3))]

theorem bounds_hold_bounded :
    ∃ b' graph' report, (ofSchema boundedSchema).convert .empty = (b', graph', .ok report) ∧
      (graph'.HasArm 0 1 ∧ graph'.shape 1 = .primitive .double ∧
        (graph'.attributes 1).AllowsNumber (Number.integer 7).toUnits) ∧
      graph'.HasArm 0 2 ∧ graph'.shape 2 = .primitive .string ∧
        (graph'.attributes 2).AllowsLength "abc".length := by
  have htypes : ((ofSchema boundedSchema).convert .empty).1.types.lookup (.parse "a.json") =
      some 0 := by decide +kernel
  have hshapes : [0, 3, 1, 2].map ((ofSchema boundedSchema).convert .empty).2.1.shape =
      [.intersection (some (.singleton 3)), .union (some (.ofList [1, 2])), .primitive .double,
        .primitive .string] := by decide +kernel
  have hnumber : WithinBounds boundedSchema (.integer 7) := by
    refine ⟨fun bound hbound => ?_, nofun⟩
    obtain rfl := Json.number.inj (Option.some.inj hbound)
    decide +kernel
  have htext : WithinLimits boundedSchema "abc" := by
    refine ⟨nofun, fun count hcount => ?_⟩
    have hthree := Number.integer.inj (Json.number.inj (Option.some.inj hcount))
    obtain rfl : count = 3 := by omega
    decide
  obtain ⟨report, hrun⟩ := exists_report (ofSchema boundedSchema) .empty (by decide +kernel)
  simp only [List.map_cons, List.map_nil, List.cons.injEq] at hshapes
  obtain ⟨hwhole, hunion, hdouble, hstring, -⟩ := hshapes
  have harm : ∀ m ∈ [1, 2], ((ofSchema boundedSchema).convert .empty).2.1.HasArm 0 m :=
    fun m hm =>
      ⟨_, 3, _, hwhole, SortedSet.mem_singleton.2 rfl, hunion, SortedSet.mem_ofList.2 hm⟩
  have hnumbers := (bounds_hold (usable_ofSchema _ _) rfl hrun rfl htypes
    (value?_ofSchema _) (harm 1 (by decide)) hdouble).1 rfl ⟨"minimum", _, .inl rfl, rfl⟩
  have htexts := (bounds_hold (usable_ofSchema _ _) rfl hrun rfl htypes
    (value?_ofSchema _) (harm 2 (by decide)) hstring).2 rfl ⟨"maxLength", 3, .inr rfl, rfl⟩
  exact ⟨_, _, report, hrun, ⟨harm 1 (by decide), hdouble, hnumbers _ hnumber⟩,
    harm 2 (by decide), hstring, htexts _ htext⟩

/-- A property without bounds has the node of one with a minimum, which excludes a value that only
the former allows. A large minimum is read as the double next to it, which excludes the minimum. -/
theorem bounds_narrowed :
    let others : List (String × Json) := [("properties", .object
      [("a", .object [("type", .string "integer"), ("minimum", .number (.integer 5))]),
        ("b", .object [("type", .string "integer")])])]
    let large := [("type", .string "integer"), ("minimum", .number (.integer 9007199254740995))]
    let result (schema : List (String × Json)) := (ofSchema schema).convert .empty
    (((result others).2.2.map Report.converted = .ok [("a", 0)] ∧
      (result others).1.types.lookup (.parse "a.json#/properties/b") = some 10) ∧
      (result others).2.1.HasArm 10 8 ∧ (result others).2.1.shape 8 = .primitive .integer ∧
      ¬ ((result others).2.1.attributes 8).AllowsNumber (Number.integer 3).toUnits) ∧
    ((result large).2.2.map Report.converted = .ok [("a", 0)] ∧
      (result large).1.types.lookup (.parse "a.json") = some 0) ∧
      (result large).2.1.HasArm 0 1 ∧ (result large).2.1.shape 1 = .primitive .integer ∧
      ¬ ((result large).2.1.attributes 1).AllowsNumber
        (Number.integer 9007199254740995).toUnits := by
  intro others large result
  have hothers : [10, 11, 8].map (result others).2.1.shape =
      [.intersection (some (.singleton 11)), .union (some (.singleton 8)),
        .primitive .integer] := by decide +kernel
  have hlarge : [0, 2, 1].map (result large).2.1.shape =
      [.intersection (some (.singleton 2)), .union (some (.singleton 1)),
        .primitive .integer] := by decide +kernel
  have hrange : ((result others).2.1.attributes 8).range =
      some ⟨some (Number.integer 5).toDouble, none⟩ := by decide +kernel
  have hrange' : ((result large).2.1.attributes 1).range =
      some ⟨some (Number.integer 9007199254740996).toDouble, none⟩ := by decide +kernel
  simp only [List.map_cons, List.map_nil, List.cons.injEq] at hothers hlarge
  obtain ⟨hwhole, hunion, hinteger, -⟩ := hothers
  obtain ⟨hwhole', hunion', hinteger', -⟩ := hlarge
  refine ⟨⟨by decide +kernel, ?_, hinteger, fun hallows => ?_⟩, by decide +kernel, ?_, hinteger',
    fun hallows => ?_⟩
  · exact ⟨_, 11, _, hwhole, SortedSet.mem_singleton.2 rfl, hunion, SortedSet.mem_singleton.2 rfl⟩
  · exact absurd ((hallows _ hrange).low _ rfl) (by decide +kernel)
  · exact ⟨_, 2, _, hwhole', SortedSet.mem_singleton.2 rfl, hunion', SortedSet.mem_singleton.2 rfl⟩
  · exact absurd ((hallows _ hrange').low _ rfl) (by decide +kernel)

end Batch

end JsonTyping
