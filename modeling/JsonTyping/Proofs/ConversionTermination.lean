import JsonTyping.Proofs.ConversionDepth
import JsonTyping.Proofs.ConversionSoundness

/-!
# Conversions end

Every level of a conversion but the last registers a place, and the documents at hand have fewer
places than a conversion may get deep. So no conversion gets too deep, with any ids and any
references (`convertTopLevel_ends`), and it would do the same if it could get deeper. This is the
cycle termination of SPEC_FULL.md §8, for any schema.
-/

namespace JsonTyping.Conversion

theorem Fair.ne_tooDeep {annotators : List Annotator} {e : Halt} (h : Fair annotators e) :
    e ≠ .tooDeep := by
  rcases h with ⟨error, rfl⟩ | ⟨-, cause, rfl⟩
  · exact nofun
  · exact nofun

theorem Fair.schema {annotators : List Annotator} {e : Halt} (h : Fair annotators e)
    (hproper : Proper annotators) : ∃ error, e = .schema error := by
  rcases h with herror | ⟨himproper, -⟩
  · exact herror
  · exact absurd hproper himproper

/-- A conversion of what a top-level reference finds, as deep as the documents allow, never gets too
deep: fewer places are without a type than the conversion may get deep. -/
theorem walks_toType_of_finds {lib : Library} {annotators : List Annotator}
    (hmemory : lib.InMemory) (hself : lib.Continues lib) {r : Reference} {found : Resolved}
    (hfinds : Library.Finds lib .empty r found) {v : Json} (hv : found.value = .ok v)
    (s : Conversion) (a : Attributes) :
    Walks lib annotators True { s with library := lib }
      (toType annotators (depthBound lib) v found.place a) fun _ _ => True := by
  obtain ⟨v', hv', -, hready⟩ := ready_of_finds hfinds s.types
  obtain rfl := Except.ok.inj (hv.symm.trans hv')
  have hbound := Library.unregistered_lt hmemory found.place.canonical.path s.types
  have hwalks := walks_toType annotators hmemory hself (depthBound lib)
    { s with library := lib } v found.place a hself hready
  exact (hwalks.of_bounded fun _ => hbound).imp fun _ _ _ _ => trivial

/-- A conversion of a top-level reference ends with a type or with what is wrong with the schemas,
whatever was done before: the depth that the documents at hand give is enough for any number of
references from schema to schema, and two rounds are enough for any search. Only a reference that
cannot be written, or annotators that find something for cases that are not there, are a misuse.
The library can be used for further conversions. -/
theorem convertTopLevel_ends {s : Conversion} (hlib : s.library.Reached)
    (annotators : List Annotator) (name : String) (r : Reference) :
    (∀ e s', outcome (convertTopLevel annotators name r) s = (.error e, s') →
      e ≠ .tooDeep ∧ (Proper annotators → (∃ error, e = .schema error) ∨
        ¬ r.IsWritten ∧ ∃ text, e = .misuse (.syntheticStep text))) ∧
    (∀ found library v depth, outcome (Library.resolveTopLevel r) s.library = (.ok found, library) →
      found.value = .ok v → depthBound library ≤ depth →
        outcome (toType annotators depth v found.place (.givenName name)) { s with library } =
          outcome (convertTopLevel annotators name r) s) ∧
    (outcome (convertTopLevel annotators name r) s).2.library.Reached ∧
    ∀ fetchBase lookupBase target rounds library,
      outcome (Library.search fetchBase lookupBase target (rounds + 2)) library =
        outcome (Library.search fetchBase lookupBase target 2) library := by
  obtain ⟨hmemory, hself⟩ := hlib.inMemory
  obtain ⟨answer, library, hresolve, hlibrary, hends⟩ := hself.resolve hmemory .empty r
  have hdeep : ∀ found v, answer = .ok found → found.value = .ok v →
      Walks library annotators True { s with library }
        (toType annotators (depthBound library) v found.place (.givenName name))
        fun _ _ => True := by
    rintro found v rfl hv
    exact walks_toType_of_finds (hlibrary.inMemory hmemory) hlibrary.self
      (hlibrary.finds hends) hv s _
  refine ⟨fun e s' hrun => ?_, fun found library' v depth hfound hv hle => ?_, ?_,
    Library.search_rounds⟩
  · cases answer with
    | error cause =>
      rw [outcome_convertTopLevel_of_error hresolve] at hrun
      cases hrun
      rcases hends with ⟨error, rfl⟩ | ⟨hwritten, text, rfl⟩
      · exact ⟨nofun, fun _ => .inl ⟨error, rfl⟩⟩
      · exact ⟨nofun, fun _ => .inr ⟨hwritten, text, rfl⟩⟩
    | ok found =>
      obtain ⟨v, hv, -⟩ := hends.value?
      rw [outcome_convertTopLevel hresolve hv] at hrun
      have hfair := ((hdeep found v rfl hv).error hrun).2 trivial
      exact ⟨hfair.ne_tooDeep, fun hproper => .inl (hfair.schema hproper)⟩
  · have hsame : (answer, library) = (.ok found, library') := hresolve.symm.trans hfound
    cases hsame
    rw [outcome_convertTopLevel hresolve hv]
    refine agrees_toType annotators hle v found.place _ _ fun htooDeep => ?_
    cases hrun : outcome (toType annotators (depthBound library) v found.place (.givenName name))
        { s with library } with
    | mk result s' =>
      rw [hrun] at htooDeep
      obtain rfl : result = .error .tooDeep := htooDeep
      exact absurd rfl (((hdeep found v rfl hv).error hrun).2 trivial).ne_tooDeep
  · exact hlib.uses (advances_convertTopLevel hmemory hself hself rfl).1.uses

/-- The id of this schema is below its address, and so is the address that its reference means. -/
def descendingSchema : Json :=
  .object [("$id", .string "below/"), ("type", .string "object"),
    ("properties", .object
      [("next", .object [("$ref", .string "tree.json")]),
        ("self", .object [("$ref", .string "#/")])])]

def descendingLibrary : Library :=
  .ofStore (some (.memory
    [("a/tree.json", descendingSchema), ("a/below/tree.json", descendingSchema)] []))

theorem convertTopLevel_ends_descending :
    descendingLibrary.Reached ∧
      ∃ s', outcome (convertTopLevel Annotator.builtin "Tree" (.parse "a/tree.json"))
          ⟨descendingLibrary, .empty, [], []⟩ = (.ok 0, s') ∧
        s'.library.Reached ∧
        ∀ e s'', outcome (convertTopLevel Annotator.builtin "Tree" (.parse "a/tree.json")) s' =
          (.error e, s'') → ∃ error, e = .schema error := by
  have hlib : descendingLibrary.Reached := .memory _ _
  obtain ⟨s', hrun⟩ : ∃ s', outcome (convertTopLevel Annotator.builtin "Tree"
      (.parse "a/tree.json")) ⟨descendingLibrary, .empty, [], []⟩ = (.ok 0, s') := by
    have hanswer : (outcome (convertTopLevel Annotator.builtin "Tree" (.parse "a/tree.json"))
        ⟨descendingLibrary, .empty, [], []⟩).1 = .ok 0 := by decide +kernel
    exact ⟨_, Prod.fst_eq_iff.1 hanswer⟩
  have hlib' : s'.library.Reached := by
    obtain ⟨-, -, hreached, -⟩ := convertTopLevel_ends (s := ⟨descendingLibrary, .empty, [], []⟩)
      hlib Annotator.builtin "Tree" (.parse "a/tree.json")
    rwa [hrun] at hreached
  refine ⟨hlib, s', hrun, hlib', fun e s'' hagain => ?_⟩
  obtain ⟨herror, -⟩ := convertTopLevel_ends hlib' Annotator.builtin "Tree" (.parse "a/tree.json")
  rcases (herror e s'' hagain).2 proper_builtin with hschema | ⟨hwritten, -⟩
  · exact hschema
  · exact absurd (Reference.isWritten_parse "a/tree.json") hwritten

end JsonTyping.Conversion
