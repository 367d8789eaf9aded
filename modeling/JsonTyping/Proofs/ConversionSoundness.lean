import JsonTyping.Proofs.SchemaConversion
import Mathlib.Data.Prod.Basic

/-!
# Types have the values of their schemas

A conversion leaves every registered place with a type that has all values that are valid there
(`Conversion.Reached.covered`), also when conversions before it failed and were rolled back. By
induction on how a value is valid, it is one of the type of the schema (`admits_of_valid`), and so
the type of a top-level reference has every valid value (`convertTopLevel_sound`).
-/

namespace JsonTyping

theorem Place.isPlain_empty : Place.empty.IsPlain := ⟨rfl, nofun⟩

namespace Conversion

variable {lib : Library}

/-- A conversion of a top-level reference first resolves it and then converts what it found. -/
theorem outcome_convertTopLevel {annotators : List Annotator} {name : String} {r : Reference}
    {s : Conversion} {library : Library} {found : Resolved} {v : Json}
    (hfound : outcome (Library.resolveTopLevel r) s.library = (.ok found, library))
    (hv : found.value = .ok v) :
    outcome (convertTopLevel annotators name r) s =
      outcome (toType annotators (depthBound library) v found.place (.givenName name))
        { s with library } := by
  have hresolve := outcome_onLibrary (Library.resolveTopLevel r) s
  rw [hfound] at hresolve
  unfold convertTopLevel
  rw [outcome_bind_of_ok hresolve, hv]
  dsimp only
  rw [outcome_bind_of_ok (outcome_get _)]

theorem outcome_convertTopLevel_of_error {annotators : List Annotator} {name : String}
    {r : Reference} {s : Conversion} {library : Library} {e : Halt}
    (herror : outcome (Library.resolveTopLevel r) s.library = (.error e, library)) :
    outcome (convertTopLevel annotators name r) s = (.error e, { s with library }) := by
  have hresolve := outcome_onLibrary (Library.resolveTopLevel r) s
  rw [herror] at hresolve
  unfold convertTopLevel
  rw [outcome_bind, hresolve]

/-- Where a top-level reference leads, the conversion can begin. -/
theorem ready_of_finds {r : Reference} {found : Resolved}
    (h : Library.Finds lib .empty r found) (types : List (Reference × NodeId)) :
    ∃ v, found.value = .ok v ∧ lib.value? found.place.canonical = some v ∧
      Ready lib found.place.canonical.path types found.place v := by
  obtain ⟨v, hv, hvalue⟩ := h.value?
  refine ⟨v, hv, hvalue, ?_, fun hfree => h.plain hfree Place.isPlain_empty, .inl hvalue⟩
  exact .of_base (List.mem_cons_of_mem _ List.mem_cons_self) hvalue

/-- What a conversion of a top-level reference does to the state, however it ends. -/
theorem advances_convertTopLevel (hmemory : lib.InMemory) (hself : lib.Continues lib)
    {annotators : List Annotator} {name : String} {r : Reference} {s s' : Conversion}
    (hs : lib.Continues s.library) {result : Except Halt NodeId}
    (hrun : outcome (convertTopLevel annotators name r) s = (result, s')) :
    Advances lib s s' ∧ ∀ t, result = .ok t → Completes lib s s' ∧
      ∃ found, (outcome (Library.resolveTopLevel r) s.library).1 = .ok found ∧
        Library.Finds lib .empty r found ∧ s'.types.lookup found.place.canonical = some t := by
  obtain ⟨answer, library, hresolve, hlibrary, hends⟩ := hs.resolve hmemory .empty r
  have h₁ : Advances lib s { s with library } := .resolve hlibrary hresolve
  cases answer with
  | error e =>
    rw [outcome_convertTopLevel_of_error hresolve] at hrun
    cases hrun
    exact ⟨h₁, nofun⟩
  | ok found =>
    obtain ⟨v, hv, -, hready⟩ := ready_of_finds hends s.types
    rw [outcome_convertTopLevel hresolve hv] at hrun
    have hwalks := walks_toType annotators hmemory hself (depthBound library) { s with library } v
      found.place (.givenName name) hlibrary hready
    cases result with
    | error e => exact ⟨h₁.trans (hwalks.error hrun).1, nofun⟩
    | ok t =>
      obtain ⟨h₂, hcompletes, hlookup⟩ := hwalks.ok hrun
      refine ⟨h₁.trans h₂, fun t' ht' => ?_⟩
      obtain rfl := Except.ok.inj ht'
      refine ⟨hcompletes, found, ?_, hends, hlookup⟩
      rw [show outcome (Library.resolveTopLevel r) s.library = (.ok found, library) from hresolve]

/-- The states between conversions: after a success the graph may be used for other things, and
after a failure what the conversion registered is forgotten. -/
inductive Reached (lib : Library) : Conversion → Prop
  | start (graph : Graph) : Reached lib ⟨lib, graph, [], []⟩
  | converted {s s' : Conversion} (h : Reached lib s) (annotators : List Annotator)
      (name : String) (r : Reference) {t : NodeId}
      (hrun : outcome (convertTopLevel annotators name r) s = (.ok t, s')) {graph : Graph}
      (hgraph : s'.graph.Keeps graph) : Reached lib ⟨s'.library, graph, s'.types, []⟩
  | failed {s s' : Conversion} (h : Reached lib s) (annotators : List Annotator)
      (name : String) (r : Reference) {e : Halt}
      (hrun : outcome (convertTopLevel annotators name r) s = (.error e, s')) {graph : Graph}
      (hgraph : s'.graph.Keeps graph) : Reached lib ⟨s'.library, graph, s'.rolledBack, []⟩

theorem rolledBack_eq {s s' : Conversion} (h : Grows s s') (hjournal : s.journal = []) :
    s'.rolledBack = s.types := by
  obtain ⟨new, htypes, hjournal', hnew⟩ := h.types
  rw [hjournal, List.append_nil] at hjournal'
  unfold rolledBack
  rw [htypes, List.filter_append]
  have hnone : new.filter (fun entry => !s'.journal.contains entry.1) = [] := by
    refine List.filter_eq_nil_iff.2 fun e he => ?_
    have hmem : e.1 ∈ s'.journal := by
      rw [hjournal']
      exact List.mem_map.2 ⟨e, he, rfl⟩
    rw [List.contains_iff_mem.2 hmem]
    exact Bool.false_ne_true
  have hall : s.types.filter (fun entry => !s'.journal.contains entry.1) = s.types := by
    refine List.filter_eq_self.2 fun e he => ?_
    rw [Bool.not_eq_true', Bool.eq_false_iff]
    intro hmem
    rw [List.contains_iff_mem, hjournal'] at hmem
    obtain ⟨e', he', heq⟩ := List.mem_map.1 hmem
    obtain ⟨t, ht⟩ := exists_lookup_of_mem he
    rw [← heq] at ht
    cases (hnew e' he').symm.trans ht
  rw [hnone, hall, List.nil_append]

/-- Between conversions, every registered type has all values that are valid at its place. -/
theorem Reached.covered (hmemory : lib.InMemory) (hself : lib.Continues lib) (hfree : lib.IdFree)
    {s : Conversion} (h : Reached lib s) :
    lib.Continues s.library ∧ s.journal = [] ∧
      ∀ r t, s.types.lookup r = some t → Covered lib s.graph s.types r t := by
  induction h with
  | start graph => exact ⟨hself, rfl, nofun⟩
  | converted _ annotators name r hrun hgraph ih =>
    obtain ⟨hlibrary, -, hcovered⟩ := ih
    obtain ⟨hadvances, hok⟩ := advances_convertTopLevel hmemory hself hlibrary hrun
    obtain ⟨hcompletes, -⟩ := hok _ rfl
    refine ⟨hadvances.library, rfl, fun r t ht => ?_⟩
    rcases hcompletes hfree r t ht with hold | hnew
    · have hkeeps := hadvances.graph.keeps.trans hgraph
      exact (hcovered r t hold).mono hkeeps fun _ _ => hadvances.lookup
    · exact hnew.mono hgraph fun _ _ hu => hu
  | failed _ annotators name r hrun hgraph ih =>
    -- The nodes that the failure leaves behind only extend the graph.
    obtain ⟨hlibrary, hjournal, hcovered⟩ := ih
    obtain ⟨hadvances, -⟩ := advances_convertTopLevel hmemory hself hlibrary hrun
    refine ⟨hadvances.library, rfl, ?_⟩
    dsimp only
    rw [rolledBack_eq hadvances.grows hjournal]
    intro r t ht
    exact (hcovered r t ht).mono (hadvances.graph.keeps.trans hgraph) fun _ _ hu => hu

theorem Place.eq_of_isPlain {p q : Place} (hp : p.IsPlain) (hq : q.IsPlain)
    (h : p.canonical = q.canonical) : p = q := by
  rw [hp.1, hq.1, h]

/-- When every registered type has the values that satisfy the schema at its place, given the values
of the types of the parts, it has all values that are valid there. -/
theorem admits_of_valid {g : Graph} {types : List (Reference × NodeId)}
    (hcovered : ∀ r t, types.lookup r = some t → Covered lib g types r t) {place : Place}
    {S v : Json} (h : Valid lib place S v) :
    ∀ t, place.IsPlain → lib.value? place.canonical = some S →
      types.lookup place.canonical = some t → g.Admits t v := by
  -- The induction is on why the value is valid: the types of a schema may lead back to each other,
  -- and what holds of the parts is what `Covered` asks for.
  induction h with
  | anything place v =>
    intro t hplain hvalue ht
    obtain ⟨place', S', hplace, -, hvalue', hmeets⟩ := hcovered _ t ht
    obtain rfl := Option.some.inj (hvalue.symm.trans hvalue')
    exact hmeets g (fun _ _ _ => False) (.refl g) ⟨fun _ _ h => h, fun _ _ _ _ _ _ _ h => h.elim⟩
      v (.inl rfl)
  | @object parts place schema v hparts h ih =>
    intro t hplain hvalue ht
    obtain ⟨place', S', hplace, hplain', hvalue', hmeets⟩ := hcovered _ t ht
    obtain rfl := Option.some.inj (hvalue.symm.trans hvalue')
    obtain rfl := Place.eq_of_isPlain hplain' hplain hplace
    have hrespects : Respects lib types g parts := by
      refine ⟨fun p w hw => ?_, fun p S w u hp hS hu hw => ih p S w hw u hp hS hu⟩
      cases hparts p _ w hw
    exact hmeets g parts (.refl g) hrespects v (.inr ⟨schema, rfl, h⟩)

/-- Conversion over-approximates the schema: when the documents have no ids, the type of a top-level
reference that is converted, whatever was converted before, has every value that is valid for the
schema the reference leads to. -/
theorem convertTopLevel_sound (hlib : lib.Reached) (hfree : lib.IdFree) {s s' : Conversion}
    (hs : Reached lib s) {annotators : List Annotator} {name : String} {r : Reference} {t : NodeId}
    (hrun : outcome (convertTopLevel annotators name r) s = (.ok t, s')) :
    ∃ found S, (outcome (Library.resolveTopLevel r) lib).1 = .ok found ∧ found.value = .ok S ∧
      ∀ v, Valid lib found.place S v → s'.graph.Admits t v := by
  obtain ⟨hmemory, hself⟩ := hlib.inMemory
  obtain ⟨hlibrary, -, hcovered⟩ := hs.covered hmemory hself hfree
  obtain ⟨hadvances, hok⟩ := advances_convertTopLevel hmemory hself hlibrary hrun
  obtain ⟨hcompletes, found, hfound, hfinds, hlookup⟩ := hok t rfl
  obtain ⟨S, hS, hvalue⟩ := hfinds.value?
  have hcovered' : ∀ r t, s'.types.lookup r = some t → Covered lib s'.graph s'.types r t := by
    intro r t ht
    rcases hcompletes hfree r t ht with hold | hnew
    · exact (hcovered r t hold).mono hadvances.graph.keeps fun _ _ => hadvances.lookup
    · exact hnew
  refine ⟨found, S, ?_, hS, fun v hv => ?_⟩
  · exact (Library.resolve_eq_of_idFree hmemory hfree hself hlibrary .empty r).trans hfound
  · exact admits_of_valid hcovered' hv t (hfinds.plain hfree Place.isPlain_empty) hvalue hlookup

/-- A list whose elements refer to the list itself. -/
def listSchema : Json :=
  .object [("type", .string "object"),
    ("properties", .object [("next", .object [("$ref", .string "#/")])])]

def listLibrary : Library :=
  (Library.ofStore none).addDocument "list.json" listSchema

theorem idFree_listLibrary : listLibrary.IdFree := by
  intro e he path members hmem id
  rw [listLibrary, Library.shelf_addDocument] at he
  obtain rfl := List.mem_singleton.1 he
  simp [listSchema, Json.nodes, Json.nodesOfMembers] at hmem
  rcases hmem with ⟨-, rfl⟩ | ⟨-, rfl⟩ | ⟨-, rfl⟩ <;> exact nofun

theorem convertTopLevel_sound_list :
    let s : Conversion := ⟨listLibrary, .empty, [], []⟩
    ∃ s', outcome (convertTopLevel Annotator.builtin "List" (.parse "list.json")) s = (.ok 0, s') ∧
      ∃ found S,
        (outcome (Library.resolveTopLevel (.parse "list.json")) listLibrary).1 = .ok found ∧
        found.value = .ok S ∧ ∀ v, Valid listLibrary found.place S v → s'.graph.Admits 0 v := by
  intro s
  have hanswer : (outcome (convertTopLevel Annotator.builtin "List" (.parse "list.json")) s).1 =
      .ok 0 := by decide +kernel
  have hrun := Prod.fst_eq_iff.1 hanswer
  exact ⟨_, hrun, convertTopLevel_sound (.addDocument .inline "list.json" listSchema)
    idFree_listLibrary (.start .empty) hrun⟩

end Conversion

end JsonTyping
