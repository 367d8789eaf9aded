import JsonTyping.Proofs.SchemaMembers

/-!
# Conversion of schemas

A schema that is an object is registered with an intersection that gets its members when they are
known. Until then the places inside of it are converted with one place fewer that has no type
(`walks_placeholder`), so a converter that may go as deep as there are places without a type never
gets too deep (`walks_toType`).
-/

namespace JsonTyping.Conversion

variable {lib : Library} {top : List Step} {annotators : List Annotator} {bounded : Prop}
  {s : Conversion} {convert : Converter}

theorem keeps_setMembers {g g' : Graph} {t : NodeId} {members : SortedSet NodeId}
    (h : g.setMembers t members = .ok g') : g.Keeps g' := by
  obtain ⟨-, hother, hnode⟩ := Graph.setMembers_spec h
  intro u hu
  by_cases hut : u = t
  · subst hut
    rcases hnode with ⟨hnone, -⟩ | ⟨hnone, -⟩
    · exact absurd hnone hu.2.1
    · exact absurd hnone hu.2.2
  · exact hother u hut

theorem shape_setMembers_of_intersection {g g' : Graph} {t : NodeId} {members : SortedSet NodeId}
    (h : g.setMembers t members = .ok g') (ht : g.shape t = .intersection none) :
    g'.shape t = .intersection (some members) := by
  rcases (Graph.setMembers_spec h).2.2 with ⟨hunion, -⟩ | ⟨-, hnew⟩
  · cases ht.symm.trans hunion
  · exact hnew

theorem covered_of_members {place : Place} {schema : List (String × Json)}
    (hplace : Here lib top place (.object schema)) (hfree : lib.IdFree) {g : Graph}
    {types : List (Reference × NodeId)} {t : NodeId} {members : List NodeId}
    (ht : g.shape t = .intersection (some (.ofList members)))
    (hmembers : ∀ u ∈ members,
      Meets lib g types (fun parts v => Allows lib parts place schema v) u) :
    Covered lib g types place.canonical t := by
  refine ⟨place, .object schema, rfl, hplace.plain hfree, hplace.value, ?_⟩
  rintro k parts hk hparts v (htrue | ⟨schema', heq, hallows⟩)
  · cases htrue
  · cases heq
    refine .intersection (hk.shape_eq ht (by simp [Shape.IsKnown])) fun u hu => ?_
    exact hmembers u (SortedSet.mem_ofList.1 hu) k parts hk hparts v hallows

/-- The state after a new node without members is registered for a place. -/
def withPlaceholder (s : Conversion) (r : Reference) (a : Attributes) : Conversion :=
  { s with
    graph := (s.graph.fresh (.intersection none) a).1,
    types := (r, s.graph.size) :: s.types,
    journal := r :: s.journal }

theorem lookup_withPlaceholder (s : Conversion) (r r' : Reference) (a : Attributes) :
    (s.withPlaceholder r a).types.lookup r' =
      if r' = r then some s.graph.size else s.types.lookup r' :=
  SortedMap.lookup_cons_eq ..

theorem outcome_withPlaceholder {α : Type} {place : Place}
    (hnone : s.types.lookup place.canonical = none) (a : Attributes) (f : NodeId → ConvertM α) :
    outcome (do
      let t ← onGraph (·.fresh (.intersection none) a)
      register place t
      f t) s = outcome (f s.graph.size) (s.withPlaceholder place.canonical a) := by
  have hfresh : outcome (onGraph (·.fresh (.intersection none) a)) s =
      (.ok s.graph.size, { s with graph := (s.graph.fresh (.intersection none) a).1 }) := rfl
  have hregister := outcome_register_of_none
    (s := { s with graph := (s.graph.fresh (.intersection none) a).1 }) s.graph.size hnone
  rw [outcome_bind_of_ok hfresh, outcome_bind_of_ok hregister]
  rfl

/-- A place is registered with a fresh intersection, which gets its members in the end. -/
theorem walks_placeholder (hmemory : lib.InMemory) (hs : lib.Continues s.library) {place : Place}
    {schema : List (String × Json)} (hplace : Here lib top place (.object schema))
    (hnone : s.types.lookup place.canonical = none) (a : Attributes)
    {body : NodeId → ConvertM (List NodeId)}
    (hbody : ∀ t s', lib.Continues s'.library →
      lib.unregistered top s'.types < lib.unregistered top s.types →
        Walks lib annotators bounded s' (body t) fun members s'' => ∀ u ∈ members, lib.IdFree →
          Meets lib s''.graph s''.types (fun parts v => Allows lib parts place schema v) u) :
    Walks lib annotators bounded s (do
      let t ← onGraph (·.fresh (.intersection none) a)
      register place t
      let members ← body t
      tryGraph fun g => (g.setMembers t (.ofList members)).map fun g => (g, t))
      fun t s' => s'.types.lookup place.canonical = some t := by
  obtain ⟨hext, -, -, hshape⟩ := Graph.fresh_spec s.graph (.intersection none) a
  have h₁ : Advances lib s (s.withPlaceholder place.canonical a) :=
    .register hs hext hnone s.graph.size
  have hlookup := (lookup_withPlaceholder s place.canonical place.canonical a).trans (if_pos rfl)
  have hrun := hbody s.graph.size (s.withPlaceholder place.canonical a) h₁.library
    (Library.unregistered_cons_lt (hplace.isPlace.mem_places hmemory) hnone s.graph.size)
  unfold Walks at hrun ⊢
  rw [outcome_withPlaceholder hnone, outcome_bind]
  rcases hresult : outcome (body s.graph.size) (s.withPlaceholder place.canonical a)
    with ⟨e | members, s'⟩
  · rw [hresult] at hrun
    exact ⟨h₁.trans hrun.1, hrun.2⟩
  · rw [hresult] at hrun
    obtain ⟨h₂, hcompletes, hmembers⟩ := hrun
    -- The body was run with the placeholder in the graph and leaves it as it is.
    have hshape' : s'.graph.shape s.graph.size = .intersection none :=
      h₂.graph.shape_eq hshape (by simp)
    obtain ⟨g, hg, hset⟩ := exists_outcome_setMembers (.ofList members) (.inr hshape')
    have hintersection := shape_setMembers_of_intersection hg hshape'
    have hkeeps := keeps_setMembers hg
    have hall := h₁.trans h₂
    dsimp only
    rw [hset]
    refine ⟨⟨h₂.library, hall.uses, hall.graph.setMembers (Nat.le_refl _) hg, hall.types⟩,
      fun hfree r t ht => ?_, h₂.lookup hlookup⟩
    rcases hcompletes hfree r t ht with hr | hcovered
    · rcases eq_or_lookup_of_registered hr with ⟨rfl, rfl⟩ | hold
      · exact .inr (covered_of_members hplace hfree hintersection fun u hu =>
          (hmembers u hu hfree).mono hkeeps fun _ _ h => h)
      · exact .inl hold
    · exact .inr (hcovered.mono hkeeps fun _ _ h => h)

theorem walks_withFound (hs : lib.Continues s.library) {x : Subject}
    (hx : IsSubject annotators x) (a : Attributes) :
    Walks lib annotators bounded s (withFound x a) fun _ s' => s' = s := by
  unfold withFound
  split
  · exact .pure hs rfl
  · split
    · exact .pure hs rfl
    · next cause hcause =>
      refine .throw hs fun _ => .inr ⟨fun hproper => ?_, cause, rfl⟩
      unfold Subject.foundForType at hcause
      split at hcause
      · next hany =>
        obtain ⟨n, hn, hsome⟩ := List.any_eq_true.1 hany
        obtain ⟨annotator, hannotator, hread⟩ := List.mem_filterMap.1 hn
        rw [hx.annotators] at hannotator
        obtain ⟨hunion, hcases⟩ := (hproper annotator hannotator _ _ _ _ n hread).1 rfl
        rw [hunion, hcases] at hsome
        cases hsome
      · cases hcause

theorem walks_convertObject (hmemory : lib.InMemory) (hself : lib.Continues lib)
    (hs : lib.Continues s.library) {schema : List (String × Json)} {place : Place}
    (hplace : Here lib top place (.object schema))
    (hnone : s.types.lookup place.canonical = none)
    (hconvert : ∀ s', lib.Continues s'.library →
      lib.unregistered top s'.types < lib.unregistered top s.types →
        Converts lib top annotators bounded s' convert) (a : Attributes) :
    Walks lib annotators bounded s (convertObject convert annotators schema place a) fun t s' =>
      s'.types.lookup place.canonical = some t := by
  unfold convertObject
  refine (Walks.orRefuse hs).bind ?_
  rintro x _ - ⟨hx, rfl⟩
  obtain ⟨hsubject, rfl, rfl⟩ := isSubject_of_subject hx
  refine (walks_withFound hs hsubject a).bind ?_
  rintro a' _ - rfl
  dsimp only
  exact walks_placeholder hmemory hs hplace hnone _ fun t s' hs' hfewer =>
    walks_memberTypes hmemory hself (hconvert s' hs' hfewer) hs' hplace hsubject t _

theorem Here.withIdOf (hmemory : lib.InMemory) {place : Place} {members : List (String × Json)}
    (h : Here lib top place (.object members)) :
    Here lib top (place.withIdOf members) (.object members) := by
  refine ⟨?_, fun hfree => ?_, ?_⟩
  · rw [Place.canonical_withIdOf]
    exact h.isPlace
  · obtain ⟨e, he, path, hpath⟩ := h.isPlace.exists_mem_nodes hmemory
    rw [Place.withIdOf_of_idFree (hfree e he path members hpath)]
    exact h.plain hfree
  · rw [Place.canonical_withIdOf]
    exact h.value

/-- A place that has no type yet gets one, unless its schema has no parts. -/
theorem walks_convertSchema (hmemory : lib.InMemory) (hself : lib.Continues lib)
    (hs : lib.Continues s.library) {schema : Json} {place : Place}
    (hplace : Here lib top place schema) (hnone : s.types.lookup place.canonical = none)
    (hconvert : ∀ s', lib.Continues s'.library →
      lib.unregistered top s'.types < lib.unregistered top s.types →
        Converts lib top annotators bounded s' convert) (a : Attributes) :
    Walks lib annotators bounded s (convertSchema convert annotators schema place a) fun t s' =>
      s'.types.lookup place.canonical = some t ∨
        s'.types.lookup place.canonical = none ∧ schema = .bool true ∧
          s'.graph.shape t = .primitive .any := by
  cases schema with
  | bool b =>
    cases b with
    | true =>
      obtain ⟨hext, -, hshape⟩ := Graph.share_spec s.graph (.primitive .any) .empty
      exact Walks.onGraph (f := fun g => g.share (.primitive .any) .empty) hs hext
        (.inr ⟨hnone, rfl, hshape⟩)
    | false => exact .refuse hs _
  | object members =>
    have hplace' := hplace.withIdOf hmemory
    have hcanonical := place.canonical_withIdOf members
    have hrun := walks_convertObject hmemory hself hs hplace' (by rw [hcanonical]; exact hnone)
      hconvert
    rw [hcanonical] at hrun
    exact (hrun _).imp fun t s' _ ht => .inl ht
  | _ => exact .refuse hs _

theorem walks_register (hs : lib.Continues s.library) {schema : Json} {place : Place}
    (hplace : Here lib top place schema) {t : NodeId}
    (ht : s.types.lookup place.canonical = some t ∨
      s.types.lookup place.canonical = none ∧ schema = .bool true ∧
        s.graph.shape t = .primitive .any) :
    Walks lib annotators bounded s (register place t) fun _ s' =>
      s'.types.lookup place.canonical = some t := by
  rcases ht with hsome | ⟨hnone, rfl, hshape⟩
  · exact .of_ok (outcome_register_of_some hsome) (.refl hs) (.refl s) hsome
  · refine .of_ok (outcome_register_of_none t hnone) (.register hs (.refl _) hnone t)
      (fun hfree r u hu => ?_) ?_
    · rcases eq_or_lookup_of_registered hu with ⟨rfl, rfl⟩ | hold
      · exact .inr ⟨place, .bool true, rfl, hplace.plain hfree, hplace.value, .of_any hshape _⟩
      · exact .inl hold
    · dsimp only
      rw [SortedMap.lookup_cons_eq, if_pos rfl]

/-- A converter that may go as deep as there are places without a type converts every schema. -/
theorem walks_toType (annotators : List Annotator) (hmemory : lib.InMemory)
    (hself : lib.Continues lib) (depth : Nat) :
    ∀ (s : Conversion) (v : Json) (place : Place) (a : Attributes), lib.Continues s.library →
      Ready lib top s.types place v →
        Walks lib annotators (lib.unregistered top s.types < depth) s
          (toType annotators depth v place a) fun t s' =>
            s'.types.lookup place.canonical = some t := by
  -- Before the converter is run on a part, a place is registered. So the number of places without a
  -- type drops with the depth, and there is room for the part.
  induction depth with
  | zero => exact fun s v place a hs _ => .throw hs fun h => absurd h (Nat.not_lt_zero _)
  | succ depth ih =>
    intro s v place a hs hready
    rw [toType]
    refine Walks.bind (P := fun s' s'' => s = s' ∧ s = s'') (.of_ok rfl (.refl hs) (.refl s)
      ⟨rfl, rfl⟩) ?_
    rintro _ _ - ⟨rfl, rfl⟩
    cases hlookup : s.types.lookup place.canonical with
    | some t => exact .pure hs hlookup
    | none =>
      have hplace := hready.here hlookup
      refine (walks_convertSchema hmemory hself hs hplace hlookup ?_ a).bind
        fun t s₁ h₁ ht => ?_
      · intro s₁ hs₁ hfewer s₂ w place' a' h₂ hready'
        refine (ih s₂ w place' a' h₂.library hready').of_bounded fun hbounded => ?_
        have hle := h₂.unregistered_le top
        omega
      · exact (walks_register h₁.library hplace ht).bind fun _ s₂ h₂ ht =>
          .pure h₂.library ht

end JsonTyping.Conversion
