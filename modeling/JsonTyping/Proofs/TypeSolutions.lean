import JsonTyping.Proofs.MemberSolutions
import JsonTyping.Proofs.SchemaConversion

/-!
# Solutions for schemas

The type of a schema is registered before its members are known. In between its place counts as
unfinished (`Conversion.Solves.placeholder`), and the members that are set in the end are what its
body asks for (`Conversion.Solves.finish`). So a conversion of any depth leaves a graph that solves
the equations, and it fails for what is wrong with the schemas only where the type of the place is
not sound (`Conversion.settles_toType`).
-/

namespace JsonTyping.Conversion

variable {lib : Library} {top : List Step} {annotators : List Annotator}
  {unfinished : List Reference} {mine : List TypeName} {g g' : Graph}
  {types : List (Reference × NodeId)} {s s' : Conversion} {made made' : Made}
  {convert : Converter} {fails : Prop}

/-- A place without a type has no nodes. -/
theorem Solves.none_of_lookup (h : Solves lib annotators unfinished g types made) {r : Reference}
    (hnone : types.lookup r = none) (role : Role) : made ⟨r, role⟩ = none := by
  cases hmade : made ⟨r, role⟩ with
  | none => rfl
  | some t =>
    obtain ⟨u, hu⟩ := h.registered _ t hmade
    cases hu.symm.trans hnone

/-- A place can be registered with the node of its type. -/
theorem Solves.register (h : Solves lib annotators unfinished g types made) {r : Reference}
    {t : NodeId} (ht : (typeAt lib r).Denotes g made t) :
    Solves lib annotators unfinished g ((r, t) :: types) made where
  ownNodes := h.ownNodes
  registered name u hu := by
    rw [SortedMap.lookup_cons_eq]
    split
    · exact ⟨t, rfl⟩
    · exact h.registered name u hu
  types r' u hu := by
    rcases eq_or_lookup_of_registered hu with ⟨rfl, rfl⟩ | hold
    · exact ht
    · exact h.types r' u hold
  bodies := h.bodies

/-- A new node can be registered for a place whose members are not known yet. -/
theorem Solves.placeholder (h : Solves lib annotators unfinished g types made)
    (hg : g.Develops g') {t : NodeId} (hold : g.size ≤ t) (hnew : t < g'.size)
    (hshared : g'.isShared t = false) {r : Reference} (hnone : types.lookup r = none)
    (hnamed : typeAt lib r = .named ⟨r, .whole⟩) :
    Solves lib annotators (r :: unfinished) g' ((r, t) :: types)
      (withNode made ⟨r, .whole⟩ t) where
  ownNodes := ownNodes_withNode h.ownNodes hg hold hnew hshared _
  registered name u hu := by
    rw [SortedMap.lookup_cons_eq]
    split
    · exact ⟨t, rfl⟩
    · next hne =>
      rcases withNode_eq_some hu with ⟨rfl, -⟩ | ⟨-, hmade⟩
      · exact absurd rfl hne
      · exact h.registered name u hmade
  types r' u hu := by
    rcases eq_or_lookup_of_registered hu with ⟨rfl, rfl⟩ | hold
    · rw [hnamed]
      exact withNode_self made _ _
    · exact (h.types r' u hold).mono
        (refines_withNode hg.keepsShared (h.none_of_lookup hnone .whole) t)
  bodies name u hu := by
    rcases withNode_eq_some hu with ⟨rfl, rfl⟩ | ⟨-, hmade⟩
    · exact .inl ⟨rfl, List.mem_cons_self⟩
    · rcases h.bodies name u hmade with ⟨hrole, hmem⟩ | ⟨b, hb, hfits⟩
      · exact .inl ⟨hrole, List.mem_cons_of_mem r hmem⟩
      · refine .inr ⟨b, hb, ?_⟩
        rw [hg.shape u (h.ownNodes.notShared name u hmade).1]
        exact hfits.mono (refines_withNode hg.keepsShared (h.none_of_lookup hnone .whole) t)

/-- A place is finished when its node gets the members that its body asks for. -/
theorem Solves.finish {r : Reference}
    (h : Solves lib annotators (r :: unfinished) g types made) {t : NodeId}
    (ht : made ⟨r, .whole⟩ = some t) {members : SortedSet NodeId}
    (hset : g.setMembers t members = .ok g') {b : TypeBody}
    (hb : body lib annotators ⟨r, .whole⟩ = some b) (hfits : b.Fits g made (g'.shape t)) :
    Solves lib annotators unfinished g' types made := by
  obtain ⟨hsize, hother, -⟩ := Graph.setMembers_spec hset
  have hrefines : Refines g made g' made :=
    ⟨Graph.keepsShared_setMembers hset (h.ownNodes.notShared _ t ht).2, fun _ _ hu => hu⟩
  refine ⟨⟨h.ownNodes.injective, fun name u hu => ?_⟩, h.registered,
    fun r' u hu => (h.types r' u hu).mono hrefines, fun name u hu => ?_⟩
  · rw [hsize, Graph.isShared_setMembers hset]
    exact h.ownNodes.notShared name u hu
  · by_cases hut : u = t
    · subst hut
      obtain rfl := h.ownNodes.injective _ _ u hu ht
      exact .inr ⟨b, hb, hfits.mono hrefines⟩
    · rcases h.bodies name u hu with ⟨hrole, hmem⟩ | ⟨b', hb', hfits'⟩
      · refine .inl ⟨hrole, ?_⟩
        rcases List.mem_cons.1 hmem with hplace | hmem
        · obtain ⟨place, role⟩ := name
          obtain rfl : role = .whole := hrole
          obtain rfl : place = r := hplace
          exact absurd (Option.some.inj (hu.symm.trans ht)) hut
        · exact hmem
      · refine .inr ⟨b', hb', ?_⟩
        rw [hother u hut]
        exact hfits'.mono hrefines

theorem Solved.withPlaceholder (hs : Solved lib annotators unfinished s made) {r : Reference}
    (hnone : s.types.lookup r = none) (hnamed : typeAt lib r = .named ⟨r, .whole⟩)
    (a : Attributes) :
    Solved lib annotators (r :: unfinished) (s.withPlaceholder r a)
      (withNode made ⟨r, .whole⟩ s.graph.size) := by
  have hnew : s.graph.size < (s.graph.fresh (.intersection none) a).1.size := by
    rw [(Graph.fresh_spec s.graph (.intersection none) a).2.2.1]
    exact Nat.lt_succ_self _
  exact ⟨hs.library, hs.solves.placeholder (Graph.develops_fresh s.graph _ a) (Nat.le_refl _) hnew
    (Graph.isShared_fresh s.graph (.intersection none) a) hnone hnamed⟩

theorem Solved.vacant_withPlaceholder (hs : Solved lib annotators unfinished s made)
    {r : Reference} (hnone : s.types.lookup r = none) (a : Attributes) {roles : List Role}
    (hroles : .whole ∉ roles) :
    Vacant (s.withPlaceholder r a) (withNode made ⟨r, .whole⟩ s.graph.size) r roles where
  registered := ⟨s.graph.size, by rw [lookup_withPlaceholder, if_pos rfl]⟩
  unmade role hrole := by
    have hne : (⟨r, role⟩ : TypeName) ≠ ⟨r, .whole⟩ := fun heq =>
      hroles ((TypeName.mk.inj heq).2 ▸ hrole)
    unfold withNode
    rw [Function.update_of_ne hne, hs.solves.none_of_lookup hnone role]

/-- What is added to a state with a placeholder is added to the state before, as all names of the
place are new there. -/
theorem Solved.adds_of_withPlaceholder (hs : Solved lib annotators unfinished s made)
    {r : Reference} (hnone : s.types.lookup r = none) {a : Attributes}
    (hadds : Adds (partNames r) (s.withPlaceholder r a)
      (withNode made ⟨r, .whole⟩ s.graph.size) s' made')
    (hg : s.graph.Develops g) : Adds mine s made { s' with graph := g } made' where
  graph := hg
  kept name t ht :=
    hadds.kept _ _ (withNode_of_made (hs.solves.none_of_lookup hnone .whole) _ _ _ ht)
  types r' t ht := by
    refine hadds.types r' t ?_
    rw [lookup_withPlaceholder, if_neg, ht]
    rintro rfl
    cases ht.symm.trans hnone
  names name t ht := by
    have hnew : name.place = r →
        made name = some t ∨ name ∈ mine ∨ s.types.lookup name.place = none := by
      rintro rfl
      exact .inr (.inr hnone)
    rcases hadds.names name t ht with hmade | hpart | hfree
    · rcases withNode_eq_some hmade with ⟨rfl, -⟩ | ⟨-, hold⟩
      · exact hnew rfl
      · exact .inl hold
    · unfold partNames at hpart
      obtain ⟨role, -, rfl⟩ := List.mem_map.1 hpart
      exact hnew rfl
    · rw [lookup_withPlaceholder] at hfree
      split at hfree
      · cases hfree
      · exact .inr (.inr hfree)

/-- A place without a type is registered with a new node, whose members are found while it counts
as unfinished. -/
theorem produces_placeholder (hs : Solved lib annotators unfinished s made) {place : Place}
    (hnone : s.types.lookup place.canonical = none)
    (hnamed : typeAt lib place.canonical = .named ⟨place.canonical, .whole⟩) (a : Attributes)
    {members : NodeId → ConvertM (List NodeId)}
    (hmembers : ∀ t s' made', Solved lib annotators (place.canonical :: unfinished) s' made' →
      Vacant s' made' place.canonical [.own, .object, .oneOf, .anyOf] →
        Produces lib annotators (place.canonical :: unfinished) (partNames place.canonical) s'
          made' (members t)
          (fun ts s'' made'' => ∃ terms,
            body lib annotators ⟨place.canonical, .whole⟩ = some (.intersection terms) ∧
              DenoteAll s'' made'' terms ts) fails) :
    Produces lib annotators unfinished mine s made (do
      let t ← onGraph (·.fresh (.intersection none) a)
      register place t
      let members ← members t
      tryGraph fun g => (g.setMembers t (.ofList members)).map fun g => (g, t))
      (fun t s' _ => s'.types.lookup place.canonical = some t) fails := by
  have hg : s.graph.Develops (s.withPlaceholder place.canonical a).graph :=
    Graph.develops_fresh s.graph (.intersection none) a
  have hrun := hmembers s.graph.size _ _ (hs.withPlaceholder hnone hnamed a)
    (hs.vacant_withPlaceholder hnone a (by simp))
  rcases hresult : outcome (members s.graph.size) (s.withPlaceholder place.canonical a)
    with ⟨e | ts, s'⟩
  · obtain ⟨hg', hfails⟩ := hrun.error hresult
    refine .of_error ((outcome_withPlaceholder hnone a _).trans ?_) (hg.trans hg') hfails
    rw [outcome_bind, hresult]
  · obtain ⟨made', hadds, hs', terms, hbody, hterms⟩ := hrun.ok hresult
    have hmade : made' ⟨place.canonical, .whole⟩ = some s.graph.size :=
      hadds.kept _ _ (withNode_self made _ _)
    -- The node of the place is the placeholder still.
    have hshape : s'.graph.shape s.graph.size = .intersection none :=
      hadds.graph.shape_eq (Graph.fresh_spec s.graph (.intersection none) a).2.2.2 (by simp)
    obtain ⟨g, hset, hrest⟩ := exists_outcome_setMembers (.ofList ts) (.inr hshape)
    have hfits : (TypeBody.intersection terms).Fits s'.graph made' (g.shape s.graph.size) := by
      rw [shape_setMembers_of_intersection hset hshape]
      exact TypeBody.fits_intersection hterms
    refine .of_ok ((outcome_withPlaceholder hnone a _).trans
        ((outcome_bind_of_ok hresult _).trans hrest))
      (hs.adds_of_withPlaceholder hnone hadds
        ((hg.trans hadds.graph).setMembers (Nat.le_refl _) hset))
      ⟨hs'.library, hs'.solves.finish hmade hset hbody hfits⟩ (hadds.types _ _ ?_)
    rw [lookup_withPlaceholder, if_pos rfl]

/-! ### Schemas -/

/-- A list of types is refused for one of its names. -/
theorem exists_of_listed_error {f : String → Except SchemaError JsonType} {names : List String}
    {error : SchemaError}
    (h : (do let types ← names.mapM f; pure (SortedSet.ofList types)) = Except.error error) :
    ∃ name, f name = .error error := by
  cases htypes : names.mapM f with
  | ok types =>
    rw [htypes] at h
    cases h
  | error e =>
    rw [htypes] at h
    obtain rfl := Except.error.inj h
    obtain ⟨name, -, hname⟩ := exists_of_mapM_eq_error htypes
    exact ⟨name, hname⟩

/-- No error of a list of types stops a batch. -/
theorem isFatal_typeList {place : Reference} {v : Json} {error : SchemaError}
    (h : typeList place v = .error error) : error.isFatal = false := by
  unfold typeList at h
  cases v with
  | string name =>
    obtain ⟨name, hname⟩ := exists_of_listed_error h
    split at hname
    · cases hname
    · cases hname
      rfl
  | array items =>
    dsimp only at h
    cases hnames : items.mapM Json.string? with
    | none =>
      rw [hnames] at h
      cases h
      rfl
    | some names =>
      rw [hnames] at h
      obtain ⟨name, hname⟩ := exists_of_listed_error h
      split at hname
      · cases hname
      · cases hname
        rfl
  | _ =>
    cases h
    rfl

theorem isFatal_subject {schema : List (String × Json)} {place : Place} {error : SchemaError}
    (h : subject annotators schema place = .error error) : error.isFatal = false := by
  unfold subject at h
  cases hlookup : schema.lookup "type" with
  | none =>
    rw [hlookup] at h
    cases h
  | some v =>
    cases hlist : typeList place.canonical v with
    | error e =>
      simp only [hlookup, hlist] at h
      obtain rfl := Except.error.inj h
      exact isFatal_typeList hlist
    | ok types =>
      simp only [hlookup, hlist] at h
      cases h
theorem produces_withFound (hs : Solved lib annotators unfinished s made) (x : Subject)
    (a : Attributes) :
    Produces lib annotators unfinished mine s made (withFound x a)
      (fun _ s' made' => s' = s ∧ made' = made) fails := by
  unfold withFound
  split
  · exact .pure hs ⟨rfl, rfl⟩
  · split
    · exact .pure hs ⟨rfl, rfl⟩
    · exact .misuse _

theorem not_sound_of_body_eq_none {name : TypeName} (h : body lib annotators name = none) :
    ¬ Sound lib annotators name := by
  intro hsound
  obtain ⟨b, hb, -⟩ := hsound.exists_body
  cases h.symm.trans hb

theorem produces_convertObject (hmemory : lib.InMemory) (hself : lib.Continues lib)
    (hfree : lib.IdFree) {store : Store} (hstore : lib.store = some store)
    (h : ∀ unfinished, Settles lib top annotators unfinished convert)
    (hs : Solved lib annotators unfinished s made) {schema : List (String × Json)}
    {place : Place} (hplace : Here lib top place (.object schema))
    (hnone : s.types.lookup place.canonical = none)
    (hfails : ¬ Sound lib annotators ⟨place.canonical, .whole⟩ → fails) (a : Attributes) :
    Produces lib annotators unfinished mine s made (convertObject convert annotators schema place a)
      (fun t s' _ => s'.types.lookup place.canonical = some t) fails := by
  unfold convertObject
  refine (Produces.orRefuse hs fun error herror => ⟨isFatal_subject herror, hfails ?_⟩).bind ?_
  · refine not_sound_of_body_eq_none ?_
    rw [(hplace.plain hfree).1] at herror
    simp only [body, hplace.value, herror]
  rintro x _ _ - - ⟨hx, rfl, rfl⟩
  obtain ⟨-, rfl, rfl⟩ := isSubject_of_subject hx
  refine (produces_withFound hs x a).bind ?_
  rintro a' s made - - ⟨rfl, rfl⟩
  dsimp only
  have hbody : body lib annotators ⟨x.place.canonical, .whole⟩ = wholeBody lib x :=
    body_eq (hplace.plain hfree) hplace.value hx .whole
  refine produces_placeholder hs hnone (typeAt_of_ne hplace.value (by simp)) _
    fun t s' made' hs' hvacant => ?_
  rw [hbody]
  exact produces_memberTypes hmemory hself hfree hstore (h _) hs' hplace hx hvacant hfails t _

/-- A place without a type gets one, unless its schema has no parts; then its type is known. -/
theorem produces_convertSchema (hmemory : lib.InMemory) (hself : lib.Continues lib)
    (hfree : lib.IdFree) {store : Store} (hstore : lib.store = some store)
    (h : ∀ unfinished, Settles lib top annotators unfinished convert)
    (hs : Solved lib annotators unfinished s made) {schema : Json} {place : Place}
    (hplace : Here lib top place schema) (hnone : s.types.lookup place.canonical = none)
    (a : Attributes) :
    Produces lib annotators unfinished mine s made (convertSchema convert annotators schema place a)
      (fun t s' made' => s'.types.lookup place.canonical = some t ∨
        s'.types.lookup place.canonical = none ∧
          (typeAt lib place.canonical).Denotes s'.graph made' t)
      (¬ (typeAt lib place.canonical).All (Sound lib annotators)) := by
  have hunsound : schema ≠ .bool true → (∀ members, schema ≠ .object members) →
      ¬ (typeAt lib place.canonical).All (Sound lib annotators) := by
    intro htrue hobject
    rw [typeAt_of_ne hplace.value htrue]
    refine not_sound_of_body_eq_none (body_eq_none (fun members hmembers => ?_) .whole)
    exact hobject members (Option.some.inj (hplace.value.symm.trans hmembers))
  cases schema with
  | bool b =>
    cases b with
    | true =>
      refine Produces.onGraph (f := fun g => g.share (.primitive .any) .empty) hs
        (Graph.develops_share s.graph _ _) (.inr ⟨hnone, ?_⟩)
      rw [typeAt_of_true hplace.value]
      exact Graph.shared?_share s.graph (.primitive .any) .empty
    | false => exact .refuse rfl (hunsound (by simp) (by simp))
  | object members =>
    have hplace' := hplace.withIdOf hmemory
    have hcanonical := place.canonical_withIdOf members
    have hrun : ∀ a, Produces lib annotators unfinished mine s made
        (convertObject convert annotators members (place.withIdOf members) a)
        (fun t s' _ => s'.types.lookup (place.withIdOf members).canonical = some t)
        (¬ (typeAt lib place.canonical).All (Sound lib annotators)) := by
      refine produces_convertObject hmemory hself hfree hstore h hs hplace' ?_ fun hunsound => ?_
      · rw [hcanonical]
        exact hnone
      · rw [typeAt_of_ne hplace.value (by simp)]
        rw [hcanonical] at hunsound
        exact hunsound
    rw [hcanonical] at hrun
    exact (hrun _).imp fun t s' _ _ _ ht => .inl ht
  | _ => exact .refuse rfl (hunsound (by simp) (by simp))

theorem produces_register (hs : Solved lib annotators unfinished s made) {place : Place}
    {t : NodeId} (ht : s.types.lookup place.canonical = some t ∨
      s.types.lookup place.canonical = none ∧
        (typeAt lib place.canonical).Denotes s.graph made t) :
    Produces lib annotators unfinished mine s made (register place t)
      (fun _ s' _ => s'.types.lookup place.canonical = some t) fails := by
  rcases ht with hsome | ⟨hnone, hdenotes⟩
  · exact .of_ok (outcome_register_of_some hsome) (.refl s made) hs hsome
  · have hlookup : ∀ r, ((place.canonical, t) :: s.types).lookup r =
        if r = place.canonical then some t else s.types.lookup r :=
      fun r => SortedMap.lookup_cons_eq ..
    refine .of_ok (outcome_register_of_none t hnone)
      ⟨.refl s.graph, fun _ _ hu => hu, fun r u hu => ?_, fun _ _ hu => .inl hu⟩
      ⟨hs.library, hs.solves.register hdenotes⟩ ?_
    · dsimp only
      rw [hlookup, if_neg, hu]
      rintro rfl
      cases hu.symm.trans hnone
    · dsimp only
      rw [hlookup, if_pos rfl]

/-- A converter of any depth registers the type of every place it is called for. When it fails for
what is wrong with the schemas, the type is not sound. -/
theorem settles_toType (annotators : List Annotator) (hmemory : lib.InMemory)
    (hself : lib.Continues lib) (hfree : lib.IdFree) {store : Store}
    (hstore : lib.store = some store) (depth : Nat) :
    ∀ unfinished, Settles lib top annotators unfinished (toType annotators depth) := by
  -- The parts of a schema are converted with less depth, and with one more place unfinished.
  induction depth with
  | zero => exact fun unfinished s made v place a _ _ => .of_error rfl (.refl s.graph) nofun
  | succ depth ih =>
    intro unfinished s made v place a hs hready
    rw [toType]
    refine Produces.bind (P := fun s' s'' made' => s = s' ∧ s = s'' ∧ made = made')
      (.of_ok rfl (.refl s made) hs ⟨rfl, rfl, rfl⟩) ?_
    rintro _ _ _ - - ⟨rfl, rfl, rfl⟩
    cases hlookup : s.types.lookup place.canonical with
    | some t => exact .pure hs hlookup
    | none =>
      have hplace := hready.here hlookup
      refine (produces_convertSchema hmemory hself hfree hstore ih hs hplace hlookup a).bind
        fun t s₁ made₁ _ hs₁ ht => ?_
      exact (produces_register hs₁ ht).bind fun _ s₂ made₂ _ hs₂ ht => .pure hs₂ ht

end JsonTyping.Conversion
