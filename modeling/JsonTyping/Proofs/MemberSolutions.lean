import JsonTyping.Proofs.PartSolutions

/-!
# Solutions for the members of a schema

The members of the type of a schema are those that its body asks for: the union of what the schema
admits itself, the target of its reference, its `allOf` cases, and the unions of its `oneOf` and
`anyOf` cases. Each union is made for a name of its own.
-/

namespace JsonTyping.Conversion

variable {lib : Library} {top : List Step} {annotators : List Annotator}
  {unfinished : List Reference} {mine : List TypeName} {s : Conversion} {made : Made}
  {convert : Converter} {x : Subject} {fails : Prop}

/-- The nodes are those of the terms. -/
abbrev DenoteAll (s : Conversion) (made : Made) (terms : List TypeTerm) (ts : List NodeId) : Prop :=
  List.Forall₂ (fun term t => term.Denotes s.graph made t) terms ts

theorem denoteAll_of_simple {types : List SimpleType} {ts : List NodeId}
    (h : List.Forall₂ (fun type t => type.Denotes s.graph made t) types ts) :
    DenoteAll s made (types.map .simple) ts :=
  List.forall₂_map_left_iff.2 h

/-- Steps that make nodes for some roles of a place leave its other roles vacant. -/
theorem Vacant.afterRoles {s' : Conversion} {made' : Made} {r : Reference} {roles : List Role}
    (h : Vacant s made r roles) (taken : List Role)
    (hadds : Adds (taken.map (⟨r, ·⟩)) s made s' made') (hroles : ∀ role ∈ roles, role ∉ taken) :
    Vacant s' made' r roles := by
  refine h.adds hadds fun role hrole hmem => hroles role hrole ?_
  obtain ⟨role', htaken, heq⟩ := List.mem_map.1 hmem
  exact (TypeName.mk.inj heq).2 ▸ htaken

theorem produces_primitiveTypes (hs : Solved lib annotators unfinished s made) :
    Produces lib annotators unfinished mine s made (primitiveTypes x)
      (fun ts s' made' => List.Forall₂ (fun (type : SimpleType) t => type.Denotes s'.graph made' t)
        (x.limits.primitives.map .primitive) ts) fails := by
  unfold primitiveTypes
  dsimp only
  refine (Produces.mapM (R := fun p t s' _ => s'.graph.shared? (.primitive p) = some t)
    (fun p t s₁ made₁ s₂ made₂ hadds ht => hadds.graph.keepsShared.shared? ht) hs
    fun p _ s₁ made₁ _ hs₁ => .share hs₁ (.primitive p) _).imp fun ts s₁ made₁ _ _ hts => ?_
  rw [List.forall₂_map_left_iff]
  exact hts

theorem produces_stringTypes (hs : Solved lib annotators unfinished s made) (names : Attributes) :
    Produces lib annotators unfinished mine s made (stringTypes x names)
      (fun ts s' made' => List.Forall₂ (fun type t => type.Denotes s'.graph made' t)
        (textTypes x) ts) fails := by
  unfold stringTypes textTypes
  dsimp only
  cases x.limits.cases? with
  | some cases =>
    exact .map ((Produces.share hs (.enumeration cases) _).imp fun t s₁ made₁ _ _ ht =>
      .cons ht .nil)
  | none =>
    dsimp only
    split
    · exact .map ((Produces.share hs (.primitive x.stringKind) _).imp fun t s₁ made₁ _ _ ht =>
        .cons ht .nil)
    · exact .pure hs .nil

theorem produces_objectTypes (hfree : lib.IdFree)
    (h : Settles lib top annotators unfinished convert)
    (hs : Solved lib annotators unfinished s made)
    (hx : Here lib top x.place (.object x.schema))
    (hsubject : subject annotators x.schema x.place = .ok x)
    (hvacant : Vacant s made x.place.canonical [.object])
    (hfails : ¬ (∀ term ∈ objectTerms x, term.All (Sound lib annotators)) → fails)
    (a : Attributes) :
    Produces lib annotators unfinished [⟨x.place.canonical, .object⟩] s made
      (containerTypes x .object (objectType convert x a))
      (fun ts s' made' => DenoteAll s' made' (objectTerms x) ts) fails := by
  unfold containerTypes
  unfold objectTerms at hfails ⊢
  split
  · next hcontainer =>
    rw [if_pos hcontainer] at hfails
    refine .map ((produces_objectType hfree h hs hx hsubject hvacant (fun hunsound => hfails ?_)
      a).imp fun t s₁ made₁ _ _ ht => .cons ht .nil)
    exact fun hall => hunsound (hall _ (List.mem_singleton_self _))
  · exact .pure hs .nil

theorem produces_ownUnion (hfree : lib.IdFree) (h : Settles lib top annotators unfinished convert)
    (hs : Solved lib annotators unfinished s made)
    (hx : Here lib top x.place (.object x.schema))
    (hsubject : subject annotators x.schema x.place = .ok x)
    (hvacant : Vacant s made x.place.canonical [.own, .object])
    (hfails : ¬ Sound lib annotators ⟨x.place.canonical, .own⟩ → fails)
    (names inferred : Attributes) :
    Produces lib annotators unfinished [⟨x.place.canonical, .own⟩, ⟨x.place.canonical, .object⟩]
      s made (ownUnion convert x names inferred)
      (fun t _ made' => made' ⟨x.place.canonical, .own⟩ = some t) fails := by
  have hbody : body lib annotators ⟨x.place.canonical, .own⟩ = ownBody lib x :=
    body_eq (hx.plain hfree) hx.value hsubject .own
  have hparts : Sound lib annotators ⟨x.place.canonical, .own⟩ →
      SoundTerms lib annotators (arrayTerms lib x) ∧
        ∀ term ∈ objectTerms x, term.All (Sound lib annotators) := by
    intro hsound
    obtain ⟨b, hb, hall⟩ := hsound.exists_body
    exact soundTerms_of_own (hbody.symm.trans hb) hall
  unfold ownUnion
  refine Produces.bindElsewhere (produces_primitiveTypes hs)
    fun primitives s₁ made₁ h₁ hs₁ hprimitives => ?_
  refine Produces.bindElsewhere (produces_stringTypes hs₁ names)
    fun strings s₂ made₂ h₂ hs₂ hstrings => ?_
  refine Produces.bindElsewhere (produces_arrayTypes h hs₂ hx
    (fun hunsound => hfails fun hsound => hunsound (hparts hsound).1) names)
    fun arrays s₃ made₃ h₃ hs₃ ⟨terms, hterms, harrays⟩ => ?_
  have hvacant₃ := ((hvacant.elsewhere h₁).elsewhere h₂).elsewhere h₃
  refine Produces.bindWith (fun name hname => List.mem_cons_of_mem _ hname)
    (produces_objectTypes hfree h hs₃ hx hsubject
      (hvacant₃.weaken (by decide))
      (fun hunsound => hfails fun hsound => hunsound (hparts hsound).2) names)
    fun objects s₄ made₄ h₄ hs₄ hobjects => ?_
  have hvacant₄ : Vacant s₄ made₄ x.place.canonical [.own] :=
    (hvacant₃.weaken (by decide)).afterRoles [.object] h₄ (by decide)
  have hrefines := (h₂.refines.trans (h₃.refines.trans h₄.refines))
  have hscalars : DenoteAll s₄ made₄ ((scalarTypes x).map .simple) (primitives ++ strings) :=
    denoteAll_of_simple (List.rel_append (forall₂_denotes_mono hrefines hprimitives)
      (forall₂_denotes_mono (h₃.refines.trans h₄.refines) hstrings))
  have hmembers : DenoteAll s₄ made₄ ((scalarTypes x).map .simple ++ terms ++ objectTerms x)
      (primitives ++ strings ++ arrays ++ objects) :=
    List.rel_append (List.rel_append hscalars (forall₂_terms_mono h₄.refines harrays)) hobjects
  refine Produces.fresh hs₄ List.mem_cons_self hvacant₄ ?_ (TypeBody.fits_union hmembers) inferred
  rw [hbody, ownBody, hterms]
  rfl

theorem produces_ownTypes (hfree : lib.IdFree) (h : Settles lib top annotators unfinished convert)
    (hs : Solved lib annotators unfinished s made)
    (hx : Here lib top x.place (.object x.schema))
    (hsubject : subject annotators x.schema x.place = .ok x)
    (hvacant : Vacant s made x.place.canonical [.own, .object])
    (hfails : ¬ (x.needsUnion = true → Sound lib annotators ⟨x.place.canonical, .own⟩) → fails)
    (names inferred : Attributes) :
    Produces lib annotators unfinished [⟨x.place.canonical, .own⟩, ⟨x.place.canonical, .object⟩]
      s made (ownTypes convert x names inferred)
      (fun ts s' made' => DenoteAll s' made' (roleTerms x x.needsUnion .own) ts) fails := by
  unfold ownTypes roleTerms
  split
  · next hneeds =>
    exact .map ((produces_ownUnion hfree h hs hx hsubject hvacant
      (fun hunsound => hfails fun hsound => hunsound (hsound hneeds)) names inferred).imp
        fun t s₁ made₁ _ _ ht => .cons ht .nil)
  · exact .pure hs .nil

/-! ### Parts that a schema may lack -/

/-- A step for a part, if the schema has it. -/
theorem Produces.mapM_toList {α β : Type} {f : α → ConvertM β} {o : Option α}
    {Q : List β → Conversion → Made → Prop} (hs : Solved lib annotators unfinished s made)
    (hnone : o = none → Q [] s made)
    (hsome : ∀ a, o = some a → Produces lib annotators unfinished mine s made (f a)
      (fun b s' made' => Q [b] s' made') fails) :
    Produces lib annotators unfinished mine s made (o.toList.mapM f) Q fails := by
  cases o with
  | none => exact .pure hs (hnone rfl)
  | some a =>
    rw [Option.toList_some, List.mapM_cons, List.mapM_nil]
    exact (hsome a rfl).bind fun b s₁ made₁ _ hs₁ hb => .pure hs₁ hb

/-- A reference is resolved as it would be before anything else was. -/
theorem produces_resolve (hmemory : lib.InMemory) (hself : lib.Continues lib)
    (hfree : lib.IdFree) {store : Store} (hstore : lib.store = some store)
    (hs : Solved lib annotators unfinished s made) (place : Place) (r : Reference)
    (hfails : (∀ found, (outcome (Library.resolve place r) lib).1 ≠ .ok found) →
      fails) :
    Produces lib annotators unfinished mine s made
      (onLibrary (Library.resolve place r))
      (fun found _ _ => (outcome (Library.resolve place r) lib).1 = .ok found ∧
        Library.Finds lib place r found) fails := by
  have hanswer := Library.resolve_eq_of_idFree hmemory hfree hself hs.library place r
  obtain ⟨result, library, hrun, hlibrary, hends⟩ :=
    hs.library.resolve hmemory place r
  have hboth := outcome_onLibrary (Library.resolve place r) s
  rw [hrun] at hanswer hboth
  cases result with
  | error e =>
    refine .of_error hboth (.refl s.graph) ?_
    rintro error rfl
    refine ⟨Library.isFatal_resolve hmemory hfree hself hstore hanswer, hfails fun found => ?_⟩
    rw [hanswer]
    exact nofun
  | ok found =>
    exact .of_ok hboth ⟨.refl s.graph, fun _ _ ht => ht, fun _ _ ht => ht, fun _ _ ht => .inl ht⟩
      ⟨hlibrary, hs.solves⟩ ⟨hanswer, hends⟩

theorem produces_targetTypes (hmemory : lib.InMemory) (hself : lib.Continues lib)
    (hfree : lib.IdFree) {store : Store} (hstore : lib.store = some store)
    (h : Settles lib top annotators unfinished convert)
    (hs : Solved lib annotators unfinished s made)
    (hx : Here lib top x.place (.object x.schema))
    (hfails : ¬ SoundTerms lib annotators (targetTerms lib x) → fails) (own : Attributes) :
    Produces lib annotators unfinished mine s made
      ((x.get? "$ref").toList.mapM (targetType convert x own))
      (fun ts s' made' => ∃ terms, targetTerms lib x = some terms ∧ DenoteAll s' made' terms ts)
      fails := by
  refine .mapM_toList hs (fun hnone => ⟨[], by simp only [targetTerms, hnone], .nil⟩)
    fun target htarget => ?_
  unfold targetType
  cases target with
  | string text =>
    refine (produces_resolve hmemory hself hfree hstore hs x.place (.parse text)
      fun hnone => hfails ?_).bind ?_
    · rintro ⟨terms, hterms, -⟩
      unfold targetTerms at hterms
      rw [htarget] at hterms
      dsimp only at hterms
      split at hterms
      · next found hfound => exact hnone found hfound
      · cases hterms
    · rintro found s₁ made₁ - hs₁ ⟨hanswer, hfinds⟩
      have hterms : targetTerms lib x = some [.simple (typeAt lib found.place.canonical)] := by
        simp only [targetTerms, htarget, hanswer]
      obtain ⟨v, hv, hvalue⟩ := hfinds.value?
      have hplace := hx.target hmemory htarget hfinds hvalue
      rw [hv]
      refine (h.ready hs₁ (hplace.ready s₁.types) (fun hunsound => hfails ?_) _).imp
        fun t s₂ made₂ _ hs₂ ht => ⟨_, hterms, .cons (hs₂.solves.types _ t ht) .nil⟩
      rintro ⟨terms, hterms', hall⟩
      obtain rfl := Option.some.inj (hterms.symm.trans hterms')
      exact hunsound (hall _ (List.mem_singleton_self _))
  | _ =>
    refine .refuse rfl (hfails ?_)
    rintro ⟨terms, hterms, -⟩
    simp only [targetTerms, htarget, reduceCtorEq] at hterms

theorem produces_caseTypes (h : Settles lib top annotators unfinished convert)
    (hs : Solved lib annotators unfinished s made)
    (hx : Here lib top x.place (.object x.schema)) {keyword : String} {cases : Json}
    (hcases : x.get? keyword = some cases)
    (hfails : ¬ (∃ types, caseList lib x keyword = some types ∧
      ∀ type ∈ types, type.All (Sound lib annotators)) → fails) (a : Attributes) :
    Produces lib annotators unfinished mine s made (caseTypes convert x keyword a cases)
      (fun ts s' made' => ∃ list, cases = .array list ∧ ts.length = list.length ∧
        ∃ types, caseList lib x keyword = some types ∧
          List.Forall₂ (fun type t => type.Denotes s'.graph made' t) types ts) fails := by
  unfold caseTypes
  cases cases with
  | array list =>
    have htypes : caseList lib x keyword =
        some (typesAt lib (x.place.canonical.push keyword) list) := by
      simp only [caseList, hcases]
    refine (produces_convertCases h hs (hx.member hcases) (fun hunsound => hfails ?_) a).imp
      fun ts s₁ made₁ _ hs₁ hts => ⟨list, rfl, hts.length_eq, _, htypes, hts.denotes hs₁⟩
    rintro ⟨types, htypes', hall⟩
    obtain rfl := Option.some.inj (htypes.symm.trans htypes')
    exact hunsound hall
  | _ =>
    refine .refuse rfl (hfails ?_)
    rintro ⟨types, htypes, -⟩
    simp only [caseList, hcases, reduceCtorEq] at htypes

theorem produces_allTypes (h : Settles lib top annotators unfinished convert)
    (hs : Solved lib annotators unfinished s made)
    (hx : Here lib top x.place (.object x.schema))
    (hfails : ¬ SoundTerms lib annotators (allTerms lib x) → fails) (a : Attributes) :
    Produces lib annotators unfinished mine s made
      ((x.get? "allOf").toList.mapM (caseTypes convert x "allOf" a))
      (fun ts s' made' => ∃ terms, allTerms lib x = some terms ∧
        DenoteAll s' made' terms ts.flatten) fails := by
  refine .mapM_toList hs (fun hnone => ⟨[], ?_, .nil⟩) fun cases hcases => ?_
  · simp only [allTerms, Subject.has, hnone, Option.isSome_none, Bool.false_eq_true, if_false]
  · have hall : allTerms lib x = (caseList lib x "allOf").map fun types => types.map .simple := by
      simp only [allTerms, Subject.has, hcases, Option.isSome_some, if_true]
    refine (produces_caseTypes h hs hx hcases (fun hunsound => hfails ?_) a).imp ?_
    · rintro ⟨terms, hterms, hsound⟩
      rw [hall] at hterms
      obtain ⟨types, htypes, rfl⟩ := Option.map_eq_some_iff.1 hterms
      exact hunsound ⟨types, htypes, fun type htype => hsound _ (List.mem_map.2 ⟨type, htype, rfl⟩)⟩
    · rintro ts s₁ made₁ - - ⟨list, -, -, types, htypes, hts⟩
      refine ⟨types.map .simple, by rw [hall, htypes]; rfl, ?_⟩
      rw [List.flatten_singleton]
      exact denoteAll_of_simple hts

theorem produces_addAttributes (hs : Solved lib annotators unfinished s made) (t : NodeId)
    (a : Attributes) :
    Produces lib annotators unfinished mine s made (onGraph fun g => (g.addAttributes t a, ()))
      (fun _ _ _ => True) fails :=
  .onGraph hs (Graph.develops_addAttributes s.graph t a) trivial

theorem produces_annotateChoice (hs : Solved lib annotators unfinished s made) (t : NodeId)
    (types : List NodeId) (l : List Annotation) (ofUnion : Attributes) :
    Produces lib annotators unfinished mine s made (annotateChoice t types ofUnion l)
      (fun _ _ _ => True) fails := by
  induction l generalizing s made ofUnion with
  | nil => exact .pure hs trivial
  | cons n l ih =>
    rw [annotateChoice]
    refine (Produces.forM_option hs fun a _ => produces_addAttributes hs t a).bind
      fun _ s₁ made₁ _ hs₁ _ => ?_
    refine (Produces.forM_option hs₁ fun found _ => ?_).bind fun _ s₂ made₂ _ hs₂ _ => ih hs₂ _
    unfold annotateCases
    split
    · exact .forM hs₁ fun e _ s' made' hs' => produces_addAttributes hs' e.1 e.2
    · exact .misuse _

theorem produces_choiceType (hfree : lib.IdFree)
    (h : Settles lib top annotators unfinished convert)
    (hs : Solved lib annotators unfinished s made)
    (hx : Here lib top x.place (.object x.schema))
    (hsubject : subject annotators x.schema x.place = .ok x) {keyword : String} (role : Role)
    (hrole : bodyOf lib x role = choiceBody lib x keyword)
    (hvacant : Vacant s made x.place.canonical [role]) {cases : Json}
    (hcases : x.get? keyword = some cases)
    (hfails : ¬ Sound lib annotators ⟨x.place.canonical, role⟩ → fails) (t : NodeId)
    (inferred : Attributes) :
    Produces lib annotators unfinished [⟨x.place.canonical, role⟩] s made
      (choiceType convert x t inferred keyword cases)
      (fun u _ made' => made' ⟨x.place.canonical, role⟩ = some u) fails := by
  have hbody : body lib annotators ⟨x.place.canonical, role⟩ = choiceBody lib x keyword :=
    (body_eq (hx.plain hfree) hx.value hsubject role).trans hrole
  unfold choiceType
  refine Produces.bindElsewhere
    (produces_caseTypes h hs hx hcases (fun hunsound => hfails fun hsound => ?_) _) ?_
  · obtain ⟨b, hb, hall⟩ := hsound.exists_body
    obtain ⟨types, htypes, rfl⟩ := Option.map_eq_some_iff.1 (hbody.symm.trans hb)
    exact hunsound ⟨types, htypes, fun type htype => hall _ (List.mem_map.2 ⟨type, htype, rfl⟩)⟩
  rintro ts s₁ made₁ h₁ hs₁ ⟨list, -, -, types, htypes, hts⟩
  dsimp only
  refine Produces.bindElsewhere (produces_annotateChoice hs₁ t ts _ inferred)
    fun a s₂ made₂ h₂ hs₂ _ => ?_
  have hmembers : DenoteAll s₂ made₂ (types.map .simple) ts :=
    denoteAll_of_simple (forall₂_denotes_mono h₂.refines hts)
  refine Produces.freshUnion hs₂ (List.mem_singleton_self _)
    ((hvacant.elsewhere h₁).elsewhere h₂) ?_ (TypeBody.fits_union hmembers) a
  rw [hbody, choiceBody, htypes]
  rfl

theorem produces_choiceTypes (hfree : lib.IdFree)
    (h : Settles lib top annotators unfinished convert)
    (hs : Solved lib annotators unfinished s made)
    (hx : Here lib top x.place (.object x.schema))
    (hsubject : subject annotators x.schema x.place = .ok x) {keyword : String} (role : Role)
    (hrole : bodyOf lib x role = choiceBody lib x keyword)
    (hvacant : Vacant s made x.place.canonical [role])
    (hfails : ¬ (x.has keyword = true → Sound lib annotators ⟨x.place.canonical, role⟩) → fails)
    (t : NodeId) (inferred : Attributes) :
    Produces lib annotators unfinished [⟨x.place.canonical, role⟩] s made
      ((x.get? keyword).toList.mapM (choiceType convert x t inferred keyword))
      (fun ts s' made' => DenoteAll s' made' (roleTerms x (x.has keyword) role) ts) fails := by
  refine .mapM_toList hs (fun hnone => ?_) fun cases hcases => ?_
  · have hlacks : x.has keyword = false := by rw [Subject.has, hnone]; rfl
    rw [hlacks]
    exact .nil
  · have hhas : x.has keyword = true := by rw [Subject.has, hcases]; rfl
    rw [hhas]
    exact (produces_choiceType hfree h hs hx hsubject role hrole hvacant hcases
      (fun hunsound => hfails fun hsound => hunsound (hsound hhas)) t inferred).imp
        fun u s₁ made₁ _ _ hu => .cons hu .nil

/-! ### All members -/

/-- The names of the nodes that are made for parts of a place. -/
def partNames (r : Reference) : List TypeName :=
  [Role.own, .object, .oneOf, .anyOf].map (⟨r, ·⟩)

/-- The terms that the keywords of a schema ask for. -/
def memberTerms (x : Subject) (targets alls : List TypeTerm) : List TypeTerm :=
  roleTerms x x.needsUnion .own ++ targets ++ alls
    ++ roleTerms x (x.has "oneOf") .oneOf ++ roleTerms x (x.has "anyOf") .anyOf

theorem wholeBody_eq {targets alls : List TypeTerm} (htargets : targetTerms lib x = some targets)
    (halls : allTerms lib x = some alls) :
    wholeBody lib x = some (.intersection
      (if (memberTerms x targets alls).isEmpty then [.simple anything]
        else memberTerms x targets alls)) := by
  unfold wholeBody memberTerms
  rw [htargets, halls]

/-- Where the type of a schema is sound, so are the members that its keywords ask for. -/
theorem parts_of_sound_whole (hfree : lib.IdFree)
    (hx : Here lib top x.place (.object x.schema))
    (hsubject : subject annotators x.schema x.place = .ok x)
    (h : Sound lib annotators ⟨x.place.canonical, .whole⟩) :
    (x.needsUnion = true → Sound lib annotators ⟨x.place.canonical, .own⟩) ∧
      SoundTerms lib annotators (targetTerms lib x) ∧ SoundTerms lib annotators (allTerms lib x) ∧
      (x.has "oneOf" = true → Sound lib annotators ⟨x.place.canonical, .oneOf⟩) ∧
      (x.has "anyOf" = true → Sound lib annotators ⟨x.place.canonical, .anyOf⟩) := by
  obtain ⟨b, hb, hall⟩ := h.exists_body
  exact soundTerms_of_whole
    ((body_eq (hx.plain hfree) hx.value hsubject .whole).symm.trans hb) hall

/-- A schema whose keywords ask for nothing has the type of any value as its only member. -/
theorem produces_someMembers (hs : Solved lib annotators unfinished s made)
    {targets alls : List TypeTerm} (htargets : targetTerms lib x = some targets)
    (halls : allTerms lib x = some alls) {members : List NodeId}
    (hmembers : DenoteAll s made (memberTerms x targets alls) members) :
    Produces lib annotators unfinished mine s made
      (if members.isEmpty then (fun u => [u]) <$> anyType else pure members)
      (fun members s' made' => ∃ terms, wholeBody lib x = some (.intersection terms) ∧
        DenoteAll s' made' terms members) fails := by
  have hwhole := wholeBody_eq htargets halls
  rw [← isEmpty_eq_of_length hmembers.length_eq]
  split
  · next hempty =>
    rw [if_pos hempty] at hwhole
    exact .map ((Produces.anyType hs).imp fun u s₁ made₁ _ _ hu => ⟨_, hwhole, .cons hu .nil⟩)
  · next hne =>
    rw [if_neg hne] at hwhole
    exact .pure hs ⟨_, hwhole, hmembers⟩

/-- The members of the type of a schema are those that its body asks for. -/
theorem produces_memberTypes (hmemory : lib.InMemory) (hself : lib.Continues lib)
    (hfree : lib.IdFree) {store : Store} (hstore : lib.store = some store)
    (h : Settles lib top annotators unfinished convert)
    (hs : Solved lib annotators unfinished s made)
    (hx : Here lib top x.place (.object x.schema))
    (hsubject : subject annotators x.schema x.place = .ok x)
    (hvacant : Vacant s made x.place.canonical [.own, .object, .oneOf, .anyOf])
    (hfails : ¬ Sound lib annotators ⟨x.place.canonical, .whole⟩ → fails) (t : NodeId)
    (a : Attributes) :
    Produces lib annotators unfinished (partNames x.place.canonical) s made
      (memberTypes convert x t a)
      (fun members s' made' => ∃ terms, wholeBody lib x = some (.intersection terms) ∧
        DenoteAll s' made' terms members) fails := by
  have hparts := parts_of_sound_whole hfree hx hsubject
  have hpart : ∀ roles : List Role, .whole ∉ roles →
      ∀ name ∈ roles.map (⟨x.place.canonical, ·⟩), name ∈ partNames x.place.canonical := by
    intro roles hroles name hname
    obtain ⟨role, hrole, rfl⟩ := List.mem_map.1 hname
    refine List.mem_map_of_mem ?_
    cases role with
    | whole => exact absurd hrole hroles
    | own | object | oneOf | anyOf => decide
  unfold memberTypes
  dsimp only
  refine Produces.bindWith (hpart [.own, .object] (by decide)) (produces_ownTypes hfree h hs hx
    hsubject (hvacant.weaken (by decide))
    (fun hunsound => hfails fun hsound => hunsound (hparts hsound).1) _ _)
    fun own s₁ made₁ h₁ hs₁ hown => ?_
  have hvacant₁ : Vacant s₁ made₁ x.place.canonical [.oneOf, .anyOf] :=
    (hvacant.weaken (by decide)).afterRoles [.own, .object] h₁ (by decide)
  refine Produces.bindElsewhere (produces_targetTypes hmemory hself hfree hstore h
    hs₁ hx (fun hunsound => hfails fun hsound => hunsound (hparts hsound).2.1) a)
    fun target s₂ made₂ h₂ hs₂ ⟨targets, htargets, htarget⟩ => ?_
  refine Produces.bindElsewhere (produces_allTypes h hs₂ hx
    (fun hunsound => hfails fun hsound => hunsound (hparts hsound).2.2.1) _)
    fun all s₃ made₃ h₃ hs₃ ⟨alls, halls, hall⟩ => ?_
  have hvacant₃ : Vacant s₃ made₃ x.place.canonical [.oneOf, .anyOf] :=
    (hvacant₁.elsewhere h₂).elsewhere h₃
  refine Produces.bindWith (hpart [.oneOf] (by decide)) (produces_choiceTypes hfree h hs₃ hx
    hsubject .oneOf rfl (hvacant₃.weaken (by decide))
    (fun hunsound => hfails fun hsound => hunsound (hparts hsound).2.2.2.1) t _)
    fun one s₄ made₄ h₄ hs₄ hone => ?_
  have hvacant₄ : Vacant s₄ made₄ x.place.canonical [.anyOf] :=
    (hvacant₃.weaken (by decide)).afterRoles [.oneOf] h₄ (by decide)
  refine Produces.bindWith (hpart [.anyOf] (by decide)) (produces_choiceTypes hfree h hs₄ hx
    hsubject .anyOf rfl hvacant₄
    (fun hunsound => hfails fun hsound => hunsound (hparts hsound).2.2.2.2) t _)
    fun any s₅ made₅ h₅ hs₅ hany => ?_
  have h₄₅ := h₄.refines.trans h₅.refines
  have h₃₅ := h₃.refines.trans h₄₅
  refine produces_someMembers hs₅ htargets halls ?_
  unfold memberTerms
  refine List.rel_append (List.rel_append (List.rel_append (List.rel_append ?_ ?_) ?_) ?_) hany
  · exact forall₂_terms_mono (h₂.refines.trans h₃₅) hown
  · exact forall₂_terms_mono h₃₅ htarget
  · exact forall₂_terms_mono h₄₅ hall
  · exact forall₂_terms_mono h₅.refines hone

end JsonTyping.Conversion
