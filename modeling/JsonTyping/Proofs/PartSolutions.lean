import JsonTyping.Proofs.EquationRuns
import JsonTyping.Proofs.SchemaMembers

/-!
# Solutions for the parts of a schema

What the conversion of each part of a schema makes is what its equations ask for, given that the
converter it is run with (`Settles`) registers the type of every place it is called for. A part
fails only when one of the names in it is not sound.
-/

namespace JsonTyping.Conversion

variable {lib : Library} {top : List Step} {annotators : List Annotator}
  {unfinished : List Reference} {mine : List TypeName} {s s' : Conversion} {made made' : Made}
  {convert : Converter} {x : Subject} {fails : Prop}

/-- The converter registers a type for every place it is called for, or else the type of the place
is not sound. -/
def Settles (lib : Library) (top : List Step) (annotators : List Annotator)
    (unfinished : List Reference) (convert : Converter) : Prop :=
  ∀ s made v place a, Solved lib annotators unfinished s made → Ready lib top s.types place v →
    Produces lib annotators unfinished [] s made (convert v place a)
      (fun t s' _ => s'.types.lookup place.canonical = some t)
      (¬ (typeAt lib place.canonical).All (Sound lib annotators))

theorem Settles.ready (h : Settles lib top annotators unfinished convert)
    (hs : Solved lib annotators unfinished s made) {place : Place} {v : Json}
    (hv : Ready lib top s.types place v)
    (hfails : ¬ (typeAt lib place.canonical).All (Sound lib annotators) → fails) (a : Attributes) :
    Produces lib annotators unfinished mine s made (convert v place a)
      (fun t s' _ => s'.types.lookup place.canonical = some t) fails :=
  (h s made v place a hs hv).weaken nofun hfails

/-- The types of the cases at a place are those of the terms for them. -/
theorem CaseTypes.denotes (hs : Solved lib annotators unfinished s made) {place : Place}
    {cases : List Json} {ts : List NodeId} (h : CaseTypes s place cases ts) :
    List.Forall₂ (fun type u => type.Denotes s.graph made u)
      (typesAt lib place.canonical cases) ts := by
  unfold typesAt
  rw [List.forall₂_map_left_iff]
  exact List.Forall₂.imp (fun e t ht => hs.solves.types _ t ht) h

theorem isEmpty_eq_of_length {α β : Type} {l : List α} {k : List β} (h : l.length = k.length) :
    l.isEmpty = k.isEmpty := by
  cases l <;> cases k <;> first | rfl | cases h

theorem produces_convertCases (h : Settles lib top annotators unfinished convert)
    (hs : Solved lib annotators unfinished s made) {place : Place} {cases : List Json}
    (hcases : Here lib top place (.array cases))
    (hfails : ¬ (∀ type ∈ typesAt lib place.canonical cases,
      type.All (Sound lib annotators)) → fails) (a : Attributes) :
    Produces lib annotators unfinished mine s made (convertCases convert place a cases)
      (fun ts s' _ => CaseTypes s' place cases ts) fails := by
  unfold convertCases
  refine Produces.mapM (R := fun (e : Json × Nat) t s' _ =>
    s'.types.lookup (place.push (toString e.2)).canonical = some t) ?_ hs ?_
  · exact fun e t s₁ made₁ s₂ made₂ hadds ht => hadds.types _ _ ht
  · rintro ⟨v, i⟩ hmem s₁ made₁ - hs₁
    have hv := hcases.item (List.mem_zipIdx_iff_getElem?.1 hmem)
    refine h.ready hs₁ (hv.ready s₁.types) (fun hunsound => hfails fun hall => hunsound ?_) a
    exact hall _ (List.mem_map.2 ⟨(v, i), hmem, rfl⟩)

theorem itemsTerm_of_list {cases : List Json} (hcases : x.get? "items" = some (.array cases)) :
    itemsTerm lib x = some (if cases.isEmpty then .simple anything
      else .either (typesAt lib (x.place.canonical.push "items") cases)) := by
  simp only [itemsTerm, hcases]

/-- Where the term of the items is sound, so is the type of every listed item. -/
theorem sound_of_listedItems {cases : List Json}
    (hcases : x.get? "items" = some (.array cases))
    (h : SoundTerm lib annotators (itemsTerm lib x)) :
    ∀ type ∈ typesAt lib (x.place.canonical.push "items") cases,
      type.All (Sound lib annotators) := by
  intro type htype
  obtain ⟨term, hterm, hall⟩ := h
  obtain rfl := Option.some.inj ((itemsTerm_of_list hcases).symm.trans hterm)
  split at hall
  · next hempty =>
    rw [List.isEmpty_iff.1 hempty] at htype
    cases htype
  · exact hall type htype

/-- The items may be of the types that are listed, or of any type when none is. -/
theorem produces_eitherItems (hs : Solved lib annotators unfinished s made) {cases : List Json}
    (hcases : x.get? "items" = some (.array cases)) {ts : List NodeId}
    (hts : CaseTypes s (x.place.push "items") cases ts) :
    Produces lib annotators unfinished mine s made
      (if ts.isEmpty then anyType else tryGraph (·.union (.ofList ts) .empty))
      (fun t s' made' => ∃ term, itemsTerm lib x = some term ∧ term.Denotes s'.graph made' t)
      fails := by
  rw [itemsTerm_of_list hcases, ← isEmpty_eq_of_length hts.length_eq]
  split
  · exact (Produces.anyType hs).imp fun t s₁ made₁ _ _ ht => ⟨_, rfl, ht⟩
  · next hne =>
    have hne' : ts ≠ [] := fun hnil => hne (List.isEmpty_iff.2 hnil)
    obtain ⟨g, t, hunion, hg, ht⟩ :=
      s.graph.union_shared (SortedSet.toList_ofList_ne_nil hne') .empty
    refine .tryGraph hs hunion hg ⟨_, rfl, ts, ?_, ht⟩
    exact forall₂_denotes_mono (refines_develops hg made) (hts.denotes hs)

theorem produces_itemsType (h : Settles lib top annotators unfinished convert)
    (hs : Solved lib annotators unfinished s made)
    (hx : Here lib top x.place (.object x.schema))
    (hfails : ¬ SoundTerm lib annotators (itemsTerm lib x) → fails) (a : Attributes) :
    Produces lib annotators unfinished mine s made (itemsType convert x a)
      (fun t s' made' => ∃ term, itemsTerm lib x = some term ∧ term.Denotes s'.graph made' t)
      fails := by
  have hsingle : ∀ v, x.get? "items" = some v →
      itemsTerm lib x = some (.simple (typeAt lib (x.place.canonical.push "items"))) →
      Produces lib annotators unfinished mine s made (convert v (x.place.push "items") a)
        (fun t s' made' => ∃ term, itemsTerm lib x = some term ∧ term.Denotes s'.graph made' t)
        fails := by
    intro v hv hterm
    refine (h.ready hs ((hx.member hv).ready s.types) (fun hunsound => hfails ?_) a).imp
      fun t s₁ made₁ _ hs₁ ht => ⟨_, hterm, hs₁.solves.types _ t ht⟩
    rintro ⟨term, hterm', hall⟩
    obtain rfl := Option.some.inj (hterm.symm.trans hterm')
    exact hunsound hall
  unfold itemsType
  dsimp only
  split
  · next hnone =>
    have hterm : itemsTerm lib x = some (.simple anything) := by simp only [itemsTerm, hnone]
    exact (Produces.anyType hs).imp fun t s₁ made₁ _ _ ht => ⟨_, hterm, ht⟩
  · next cases hcases =>
    refine (produces_convertCases h hs (hx.member hcases) (fun hunsound => hfails fun hsound =>
      hunsound (sound_of_listedItems hcases hsound)) a).bind fun ts s₁ made₁ _ hs₁ hts => ?_
    exact produces_eitherItems hs₁ hcases hts
  · next members hv => exact hsingle _ hv (by simp only [itemsTerm, hv])
  · next b hv => exact hsingle _ hv (by simp only [itemsTerm, hv])
  · next v harray hobject hbool hv =>
    have hterm : itemsTerm lib x = none := by
      unfold itemsTerm
      rw [hv]
      cases v with
      | array cases => exact (harray _ rfl).elim
      | object members => exact (hobject _ rfl).elim
      | bool b => exact (hbool _ rfl).elim
      | _ => rfl
    refine .refuse rfl (hfails ?_)
    rintro ⟨term, hsome, -⟩
    cases hterm.symm.trans hsome

theorem produces_arrayTypes (h : Settles lib top annotators unfinished convert)
    (hs : Solved lib annotators unfinished s made)
    (hx : Here lib top x.place (.object x.schema))
    (hfails : ¬ SoundTerms lib annotators (arrayTerms lib x) → fails) (a : Attributes) :
    Produces lib annotators unfinished mine s made
      (containerTypes x .array (arrayType convert x a))
      (fun ts s' made' => ∃ terms, arrayTerms lib x = some terms ∧
        List.Forall₂ (fun term t => term.Denotes s'.graph made' t) terms ts) fails := by
  unfold containerTypes arrayTerms
  split
  · next hcontainer =>
    refine .map ?_
    unfold arrayType
    refine (produces_itemsType h hs hx (fun hunsound => hfails ?_) a).bind ?_
    · rintro ⟨terms, hterms, hall⟩
      rw [arrayTerms, if_pos hcontainer] at hterms
      obtain ⟨items, hitems, rfl⟩ := Option.map_eq_some_iff.1 hterms
      have hitems' : (TypeTerm.array items).All (Sound lib annotators) :=
        hall _ (List.mem_singleton_self _)
      exact hunsound ⟨items, hitems, hitems'⟩
    · rintro items s₁ made₁ - hs₁ ⟨term, hterm, hitems⟩
      refine (Produces.share hs₁ (.array items) .empty).imp fun t s₂ made₂ hadds _ ht => ?_
      refine ⟨[.array term], by rw [hterm]; rfl, .cons ⟨items, ?_, ht⟩ .nil⟩
      exact hitems.mono hadds.refines
  · exact .pure hs ⟨[], rfl, .nil⟩

/-! ### Objects -/

theorem exists_of_objectBody {b : TypeBody} (h : objectBody lib x = some b) :
    ∃ listed schemas, requiredNames x = .ok listed ∧ propertySchemas x = .ok schemas ∧
      ((additionalSimple lib x).isSome ∨
        ∀ name ∈ addSelfRequired listed schemas, name ∈ schemas.map (·.1)) ∧
      b = .object (addSelfRequired listed schemas)
        (schemas.map fun e =>
          (e.1, typeAt lib ((x.place.canonical.push "properties").push e.1)))
        (additionalSimple lib x) := by
  unfold objectBody at h
  split at h
  · next listed schemas hlisted hschemas =>
    dsimp only at h
    split at h
    · next hpossible => exact ⟨listed, schemas, hlisted, hschemas, hpossible,
        (Option.some.inj h).symm⟩
    · cases h
  · cases h

/-- Every error of the part is one that stops no batch. -/
theorem isFatal_requiredNames {error : SchemaError} (h : requiredNames x = .error error) :
    error.isFatal = false := by
  unfold requiredNames at h
  split at h
  · cases h
  · cases h
  · split at h
    · cases h
    · cases h
      rfl
  · cases h
    rfl

theorem isFatal_propertySchemas {error : SchemaError} (h : propertySchemas x = .error error) :
    error.isFatal = false := by
  unfold propertySchemas at h
  split at h
  · cases h
  · cases h
  · cases h
    rfl

theorem produces_declaredProperties (h : Settles lib top annotators unfinished convert)
    (hs : Solved lib annotators unfinished s made)
    (hx : Here lib top x.place (.object x.schema)) {schemas : List (String × Json)}
    (hschemas : propertySchemas x = .ok schemas)
    (hfails : ¬ (∀ e ∈ schemas,
      (typeAt lib ((x.place.canonical.push "properties").push e.1)).All (Sound lib annotators)) →
        fails) (required : List String) :
    Produces lib annotators unfinished mine s made (declaredProperties convert x required schemas)
      (fun declared s' _ => List.Forall₂ (DeclaredAs x required s') schemas declared) fails := by
  unfold declaredProperties
  dsimp only
  refine Produces.mapM_inOrder (R := fun e p s' _ => DeclaredAs x required s' e p) ?_ hs [] nofun ?_
  · rintro e p s₁ made₁ s₂ made₂ hadds ⟨hname, hoptional, htype⟩
    exact ⟨hname, hoptional, hadds.types _ _ htype⟩
  · rintro before ⟨name, v⟩ rest s₁ made₁ heq - hs₁ hbefore
    rw [List.nil_append] at heq
    have hmem : (name, v) ∈ schemas := by
      rw [heq]
      exact List.mem_append_right before List.mem_cons_self
    have hready : Ready lib top s₁.types ((x.place.push "properties").push name) v := by
      refine ready_property hx hschemas heq fun w hw => ?_
      obtain ⟨p, -, -, htype⟩ := hbefore (name, w) hw
      exact ⟨p.2.type, htype⟩
    refine (h.ready hs₁ hready (fun hunsound => hfails fun hall => hunsound (hall _ hmem))
      (.inferredName name)).bind fun t s₂ made₂ _ hs₂ ht => ?_
    exact .pure hs₂ ⟨rfl, rfl, ht⟩

theorem produces_additionalType (h : Settles lib top annotators unfinished convert)
    (hs : Solved lib annotators unfinished s made)
    (hx : Here lib top x.place (.object x.schema))
    (hfails : ¬ (∀ type ∈ additionalSimple lib x, type.All (Sound lib annotators)) → fails)
    (a : Attributes) :
    Produces lib annotators unfinished mine s made (additionalType convert x a)
      (fun additional s' made' =>
        Option.Rel (fun type u => type.Denotes s'.graph made' u) (additionalSimple lib x)
          additional) fails := by
  have hany : additionalSimple lib x = some anything →
      Produces lib annotators unfinished mine s made (some <$> anyType)
        (fun additional s' made' =>
          Option.Rel (fun type u => type.Denotes s'.graph made' u) (additionalSimple lib x)
            additional) fails := by
    intro hadditional
    rw [hadditional]
    exact .map ((Produces.anyType hs).imp fun t s₁ made₁ _ _ ht => .some ht)
  unfold additionalType
  split
  · next hnone => exact hany (by simp only [additionalSimple, hnone])
  · next place htrue => exact hany (by simp only [additionalSimple, htrue])
  · next place hfalse =>
    have hadditional : additionalSimple lib x = none := by simp only [additionalSimple, hfalse]
    rw [hadditional]
    exact .pure hs .none
  · next v place htrue hfalse hschema =>
    obtain ⟨hplace, -⟩ := here_additionalSchema hx hschema
    have hadditional : additionalSimple lib x = some (typeAt lib place.canonical) := by
      unfold additionalSimple
      rw [hschema]
      cases v with
      | bool b =>
        cases b with
        | true => exact (htrue rfl).elim
        | false => exact (hfalse rfl).elim
      | _ => rfl
    rw [hadditional] at hfails ⊢
    refine .map ((h.ready hs (hplace.ready s.types) (fun hunsound => hfails fun hall => ?_) a).imp
      fun t s₁ made₁ _ hs₁ ht => .some (hs₁.solves.types _ t ht))
    exact hunsound (hall _ rfl)

theorem contains_ofList {declared : List (String × Property)} (name : String) :
    (SortedMap.ofList declared).contains name = true ↔ name ∈ declared.map (·.1) := by
  rw [SortedMap.contains, Option.isSome_iff_exists, List.mem_map]
  constructor
  · rintro ⟨p, hp⟩
    exact ⟨(name, p), SortedMap.mem_of_find?_ofList hp, rfl⟩
  · rintro ⟨⟨name', p⟩, hmem, rfl⟩
    exact SortedMap.exists_find?_ofList hmem

/-- The required properties are added unless some are missing and no others are allowed. -/
theorem addRequired_spec (required : List String) (declared : List (String × Property))
    (additional : Option NodeId) :
    (additional.isSome ∨ ∀ name ∈ required, name ∈ declared.map (·.1)) ∧
        addRequired x required (.ofList declared) additional =
          .ok (withRequired required (.ofList declared) additional) ∨
      ¬ (additional.isSome ∨ ∀ name ∈ required, name ∈ declared.map (·.1)) ∧
        ∃ error, addRequired x required (.ofList declared) additional = .error error ∧
          error.isFatal = false := by
  cases additional with
  | some t =>
    refine .inl ⟨.inl rfl, ?_⟩
    unfold addRequired
    dsimp only
    split
    · next hnil =>
      unfold withRequired
      rw [hnil]
      rfl
    · next hnone _ => cases hnone
    · next hsome _ =>
      cases hsome
      rfl
  | none =>
    have hmissing : (required.filter fun name => !(SortedMap.ofList declared).contains name) = [] ↔
        ∀ name ∈ required, name ∈ declared.map (·.1) := by
      simp only [List.filter_eq_nil_iff, Bool.not_eq_true', Bool.not_eq_false, contains_ofList]
    unfold addRequired
    dsimp only
    split
    · next hnil => exact .inl ⟨.inr (hmissing.1 hnil), rfl⟩
    · next hne =>
      refine .inr ⟨?_, _, rfl, rfl⟩
      rintro (hsome | hall)
      · cases hsome
      · exact hne (hmissing.2 hall)
    · next hsome _ => cases hsome

theorem names_eq_of_declaredAs {required : List String} {schemas : List (String × Json)}
    {declared : List (String × Property)}
    (h : List.Forall₂ (DeclaredAs x required s) schemas declared) :
    declared.map (·.1) = schemas.map (·.1) := by
  induction h with
  | nil => rfl
  | cons hp _ ih => rw [List.map_cons, List.map_cons, ih, hp.1]

theorem isDeclared_of_declaredAs (hs : Solved lib annotators unfinished s made)
    {required : List String} {schemas : List (String × Json)} {declared : List (String × Property)}
    (h : List.Forall₂ (DeclaredAs x required s) schemas declared) :
    List.Forall₂ (IsDeclared s.graph made required)
      (schemas.map fun e => (e.1, typeAt lib ((x.place.canonical.push "properties").push e.1)))
      declared := by
  rw [List.forall₂_map_left_iff]
  exact List.Forall₂.imp (fun e p hp => ⟨hp.1, hp.2.1, hs.solves.types _ _ hp.2.2⟩) h

/-- Where the object type of a schema is sound, so are those of its properties. -/
theorem parts_of_sound_object (hfree : lib.IdFree)
    (hx : Here lib top x.place (.object x.schema))
    (hsubject : subject annotators x.schema x.place = .ok x)
    (h : Sound lib annotators ⟨x.place.canonical, .object⟩) :
    ∃ listed schemas, requiredNames x = .ok listed ∧ propertySchemas x = .ok schemas ∧
      (∀ e ∈ schemas, (typeAt lib ((x.place.canonical.push "properties").push e.1)).All
        (Sound lib annotators)) ∧
      (∀ type ∈ additionalSimple lib x, type.All (Sound lib annotators)) ∧
      ((additionalSimple lib x).isSome ∨
        ∀ name ∈ addSelfRequired listed schemas, name ∈ schemas.map (·.1)) := by
  obtain ⟨b, hb, hall⟩ := h.exists_body
  rw [body_eq (hx.plain hfree) hx.value hsubject] at hb
  obtain ⟨listed, schemas, hlisted, hschemas, hpossible, rfl⟩ := exists_of_objectBody hb
  exact ⟨listed, schemas, hlisted, hschemas,
    fun e he => hall.1 _ (List.mem_map.2 ⟨e, he, rfl⟩), hall.2, hpossible⟩

/-- The object type of the properties that were declared, and of those that are only required. -/
theorem produces_objectNode (hfree : lib.IdFree) (hs : Solved lib annotators unfinished s made)
    (hx : Here lib top x.place (.object x.schema))
    (hsubject : subject annotators x.schema x.place = .ok x)
    (hvacant : Vacant s made x.place.canonical [.object]) {listed : List String}
    {schemas : List (String × Json)} (hlisted : requiredNames x = .ok listed)
    (hschemas : propertySchemas x = .ok schemas) {declared : List (String × Property)}
    (hdeclared : List.Forall₂ (DeclaredAs x (addSelfRequired listed schemas) s) schemas declared)
    {additional : Option NodeId}
    (hadditional : Option.Rel (fun type u => type.Denotes s.graph made u) (additionalSimple lib x)
      additional) (a : Attributes) :
    Produces lib annotators unfinished [⟨x.place.canonical, .object⟩] s made (do
      let properties ← orRefuse
        (addRequired x (addSelfRequired listed schemas) (.ofList declared) additional)
      onGraph (·.fresh (.object properties additional) a))
      (fun t _ made' => made' ⟨x.place.canonical, .object⟩ = some t)
      (¬ Sound lib annotators ⟨x.place.canonical, .object⟩) := by
  have hsome : (additionalSimple lib x).isSome = additional.isSome := by
    generalize additionalSimple lib x = type at hadditional
    cases hadditional <;> rfl
  have hspec := addRequired_spec (x := x) (addSelfRequired listed schemas) declared additional
  rw [names_eq_of_declaredAs hdeclared, ← hsome] at hspec
  rcases hspec with ⟨hpossible, hall⟩ | ⟨hmissing, error, herror, hfatal⟩
  · have hbody : body lib annotators ⟨x.place.canonical, .object⟩ =
        some (.object (addSelfRequired listed schemas)
          (schemas.map fun e =>
            (e.1, typeAt lib ((x.place.canonical.push "properties").push e.1)))
          (additionalSimple lib x)) := by
      rw [body_eq (hx.plain hfree) hx.value hsubject]
      simp only [bodyOf, objectBody, hlisted, hschemas, if_pos hpossible]
    rw [hall]
    exact Produces.fresh hs (List.mem_singleton_self _) hvacant hbody
      ⟨declared, additional, isDeclared_of_declaredAs hs hdeclared, hadditional, rfl⟩ a
  · rw [herror]
    refine .refuse hfatal fun hsound => hmissing ?_
    obtain ⟨_, _, hlisted', hschemas', -, -, hpossible⟩ :=
      parts_of_sound_object hfree hx hsubject hsound
    obtain rfl := Except.ok.inj (hlisted'.symm.trans hlisted)
    obtain rfl := Except.ok.inj (hschemas'.symm.trans hschemas)
    exact hpossible

theorem produces_objectType (hfree : lib.IdFree)
    (h : Settles lib top annotators unfinished convert)
    (hs : Solved lib annotators unfinished s made)
    (hx : Here lib top x.place (.object x.schema))
    (hsubject : subject annotators x.schema x.place = .ok x)
    (hvacant : Vacant s made x.place.canonical [.object])
    (hfails : ¬ Sound lib annotators ⟨x.place.canonical, .object⟩ → fails) (a : Attributes) :
    Produces lib annotators unfinished [⟨x.place.canonical, .object⟩] s made
      (objectType convert x a)
      (fun t _ made' => made' ⟨x.place.canonical, .object⟩ = some t) fails := by
  refine Produces.weaken ?_ (fun _ hname => hname) hfails
  have hparts := parts_of_sound_object hfree hx hsubject
  unfold objectType
  refine (Produces.orRefuse hs fun error herror =>
    ⟨isFatal_requiredNames herror, fun hsound => ?_⟩).bind ?_
  · obtain ⟨listed, schemas, hlisted, -⟩ := hparts hsound
    cases herror.symm.trans hlisted
  rintro listed _ _ - - ⟨hlisted, rfl, rfl⟩
  refine (Produces.orRefuse hs fun error herror =>
    ⟨isFatal_propertySchemas herror, fun hsound => ?_⟩).bind ?_
  · obtain ⟨listed', schemas, -, hschemas, -⟩ := hparts hsound
    cases herror.symm.trans hschemas
  rintro schemas s made - - ⟨hschemas, rfl, rfl⟩
  dsimp only
  refine Produces.bindElsewhere
    (produces_declaredProperties h hs hx hschemas (fun hunsound hsound => ?_) _)
    fun declared s₁ made₁ h₁ hs₁ hdeclared => ?_
  · obtain ⟨_, _, -, hschemas', hall, -⟩ := hparts hsound
    obtain rfl := Except.ok.inj (hschemas'.symm.trans hschemas)
    exact hunsound hall
  refine Produces.bindElsewhere
    (produces_additionalType h hs₁ hx (fun hunsound hsound => ?_) a)
    fun additional s₂ made₂ h₂ hs₂ hadditional => ?_
  · obtain ⟨_, _, -, -, -, hall, -⟩ := hparts hsound
    exact hunsound hall
  have hdeclared₂ : List.Forall₂ (DeclaredAs x (addSelfRequired listed schemas) s₂) schemas
      declared :=
    List.Forall₂.imp (fun e p hp => ⟨hp.1, hp.2.1, h₂.types _ _ hp.2.2⟩) hdeclared
  exact produces_objectNode hfree hs₂ hx hsubject ((hvacant.elsewhere h₁).elsewhere h₂) hlisted
    hschemas hdeclared₂ hadditional a

end JsonTyping.Conversion
