import JsonTyping.Proofs.ConversionRecords

/-!
# Types that are recorded

A converter records a type for every place whose schema it is called for
(`Conversion.Converter.Records`), and so do the conversions of all parts of a schema that are run
with it. So whatever the documents are, every type that a conversion registers is recorded
(`Conversion.records_toType`, `Conversion.records_convertTopLevel`). The type of an object schema
has the attributes that it was converted with.
-/

namespace JsonTyping.Conversion

variable {lib : Library} {annotators : List Annotator} {s s₁ s' : Conversion} {x : Subject}
  {convert : Converter}

/-- The value stands at the place, or the place has a type already. -/
def Stands (lib : Library) (types : List (Reference × NodeId)) (place : Place) (v : Json) : Prop :=
  lib.value? place.canonical = some v ∨ ∃ t, types.lookup place.canonical = some t

/-- The converter records a type for every place whose schema it is called for. -/
def Converter.Records (lib : Library) (annotators : List Annotator) (convert : Converter) : Prop :=
  ∀ s v place a, Stands lib s.types place v →
    Works lib annotators s (convert v place a) fun t s' =>
      s'.types.lookup place.canonical = some t

/-- The schema stands at its place. -/
def Subject.Stands (lib : Library) (x : Subject) : Prop :=
  lib.value? x.place.canonical = some (.object x.schema)

theorem Subject.Stands.member (hx : x.Stands lib) {keyword : String} {v : Json}
    (hv : x.get? keyword = some v) : lib.value? (x.place.push keyword).canonical = some v :=
  Library.value?_push hx hv

theorem records_convertCases (h : convert.Records lib annotators) {place : Place}
    {cases : List Json} (hcases : lib.value? place.canonical = some (.array cases))
    (a : Attributes) :
    Works lib annotators s (convertCases convert place a cases) fun types s' =>
      CaseTypes s' place cases types := by
  unfold convertCases
  refine Works.mapM (R := fun (e : Json × Nat) t s' =>
    s'.types.lookup (place.push (toString e.2)).canonical = some t)
    (fun e _ t s₁ s₂ hs ht => hs.lookup _ _ ht) ?_
  rintro ⟨v, i⟩ hmem s'
  have hv := Json.child?_item (List.mem_zipIdx_iff_getElem?.1 hmem)
  exact h s' v (place.push (toString i)) a (.inl (Library.value?_push hcases hv))

theorem records_caseTypes (h : convert.Records lib annotators) (hx : x.Stands lib)
    {keyword : String} {cases : Json} (hcases : x.get? keyword = some cases) (a : Attributes) :
    Works lib annotators s (caseTypes convert x keyword a cases) fun types s' =>
      ∃ list, x.get? keyword = some (.array list) ∧
        CaseTypes s' (x.place.push keyword) list types := by
  unfold caseTypes
  cases cases with
  | array list =>
    exact (records_convertCases h (hx.member hcases) a).imp fun types s' _ htypes =>
      ⟨list, hcases, htypes⟩
  | _ => exact .refuse _

theorem records_itemsType (h : convert.Records lib annotators) (hx : x.Stands lib)
    (a : Attributes) : Works lib annotators s (itemsType convert x a) fun _ _ => True := by
  have hsingle : ∀ v, x.get? "items" = some v →
      Works lib annotators s (convert v (x.place.push "items") a) fun _ _ => True :=
    fun v hv => (h s v _ a (.inl (hx.member hv))).imp fun _ _ _ _ => trivial
  unfold itemsType
  dsimp only
  split
  · exact Works.anyType.imp fun _ _ _ _ => trivial
  · next cases hcases =>
    refine (records_convertCases h (hx.member hcases) a).bind fun types s₁ _ _ => ?_
    split
    · exact Works.anyType.imp fun _ _ _ _ => trivial
    · next hempty => exact .union (mt List.isEmpty_iff.2 hempty) _
  · next members hv => exact hsingle _ hv
  · next b hv => exact hsingle _ hv
  · exact .refuse _

theorem records_arrayType (h : convert.Records lib annotators) (hx : x.Stands lib)
    (a : Attributes) :
    Works lib annotators s (arrayType convert x a) fun t s' =>
      ∃ items, s'.graph.shape t = .array items :=
  (records_itemsType h hx a).bind fun items _ _ _ =>
    (Works.share (.array items) .empty).imp fun _ _ _ ht => ⟨items, ht.1⟩

/-- A repeated name has the schema that is first; the type is registered when its turn comes
again. -/
theorem stands_property (hx : x.Stands lib) {schemas before rest : List (String × Json)}
    (hschemas : propertySchemas x = .ok schemas) {name : String} {v : Json}
    (heq : schemas = before ++ (name, v) :: rest) {types : List (Reference × NodeId)}
    (hbefore : ∀ w, (name, w) ∈ before →
      ∃ t, types.lookup ((x.place.push "properties").push name).canonical = some t) :
    Stands lib types ((x.place.push "properties").push name) v := by
  have hmem : (name, v) ∈ schemas := by
    rw [heq]
    exact List.mem_append_right before List.mem_cons_self
  rcases lookup_of_eq_append heq with ⟨w, hw⟩ | hlookup
  · exact .inr (hbefore w hw)
  · exact .inl (Library.value?_push (hx.member (get?_properties hschemas hmem)) hlookup)

theorem records_declaredProperties (h : convert.Records lib annotators) (hx : x.Stands lib)
    {schemas : List (String × Json)} (hschemas : propertySchemas x = .ok schemas)
    (required : List String) :
    Works lib annotators s (declaredProperties convert x required schemas) fun _ _ => True := by
  unfold declaredProperties
  dsimp only
  refine (Works.mapM_inOrder (R := fun e p s' => DeclaredAs x required s' e p) ?_ [] nofun nofun
    ?_).imp fun _ _ _ _ => trivial
  · rintro e - p s₁ s₂ hs ⟨hname, hoptional, htype⟩
    exact ⟨hname, hoptional, hs.lookup _ _ htype⟩
  · rintro before ⟨name, v⟩ rest s' heq hbefore
    rw [List.nil_append] at heq
    have hstands : Stands lib s'.types ((x.place.push "properties").push name) v := by
      refine stands_property hx hschemas heq fun w hw => ?_
      obtain ⟨p, -, -, htype⟩ := hbefore (name, w) hw
      exact ⟨p.2.type, htype⟩
    exact (h s' v _ _ hstands).bind fun t s'' _ ht => .pure ⟨rfl, rfl, ht⟩

theorem value?_of_additionalSchema (hx : x.Stands lib) {v : Json} {place : Place}
    (h : additionalSchema x = some (v, place)) : lib.value? place.canonical = some v := by
  unfold additionalSchema at h
  split at h
  · next v' hv' =>
    cases h
    exact hx.member hv'
  · obtain ⟨v', hv', heq⟩ := Option.map_eq_some_iff.1 h
    cases heq
    obtain ⟨patterns, hpatterns, hlookup⟩ := Option.bind_eq_some_iff.1 hv'
    cases patterns with
    | object members => exact Library.value?_push (hx.member hpatterns) hlookup
    | _ => cases hlookup

theorem records_additionalType (h : convert.Records lib annotators) (hx : x.Stands lib)
    (a : Attributes) :
    Works lib annotators s (additionalType convert x a) fun _ _ => True := by
  unfold additionalType
  split
  · exact .map (Works.anyType.imp fun _ _ _ _ => trivial)
  · exact .map (Works.anyType.imp fun _ _ _ _ => trivial)
  · exact .pure trivial
  · next v place _ _ hschema =>
    have hstands := value?_of_additionalSchema hx hschema
    exact .map ((h s v place a (.inl hstands)).imp fun _ _ _ _ => trivial)

theorem records_objectType (h : convert.Records lib annotators) (hx : x.Stands lib)
    (a : Attributes) :
    Works lib annotators s (objectType convert x a) fun t s' =>
      ∃ properties additional, s'.graph.shape t = .object properties additional := by
  unfold objectType
  refine (Works.orRefuse (requiredNames x)).bind fun listed s₁ _ _ => ?_
  refine (Works.orRefuse (propertySchemas x)).bind ?_
  rintro schemas s₂ - ⟨hschemas, -⟩
  dsimp only
  refine (records_declaredProperties h hx hschemas _).bind fun declared s₃ _ _ => ?_
  refine (records_additionalType h hx a).bind fun additional s₄ _ _ => ?_
  refine (Works.orRefuse _).bind fun all s₅ _ _ => ?_
  exact (Works.fresh (.object all additional) a).imp fun _ _ _ ht => ⟨all, additional, ht⟩

/-! ### Members of a schema -/

theorem records_primitiveTypes (x : Subject) :
    Works lib annotators s (primitiveTypes x) fun us s' =>
      List.Forall₂ (fun type m => StandsFor s' x m type)
        (x.limits.primitives.map .primitive) us := by
  simp only [List.forall₂_map_left_iff]
  unfold primitiveTypes
  refine Works.mapM (R := fun p m s' => StandsFor s' x m (.primitive p)) ?_ fun p hp s' => ?_
  · intro p hp m s₁ s₂ hs hm
    exact hm.mono (List.mem_append_left _ (List.mem_map.2 ⟨p, hp, rfl⟩)) hs
  · refine (Works.share (.primitive p) _).imp fun m s'' _ hm => ⟨hm.1, ?_⟩
    rw [Subject.foundFor, (kind_of_mem_primitives hp).2]
    exact hm.2

theorem records_stringTypes (x : Subject) (names : Attributes) :
    Works lib annotators s (stringTypes x names) fun us s' =>
      List.Forall₂ (fun type m => StandsFor s' x m type) (textTypes x) us := by
  unfold stringTypes textTypes
  dsimp only
  cases x.limits.cases? with
  | some cases =>
    exact .map ((Works.share (.enumeration cases) _).imp fun m _ _ hm => .cons hm.1 .nil)
  | none =>
    dsimp only
    split
    · refine .map ((Works.share (.primitive x.stringKind) _).imp fun m s' _ hm => ?_)
      have hstring := isString_stringKind x
      refine .cons ⟨hm.1, ?_⟩ .nil
      rw [Subject.foundFor, isNumber_of_isString hstring, hstring]
      exact hm.2
    · exact .pure .nil

theorem records_containerTypes {t : JsonType} {m : ConvertM NodeId}
    {P : NodeId → Conversion → Prop} (hm : Works lib annotators s m P)
    (hP : ∀ u s', P u s' → (∃ items, s'.graph.shape u = .array items) ∨
      ∃ properties additional, s'.graph.shape u = .object properties additional) :
    Works lib annotators s (containerTypes x t m) fun us s' =>
      ∀ u ∈ us, StandsForContainer s' x u := by
  unfold containerTypes
  split
  · next hadmits =>
    refine .map (hm.imp fun u s' _ hu w hw => ?_)
    obtain rfl := List.mem_singleton.1 hw
    exact ⟨⟨t, hadmits⟩, hP _ _ hu⟩
  · exact .pure nofun

theorem records_ownUnion (h : convert.Records lib annotators) (hx : x.Stands lib)
    (names inferred : Attributes) :
    Works lib annotators s (ownUnion convert x names inferred) fun u s' =>
      IsOwnUnion s' x u := by
  unfold ownUnion
  refine (records_primitiveTypes x).bind fun primitives s₁ h₁ hprimitives => ?_
  refine (records_stringTypes x names).bind fun strings s₂ h₂ hstrings => ?_
  refine (records_containerTypes (t := .array) (records_arrayType h hx names)
    fun _ _ hu => .inl hu).bind fun arrays s₃ h₃ harrays => ?_
  refine (records_containerTypes (t := .object) (records_objectType h hx names)
    fun _ _ hu => .inr hu).bind fun objects s₄ h₄ hobjects => ?_
  refine (Works.fresh (.union (some _)) inferred).imp fun u s₅ h₅ hu => ?_
  rw [List.append_assoc] at hu
  have h₄₅ := h₄.trans h₅
  have h₂₅ := (h₃.trans h₄₅).retains
  refine ⟨_, _, hu, List.rel_append ?_ ?_, fun m hm => ?_⟩
  · exact standsFor_mono (fun _ => List.mem_append_left _) hprimitives (h₂.retains.trans h₂₅)
  · exact standsFor_mono (fun _ => List.mem_append_right _) hstrings h₂₅
  · rcases List.mem_append.1 hm with hm | hm
    · exact (harrays m hm).mono h₄₅.retains
    · exact (hobjects m hm).mono h₅.retains

theorem records_ownTypes (h : convert.Records lib annotators) (hx : x.Stands lib)
    (names inferred : Attributes) :
    Works lib annotators s (ownTypes convert x names inferred) fun us s' =>
      (∀ u ∈ us, IsOwnUnion s' x u) ∧ (x.needsUnion = true → us ≠ []) := by
  unfold ownTypes
  split
  · refine .map ((records_ownUnion h hx names inferred).imp fun u s' _ hu =>
      ⟨fun w hw => ?_, fun _ => List.cons_ne_nil _ _⟩)
    obtain rfl := List.mem_singleton.1 hw
    exact hu
  · next hneeds => exact .pure ⟨nofun, fun hneeds' => absurd hneeds' hneeds⟩

theorem records_targetType (hlib : lib.Holds) (h : convert.Records lib annotators)
    (own : Attributes) (target : Json) :
    Works lib annotators s (targetType convert x own target) fun u s' =>
      ∃ text r, target = .string text ∧ lib.Led s'.library x.place text r ∧
        s'.types.lookup r = some u := by
  refine .of_uses fun hs => ?_
  unfold targetType
  split
  · next text =>
    refine (Works.resolve x.place (.parse text)).bind ?_
    rintro found s₁ h₁ ⟨hrun, -⟩
    split
    · exact .throw _
    · next v hv =>
      have hvalue := Library.value?_of_resolve hlib hs hrun hv
      refine (h s₁ v found.place _ (.inl hvalue)).imp fun u s₂ h₂ hu =>
        ⟨text, found.place.canonical, rfl, ?_, hu⟩
      exact ⟨s.library, found, s₁.library, hs, hrun, h₂.steps.uses, rfl⟩
  · exact .refuse _

theorem records_annotateCases (types : List NodeId) (found : List Attributes) :
    Works lib annotators s (annotateCases types found) fun _ _ => True := by
  unfold annotateCases
  split
  · exact .forM (fun e _ => .addAttributes e.1 e.2) _
  · exact .throw _

theorem records_annotateChoice (t : NodeId) (types : List NodeId) (ofUnion : Attributes)
    (l : List Annotation) :
    Works lib annotators s (annotateChoice t types ofUnion l) fun _ _ => True := by
  induction l generalizing s ofUnion with
  | nil => exact .pure trivial
  | cons n l ih =>
    rw [annotateChoice]
    refine (Works.forM_option (fun a => .addAttributes t a) n.forType).bind fun _ s₁ _ _ => ?_
    refine (Works.forM_option (fun found => records_annotateCases types found) n.forCases).bind
      fun _ s₂ _ _ => ?_
    exact ih _

theorem records_choiceType (h : convert.Records lib annotators) (hx : x.Stands lib) (t : NodeId)
    (inferred : Attributes) {keyword : String} (hkeyword : keyword = "oneOf" ∨ keyword = "anyOf")
    {cases : Json} (hcases : x.get? keyword = some cases) (target : Option Reference) :
    Works lib annotators s (choiceType convert x t inferred keyword cases) fun u s' =>
      MadeFor s' x target u := by
  unfold choiceType
  refine (records_caseTypes h hx hcases _).bind ?_
  rintro types s₁ h₁ ⟨list, hlist, htypes⟩
  refine (records_annotateChoice t types inferred _).bind fun a s₂ h₂ _ => ?_
  refine (Works.freshUnion a (.ofList types)).imp fun u s₃ h₃ hu => ?_
  exact .choice hkeyword hlist (htypes.mono (h₂.trans h₃).retains) hu

theorem records_targetTypes (hlib : lib.Holds) (h : convert.Records lib annotators)
    (a : Attributes) :
    Works lib annotators s ((x.get? "$ref").toList.mapM (targetType convert x a)) fun us s' =>
      ∃ target, (∀ text, x.get? "$ref" = some (.string text) →
          ∃ r, target = some r ∧ lib.Led s'.library x.place text r) ∧
        ∀ u ∈ us, MadeFor s' x target u := by
  cases hlookup : x.get? "$ref" with
  | none => exact .pure ⟨none, nofun, nofun⟩
  | some target =>
    rw [Option.toList_some, List.mapM_cons, List.mapM_nil]
    refine (records_targetType hlib h a target).bind ?_
    rintro u s' - ⟨text, r, rfl, hled, hu⟩
    refine .pure ⟨some r, fun text' htext' => ⟨r, rfl, ?_⟩, fun w hw => ?_⟩
    · obtain rfl := Json.string.inj (Option.some.inj htext')
      exact hled
    · obtain rfl := List.mem_singleton.1 hw
      exact .target hlookup rfl hu

theorem records_allTypes (h : convert.Records lib annotators) (hx : x.Stands lib) (a : Attributes)
    (target : Option Reference) :
    Works lib annotators s ((x.get? "allOf").toList.mapM (caseTypes convert x "allOf" a))
      fun all s' => ∀ u ∈ all.flatten, MadeFor s' x target u := by
  refine (Works.mapM_toList fun cases hcases => records_caseTypes h hx hcases a).imp ?_
  intro all s' _ hall u hu
  obtain ⟨types, htypes, hmem⟩ := List.mem_flatten.1 hu
  obtain ⟨list, hlist, hcases⟩ := hall types htypes
  obtain ⟨i, v, hv, hlookup⟩ := hcases.exists_case hmem
  exact .case hlist hv hlookup

theorem records_memberTypes (hlib : lib.Holds) (h : convert.Records lib annotators)
    (hx : x.Stands lib) (t : NodeId) (a : Attributes) :
    Works lib annotators s (memberTypes convert x t a) fun members s' =>
      ∃ target, MembersFor lib s' x members target := by
  unfold memberTypes
  dsimp only
  refine (records_ownTypes h hx _ _).bind fun own s₁ h₁ hown => ?_
  refine (records_targetTypes hlib h a).bind ?_
  rintro targets s₂ h₂ ⟨target, htarget, htargets⟩
  have hchoice : ∀ keyword s', keyword = "oneOf" ∨ keyword = "anyOf" →
      Works lib annotators s' ((x.get? keyword).toList.mapM
        (choiceType convert x t a.makeInferred keyword)) fun us s'' =>
          ∀ u ∈ us, MadeFor s'' x target u := fun keyword s' hkeyword =>
    Works.mapM_toList fun cases hcases => records_choiceType h hx t _ hkeyword hcases target
  refine (records_allTypes h hx _ target).bind fun all s₃ h₃ hall => ?_
  refine (hchoice "oneOf" s₃ (.inl rfl)).bind fun one s₄ h₄ hone => ?_
  refine (hchoice "anyOf" s₄ (.inr rfl)).bind fun any s₅ h₅ hany => ?_
  have h₃₅ := h₄.trans h₅
  have h₂₅ := h₃.trans h₃₅
  have hmade : ∀ u ∈ own ++ targets ++ all.flatten ++ one ++ any, MadeFor s₅ x target u := by
    intro u hu
    simp only [List.mem_append] at hu
    rcases hu with (((hu | hu) | hu) | hu) | hu
    · exact .own ((hown.1 u hu).mono (h₂.trans h₂₅).retains)
    · exact (htargets u hu).mono h₂₅.retains
    · exact (hall u hu).mono h₃₅.retains
    · exact (hone u hu).mono h₅.retains
    · exact hany u hu
  split
  · next hempty =>
    refine .map (Works.anyType.imp fun u s' h₆ hu => ⟨target, fun text htext => ?_, ?_, ?_⟩)
    · exact (htarget text htext).imp fun _ hr => ⟨hr.1, hr.2.mono (h₂₅.trans h₆).steps.uses⟩
    · intro w hw
      obtain rfl := List.mem_singleton.1 hw
      exact .anything hu
    · intro hneeds
      simp only [List.isEmpty_iff, List.append_eq_nil_iff] at hempty
      exact absurd hempty.1.1.1.1 (hown.2 hneeds)
  · refine .pure ⟨target, fun text htext => ?_, hmade, fun hneeds => ?_⟩
    · exact (htarget text htext).imp fun _ hr => ⟨hr.1, hr.2.mono h₂₅.steps.uses⟩
    · obtain ⟨u, hu⟩ := List.exists_mem_of_ne_nil own (hown.2 hneeds)
      refine ⟨u, ?_, (hown.1 u hu).mono (h₂.trans h₂₅).retains⟩
      simp only [List.mem_append]
      exact .inl (.inl (.inl (.inl hu)))

/-! ### Schemas -/

/-- A place is registered with a fresh intersection, which gets its members in the end. -/
theorem records_placeholder (hsubject : subject annotators x.schema x.place = .ok x)
    (hx : x.Stands lib) (hnone : s.types.lookup x.place.canonical = none) (a : Attributes)
    {body : NodeId → ConvertM (List NodeId)}
    (hbody : ∀ t s', Works lib annotators s' (body t) fun members s'' =>
      ∃ target, MembersFor lib s'' x members target) :
    Works lib annotators s (do
      let t ← onGraph (·.fresh (.intersection none) a)
      register x.place t
      let members ← body t
      tryGraph fun g => (g.setMembers t (.ofList members)).map fun g => (g, t))
      fun t s' => s'.types.lookup x.place.canonical = some t ∧
        (s'.graph.attributes t).Includes a := by
  obtain ⟨hext, -, -, hshape⟩ := Graph.fresh_spec s.graph (.intersection none) a
  have h₁ : Proceeds s (s.withPlaceholder x.place.canonical a) :=
    ⟨⟨.refl, .register hext hnone s.graph.size⟩, Graph.gains_fresh _ _ _⟩
  have hlookup := (lookup_withPlaceholder s x.place.canonical x.place.canonical a).trans
    (if_pos rfl)
  have hattributes : (s.withPlaceholder x.place.canonical a).graph.attributes s.graph.size = a :=
    Graph.attributes_fresh _ _ _
  intro hs
  have hrun := hbody s.graph.size (s.withPlaceholder x.place.canonical a)
  rw [outcome_withPlaceholder hnone, outcome_bind]
  rcases hresult : outcome (body s.graph.size) (s.withPlaceholder x.place.canonical a)
    with ⟨e | members, s'⟩
  · exact h₁.trans (hrun.error hs hresult)
  · obtain ⟨h₂, hrecords, target, hmembers⟩ := hrun.ok hs hresult
    -- The body was run with the placeholder in the graph and leaves it as it is.
    have hshape' : s'.graph.shape s.graph.size = .intersection none :=
      h₂.steps.grows.graph.shape_eq hshape (by simp)
    obtain ⟨g, hg, hset⟩ := exists_outcome_setMembers (.ofList members) (.inr hshape')
    have hintersection := shape_setMembers_of_intersection hg hshape'
    have hgains := Graph.gains_setMembers hg
    have hset' : Retains s' { s' with graph := g } := .of_graph hgains
    have hall := h₁.trans h₂
    dsimp only
    rw [hset]
    refine ⟨⟨⟨hall.steps.uses, hall.steps.grows.graph.setMembers (Nat.le_refl _) hg,
      hall.steps.grows.types⟩, hall.gains.trans hgains⟩, fun r t ht => ?_,
      h₂.steps.grows.lookup hlookup, ?_⟩
    · rcases hrecords r t ht with hr | hrecorded
      · rcases eq_or_lookup_of_registered hr with ⟨rfl, rfl⟩ | hold
        · exact .inr ⟨target, .schema hsubject rfl hx hintersection (hmembers.mono hset')⟩
        · exact .inl hold
      · exact .inr (hrecorded.mono hset')
    · have hkept := (h₂.gains.trans hgains).attributes s.graph.size
      rwa [hattributes] at hkept

theorem records_withFound (x : Subject) (a : Attributes) :
    Works lib annotators s (withFound x a) fun a' s' => s' = s ∧ a'.Includes a := by
  unfold withFound
  split
  · exact .pure ⟨rfl, .refl a⟩
  · split
    · exact .pure ⟨rfl, Attributes.includes_combine_left a _⟩
    · exact .throw _

theorem records_convertObject (hlib : lib.Holds) (h : convert.Records lib annotators)
    {schema : List (String × Json)} {place : Place}
    (hvalue : lib.value? place.canonical = some (.object schema))
    (hnone : s.types.lookup place.canonical = none) (a : Attributes) :
    Works lib annotators s (convertObject convert annotators schema place a) fun t s' =>
      s'.types.lookup place.canonical = some t ∧ (s'.graph.attributes t).Includes a := by
  unfold convertObject
  refine (Works.orRefuse (subject annotators schema place)).bind ?_
  rintro x s - ⟨hx, rfl⟩
  obtain ⟨-, rfl, rfl⟩ := isSubject_of_subject hx
  refine (records_withFound x a).bind ?_
  rintro found s - ⟨rfl, hfound⟩
  dsimp only
  refine (records_placeholder hx hvalue hnone _ fun t s' =>
    records_memberTypes hlib h hvalue t _).imp fun t s' _ ht => ⟨ht.1, ht.2.trans ?_⟩
  split
  · exact (Attributes.includes_combine_left found _).trans hfound
  · exact hfound

/-- A place that has no type yet gets one, unless its schema has no parts. The type of an object
schema has the attributes that it was converted with. -/
theorem records_convertSchema (hlib : lib.Holds) (h : convert.Records lib annotators)
    {schema : Json} {place : Place} (hvalue : lib.value? place.canonical = some schema)
    (hnone : s.types.lookup place.canonical = none) (a : Attributes) :
    Works lib annotators s (convertSchema convert annotators schema place a) fun t s' =>
      s'.types.lookup place.canonical = some t ∧ (s'.graph.attributes t).Includes a ∨
        s'.types.lookup place.canonical = none ∧ schema = .bool true ∧
          s'.graph.shape t = .primitive .any := by
  unfold convertSchema
  cases schema with
  | bool b =>
    cases b with
    | true =>
      refine (Works.onGraph (f := (·.share (.primitive .any) .empty))
        (Graph.share_spec s.graph (.primitive .any) .empty).1
        (Graph.gains_share s.graph (.primitive .any) .empty)).imp ?_
      rintro t _ - ⟨rfl, rfl⟩
      exact .inr ⟨hnone, rfl, (Graph.share_spec s.graph (.primitive .any) .empty).2.2⟩
    | false => exact .refuse _
  | object members =>
    have hcanonical := place.canonical_withIdOf members
    have hvalue' : lib.value? (place.withIdOf members).canonical = some (.object members) := by
      rw [hcanonical]
      exact hvalue
    have hnone' : s.types.lookup (place.withIdOf members).canonical = none := by
      rw [hcanonical]
      exact hnone
    have hobject := records_convertObject hlib h hvalue' hnone'
    rw [hcanonical] at hobject
    refine (hobject _).imp fun t s' _ ht => .inl ⟨ht.1, ht.2.trans ?_⟩
    split
    · exact Attributes.includes_combine_left a _
    · exact .refl a
  | _ => exact .refuse _

theorem records_register {schema : Json} {place : Place}
    (hvalue : lib.value? place.canonical = some schema) {t : NodeId}
    (ht : s.types.lookup place.canonical = some t ∨
      s.types.lookup place.canonical = none ∧ schema = .bool true ∧
        s.graph.shape t = .primitive .any) :
    Works lib annotators s (register place t) fun _ s' =>
      s'.types.lookup place.canonical = some t ∧ s'.graph = s.graph := by
  rcases ht with hsome | ⟨hnone, rfl, hshape⟩
  · exact .of_ok (outcome_register_of_some hsome) (.refl s) (.refl s) ⟨hsome, rfl⟩
  · refine .of_ok (outcome_register_of_none t hnone)
      ⟨⟨.refl, .register (.refl s.graph) hnone t⟩, .refl s.graph⟩ (fun r u hu => ?_) ⟨?_, rfl⟩
    · rcases eq_or_lookup_of_registered hu with ⟨rfl, rfl⟩ | hold
      · exact .inr ⟨none, .anything hvalue hshape⟩
      · exact .inl hold
    · dsimp only
      rw [SortedMap.lookup_cons_eq, if_pos rfl]

/-- What the conversion of a place comes to: the type that it has in the end. If it had none, and an
object schema stands there, the type has the attributes. If it had one, that is all. -/
structure Arrives (s : Conversion) (v : Json) (place : Place) (a : Attributes) (t : NodeId)
    (s' : Conversion) : Prop where
  lookup : s'.types.lookup place.canonical = some t
  attributes : s.types.lookup place.canonical = none → (∃ members, v = .object members) →
    (s'.graph.attributes t).Includes a
  known : ∀ u, s.types.lookup place.canonical = some u → u = t ∧ s'.graph = s.graph

theorem arrives_toType (hlib : lib.Holds) {depth : Nat}
    (h : Converter.Records lib annotators (toType annotators depth)) {v : Json} {place : Place}
    (hv : Stands lib s.types place v) (a : Attributes) :
    Works lib annotators s (toType annotators (depth + 1) v place a) (Arrives s v place a) := by
  rw [toType]
  refine Works.get.bind ?_
  rintro _ s - ⟨rfl, rfl⟩
  cases hlookup : s.types.lookup place.canonical with
  | some t =>
    refine .pure ⟨hlookup, fun hnone => ?_, fun u hu => ⟨?_, rfl⟩⟩
    · cases hlookup.symm.trans hnone
    · exact Option.some.inj (hu.symm.trans hlookup)
  | none =>
    have hvalue : lib.value? place.canonical = some v := by
      refine hv.resolve_right ?_
      rintro ⟨t, ht⟩
      cases hlookup.symm.trans ht
    refine (records_convertSchema hlib h hvalue hlookup a).bind fun t s₁ _ ht => ?_
    refine (records_register hvalue (ht.imp_left And.left)).bind ?_
    rintro _ s₂ - ⟨hregistered, hgraph⟩
    refine .pure ⟨hregistered, fun _ hobject => ?_, fun u hu => by cases hlookup.symm.trans hu⟩
    rw [hgraph]
    rcases ht with ⟨-, hincludes⟩ | ⟨-, rfl, -⟩
    · exact hincludes
    · obtain ⟨members, hmembers⟩ := hobject
      cases hmembers

/-- However deep it may go, the converter records what it registers. -/
theorem records_toType (annotators : List Annotator) (hlib : lib.Holds) (depth : Nat) :
    Converter.Records lib annotators (toType annotators depth) := by
  induction depth with
  | zero => exact fun s v place a _ => .throw _
  | succ depth ih =>
    exact fun s v place a hv => (arrives_toType hlib ih hv a).imp fun _ _ _ ht => ht.lookup

/-- What a top-level reference names is converted under its name. -/
theorem records_convertTopLevel (annotators : List Annotator) (hlib : lib.Holds) (name : String)
    (r : Reference) :
    Works lib annotators s (convertTopLevel annotators name r) fun t s' =>
      ∃ found v, (outcome (Library.resolveTopLevel r) s.library).1 = .ok found ∧
        found.value = .ok v ∧ Arrives s v found.place (.givenName name) t s' := by
  refine .of_uses fun hs => ?_
  unfold convertTopLevel
  refine (Works.resolve .empty r).bind ?_
  rintro found s₁ h₁ ⟨hrun, hsame⟩
  have htypes : s₁.types = s.types := by rw [hsame]
  have hgraph : s₁.graph = s.graph := by rw [hsame]
  split
  · exact .throw _
  · next v hv =>
    refine Works.get.bind ?_
    rintro _ s₁ - ⟨rfl, rfl⟩
    have hvalue := Library.value?_of_resolve hlib hs hrun hv
    obtain ⟨depth, hdepth⟩ : ∃ depth, depthBound s₁.library = depth + 1 := ⟨_, rfl⟩
    rw [hdepth]
    refine (arrives_toType hlib (records_toType annotators hlib depth) (.inl hvalue) _).imp
      fun t s₂ _ ht => ⟨found, v, congrArg Prod.fst hrun, hv, ht.lookup, ?_, ?_⟩
    · rw [← htypes]
      exact ht.attributes
    · rw [← htypes, ← hgraph]
      exact ht.known

end JsonTyping.Conversion
