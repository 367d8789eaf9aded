import JsonTyping.Proofs.SchemaParts

/-!
# Members of the types of schemas

The type of a schema is the intersection of what its keywords give. Each member has all values that
are valid for the schema: the union of what the schema admits itself, the target of its reference,
its `allOf` cases, and the unions of its `oneOf` and `anyOf` cases.
-/

namespace JsonTyping.Conversion

variable {lib : Library} {top : List Step} {annotators : List Annotator} {bounded : Prop}
  {s : Conversion} {convert : Converter} {x : Subject}

def Allowed (lib : Library) (x : Subject) (parts : Place → Json → Json → Prop) (v : Json) : Prop :=
  Allows lib parts x.place x.schema v

/-- Every valid value is one of each of the types. -/
def AllMeet (lib : Library) (x : Subject) (s : Conversion) (ts : List NodeId) : Prop :=
  ∀ t ∈ ts, lib.IdFree → Meets lib s.graph s.types (Allowed lib x) t

theorem AllMeet.mono {s' : Conversion} {ts : List NodeId} (h : AllMeet lib x s ts)
    (hs : Advances lib s s') : AllMeet lib x s' ts := fun t ht hfree => hs.meets (h t ht hfree)

/-- Every value that satisfies `P` is one of some of the types. -/
def Offers (lib : Library) (g : Graph) (types : List (Reference × NodeId))
    (P : (Place → Json → Json → Prop) → Json → Prop) (ts : List NodeId) : Prop :=
  ∀ k parts, g.Keeps k → Respects lib types k parts → ∀ v, P parts v → ∃ t ∈ ts, k.Admits t v

theorem Advances.offers {s' : Conversion} (h : Advances lib s s')
    {P : (Place → Json → Json → Prop) → Json → Prop} {ts : List NodeId}
    (hts : Offers lib s.graph s.types P ts) : Offers lib s'.graph s'.types P ts :=
  fun k parts hk hparts => hts k parts (h.graph.keeps.trans hk)
    ⟨hparts.nothing, fun p S v u hp hS hu => hparts.part p S v u hp hS (h.lookup hu)⟩

/-- The value is valid, and no string or container. -/
def IsPlainScalar (lib : Library) (x : Subject) (parts : Place → Json → Json → Prop) (v : Json) :
    Prop :=
  (∀ text, v ≠ .string text) ∧ (∀ items, v ≠ .array items) ∧ (∀ members, v ≠ .object members) ∧
    Allowed lib x parts v

def IsText (lib : Library) (x : Subject) (parts : Place → Json → Json → Prop) (v : Json) : Prop :=
  (∃ text, v = .string text) ∧ Allowed lib x parts v

theorem admits_of_fits {g : Graph} {t : NodeId} {p : Primitive} {v : Json} (h : Limits.Fits p v)
    (ht : g.shape t = .primitive p) : g.Admits t v := by
  cases v with
  | null =>
    obtain rfl : p = .null := h
    exact .null ht
  | bool b =>
    obtain rfl : p = .bool := h
    exact .bool ht b
  | number n =>
    rcases h with rfl | ⟨rfl, hwhole⟩
    · exact .double ht n
    · exact .integer ht hwhole
  | string text => exact h.elim
  | array items => exact h.elim
  | object members => exact h.elim

theorem walks_primitiveTypes (hs : lib.Continues s.library) (hx : IsSubject annotators x) :
    Walks lib annotators bounded s (primitiveTypes x) fun ts s' =>
      Offers lib s'.graph s'.types (IsPlainScalar lib x) ts := by
  unfold primitiveTypes
  dsimp only
  refine (Walks.mapM (R := fun p t s' => p ≠ .none → s'.graph.shape t = .primitive p)
    (fun p t s₁ s₂ hadvances ht hp => ?_) hs fun p _ s' hs' => ?_).imp ?_
  · exact hadvances.graph.shape_eq (ht hp) fun hnone => hp (Shape.primitive.inj hnone)
  · exact (Walks.share hs'.library _).imp fun t s'' _ ht _ => ht
  · rintro ts s' - hts k parts hk - v ⟨htext, harray, hobject, hallows⟩
    obtain ⟨p, hp, hfits⟩ :=
      (limits_of_allows hx hallows).exists_mem_primitives htext harray hobject
    have hne : p ≠ .none := by
      rintro rfl
      cases v with
      | number n => rcases hfits with hnone | ⟨hnone, -⟩ <;> cases hnone
      | _ => cases hfits
    obtain ⟨t, ht, hshape⟩ := exists_right_of_forall₂ hts hp
    have hknown : (Shape.primitive p).IsKnown :=
      ⟨fun hnone => hne (Shape.primitive.inj hnone), nofun, nofun⟩
    exact ⟨t, ht, admits_of_fits hfits (hk.shape_eq (hshape hne) hknown)⟩

theorem walks_stringTypes (hs : lib.Continues s.library) (hx : IsSubject annotators x)
    (names : Attributes) :
    Walks lib annotators bounded s (stringTypes x names) fun ts s' =>
      Offers lib s'.graph s'.types (IsText lib x) ts := by
  unfold stringTypes
  dsimp only
  split
  · next cases hcases =>
    refine .map ((Walks.share hs _).imp fun t s' _ ht => ?_)
    rintro k parts hk - v ⟨⟨text, rfl⟩, hallows⟩
    have hmem := (limits_of_allows hx hallows).mem_cases hcases
    exact ⟨t, List.mem_singleton.2 rfl,
      .enumeration (hk.shape_eq ht ⟨nofun, nofun, nofun⟩) hmem⟩
  · split
    · refine .map ((Walks.share hs _).imp fun t s' _ ht => ?_)
      rintro k parts hk - v ⟨⟨text, rfl⟩, -⟩
      have hstring := isString_stringKind x
      have hknown : (Shape.primitive x.stringKind).IsKnown := by
        refine ⟨fun hnone => ?_, nofun, nofun⟩
        rw [Shape.primitive.inj hnone] at hstring
        cases hstring
      exact ⟨t, List.mem_singleton.2 rfl, .string (hk.shape_eq ht hknown) hstring text⟩
    · next hcontains =>
      refine .pure hs ?_
      rintro k parts - - v ⟨⟨text, rfl⟩, hallows⟩
      exact absurd (limits_of_allows hx hallows).contains_string hcontains

theorem walks_containerTypes (hs : lib.Continues s.library) {t : JsonType} {m : ConvertM NodeId}
    {P : (Place → Json → Json → Prop) → Json → Prop}
    (hm : Walks lib annotators bounded s m fun u s' =>
      lib.IdFree → Meets lib s'.graph s'.types P u)
    (hP : ∀ parts v, P parts v → x.limits.admitsContainer t = true) :
    Walks lib annotators bounded s (containerTypes x t m) fun ts s' =>
      lib.IdFree → Offers lib s'.graph s'.types P ts := by
  unfold containerTypes
  split
  · refine .map (hm.imp fun u s' _ hu hfree k parts hk hparts v hv => ?_)
    exact ⟨u, List.mem_singleton.2 rfl, hu hfree k parts hk hparts v hv⟩
  · next hcontainer =>
    exact .pure hs fun _ k parts _ _ v hv => absurd (hP parts v hv) hcontainer

theorem admitsContainer_array (hx : IsSubject annotators x) {parts : Place → Json → Json → Prop}
    {v : Json} (h : IsArray lib x parts v) : x.limits.admitsContainer .array = true := by
  obtain ⟨⟨vs, rfl⟩, hallows⟩ := h
  refine (limits_of_allows hx hallows).admitsContainer (fun w hw => by cases hw) fun u hu => ?_
  cases u <;> first | rfl | cases hu

theorem admitsContainer_object (hx : IsSubject annotators x) {parts : Place → Json → Json → Prop}
    {v : Json} (h : IsObject lib x parts v) : x.limits.admitsContainer .object = true := by
  obtain ⟨⟨members, rfl⟩, hallows⟩ := h
  refine (limits_of_allows hx hallows).admitsContainer (fun w hw => by cases hw) fun u hu => ?_
  cases u <;> first | rfl | cases hu

theorem walks_ownUnion (h : Converts lib top annotators bounded s convert)
    (hs : lib.Continues s.library) (hx : Here lib top x.place (.object x.schema))
    (hsubject : IsSubject annotators x) (names inferred : Attributes) :
    Walks lib annotators bounded s (ownUnion convert x names inferred) fun t s' =>
      lib.IdFree → Meets lib s'.graph s'.types (Allowed lib x) t := by
  unfold ownUnion
  refine (walks_primitiveTypes hs hsubject).bind fun primitives s₁ h₁ hprimitives => ?_
  refine (walks_stringTypes h₁.library hsubject names).bind fun strings s₂ h₂ hstrings => ?_
  have h₁₂ := h₁.trans h₂
  refine (walks_containerTypes h₂.library (walks_arrayType (h.mono h₁₂) h₂.library hx names)
    fun _ _ hv => admitsContainer_array hsubject hv).bind fun arrays s₃ h₃ harrays => ?_
  have h₁₃ := h₁₂.trans h₃
  refine (walks_containerTypes h₃.library (walks_objectType (h.mono h₁₃) h₃.library hx names)
    fun _ _ hv => admitsContainer_object hsubject hv).bind fun objects s₄ h₄ hobjects => ?_
  refine (Walks.fresh h₄.library inferred).imp fun t s₅ h₅ ht hfree k parts hk hparts v hv => ?_
  have hmember : ∃ u ∈ primitives ++ strings ++ arrays ++ objects, k.Admits u v := by
    simp only [List.mem_append]
    have hscalar : (∀ text, v ≠ .string text) → (∀ items, v ≠ .array items) →
        (∀ members, v ≠ .object members) →
          ∃ u, (((u ∈ primitives ∨ u ∈ strings) ∨ u ∈ arrays) ∨ u ∈ objects) ∧ k.Admits u v := by
      intro htext harray hobject
      obtain ⟨u, hu, hadmits⟩ := ((h₂.trans h₃).trans (h₄.trans h₅)).offers hprimitives k parts hk
        hparts v ⟨htext, harray, hobject, hv⟩
      exact ⟨u, .inl (.inl (.inl hu)), hadmits⟩
    cases v with
    | string text =>
      obtain ⟨u, hu, hadmits⟩ := (h₃.trans (h₄.trans h₅)).offers hstrings k parts hk hparts _
        ⟨⟨text, rfl⟩, hv⟩
      exact ⟨u, .inl (.inl (.inr hu)), hadmits⟩
    | array items =>
      obtain ⟨u, hu, hadmits⟩ := (h₄.trans h₅).offers (harrays hfree) k parts hk hparts _
        ⟨⟨items, rfl⟩, hv⟩
      exact ⟨u, .inl (.inr hu), hadmits⟩
    | object members =>
      obtain ⟨u, hu, hadmits⟩ := h₅.offers (hobjects hfree) k parts hk hparts _
        ⟨⟨members, rfl⟩, hv⟩
      exact ⟨u, .inr hu, hadmits⟩
    | null => exact hscalar (by simp) (by simp) (by simp)
    | bool b => exact hscalar (by simp) (by simp) (by simp)
    | number n => exact hscalar (by simp) (by simp) (by simp)
  obtain ⟨u, hu, hadmits⟩ := hmember
  exact .union (hk.shape_eq ht (by simp [Shape.IsKnown])) (SortedSet.mem_ofList.2 hu) hadmits

theorem walks_ownTypes (h : Converts lib top annotators bounded s convert)
    (hs : lib.Continues s.library) (hx : Here lib top x.place (.object x.schema))
    (hsubject : IsSubject annotators x) (names inferred : Attributes) :
    Walks lib annotators bounded s (ownTypes convert x names inferred) fun ts s' =>
      AllMeet lib x s' ts := by
  unfold ownTypes
  split
  · refine .map ((walks_ownUnion h hs hx hsubject names inferred).imp fun u s' _ hu t ht => ?_)
    obtain rfl := List.mem_singleton.1 ht
    exact hu
  · exact .pure hs nofun

/-- A reference in a schema is resolved to a place where the conversion may go on. -/
theorem walks_resolve (hmemory : lib.InMemory) (hs : lib.Continues s.library) (place : Place)
    (text : String) :
    Walks lib annotators bounded s (onLibrary (Library.resolve place (.parse text)))
      fun found _ => Library.Finds lib place (.parse text) found ∧
        (lib.Continues lib → lib.IdFree →
          (outcome (Library.resolve place (.parse text)) lib).1 = .ok found) := by
  obtain ⟨result, lib', hrun, hlib, hends⟩ := hs.resolve hmemory place (.parse text)
  refine .resolve hlib hrun ?_ ?_
  · rintro found rfl
    refine ⟨hends, fun hself hfree => ?_⟩
    rw [Library.resolve_eq_of_idFree hmemory hfree hself hs, hrun]
  · rintro e rfl
    rcases hends with hschema | ⟨hwritten, -⟩
    · exact .inl hschema
    · exact absurd (Reference.isWritten_parse text) hwritten

theorem walks_targetType (hmemory : lib.InMemory) (hself : lib.Continues lib)
    (h : Converts lib top annotators bounded s convert) (hs : lib.Continues s.library)
    (hx : Here lib top x.place (.object x.schema)) {target : Json}
    (htarget : x.get? "$ref" = some target) (own : Attributes) :
    Walks lib annotators bounded s (targetType convert x own target) fun t s' =>
      lib.IdFree → Meets lib s'.graph s'.types (Allowed lib x) t := by
  unfold targetType
  cases target with
  | string text =>
    refine (walks_resolve hmemory hs x.place text).bind ?_
    rintro found s₁ h₁ ⟨hfinds, hanswer⟩
    obtain ⟨v, hv, hvalue⟩ := hfinds.value?
    have hplace := hx.target hmemory htarget hfinds hvalue
    rw [hv]
    refine ((h.mono h₁).here h₁.library hplace _).imp fun t s₂ _ ht hfree => ?_
    refine (meets_of_registered (hplace.plain hfree) hplace.value ht).imp ?_
    intro parts w hw
    obtain ⟨found', S, hfound', hS, hpart⟩ := hw.target text htarget
    obtain rfl := Except.ok.inj ((hanswer hself hfree).symm.trans hfound')
    obtain rfl := Except.ok.inj (hv.symm.trans hS)
    exact hpart
  | _ => exact .refuse hs _

/-! ### Choices and all members -/

theorem walks_addAttributes (hs : lib.Continues s.library) (t : NodeId) (a : Attributes) :
    Walks lib annotators bounded s (onGraph fun g => (g.addAttributes t a, ()))
      fun _ _ => True :=
  .onGraph hs (Graph.extends_addAttributes s.graph t a) trivial

theorem walks_annotateCases (hs : lib.Continues s.library) {types : List NodeId}
    {found : List Attributes} (h : Proper annotators → found.length = types.length) :
    Walks lib annotators bounded s (annotateCases types found) fun _ _ => True := by
  unfold annotateCases
  split
  · exact .forM hs fun e _ s' hs' => walks_addAttributes hs'.library e.1 e.2
  · next hlength =>
    exact .throw hs fun _ => .inr ⟨fun hproper => hlength (h hproper), _, rfl⟩

theorem walks_annotateChoice (hs : lib.Continues s.library) {t : NodeId} {types : List NodeId}
    {l : List Annotation}
    (h : Proper annotators → ∀ n ∈ l, ∀ found, n.forCases = some found →
      found.length = types.length) (ofUnion : Attributes) :
    Walks lib annotators bounded s (annotateChoice t types ofUnion l) fun _ _ => True := by
  induction l generalizing s ofUnion with
  | nil => exact .pure hs trivial
  | cons n l ih =>
    rw [annotateChoice]
    refine (Walks.forM_option hs fun a _ => walks_addAttributes hs t a).bind fun _ s₁ h₁ _ => ?_
    refine (Walks.forM_option h₁.library fun found hfound =>
      walks_annotateCases h₁.library fun hproper =>
        h hproper n List.mem_cons_self found hfound).bind fun _ s₂ h₂ _ => ?_
    exact ih h₂.library (fun hproper m hm => h hproper m (List.mem_cons_of_mem n hm)) _

theorem walks_choiceType (h : Converts lib top annotators bounded s convert)
    (hs : lib.Continues s.library) (hx : Here lib top x.place (.object x.schema))
    (hsubject : IsSubject annotators x) {keyword : String}
    (hkeyword : keyword = "oneOf" ∨ keyword = "anyOf") {cases : Json}
    (hcases : x.get? keyword = some cases) (t : NodeId) (inferred : Attributes) :
    Walks lib annotators bounded s (choiceType convert x t inferred keyword cases) fun u s' =>
      lib.IdFree → Meets lib s'.graph s'.types (Allowed lib x) u := by
  unfold choiceType
  refine (walks_caseTypes h hs hx hcases _).bind ?_
  rintro types s₁ h₁ ⟨list, rfl, htypes⟩
  dsimp only
  have hannotations : Proper annotators →
      ∀ n ∈ (if keyword = "oneOf" then x.annotations (Json.array list).items? else []),
        ∀ found, n.forCases = some found → found.length = types.length := by
    intro hproper n hn found hfound
    split at hn
    · obtain ⟨annotator, hannotator, hread⟩ := List.mem_filterMap.1 hn
      rw [hsubject.annotators] at hannotator
      obtain ⟨list', hlist, hlength⟩ :=
        (hproper annotator hannotator _ _ _ _ n hread).2 found hfound
      obtain rfl : list = list' := Option.some.inj hlist
      rw [hlength, htypes.length_eq]
    · cases hn
  refine (walks_annotateChoice h₁.library hannotations inferred).bind fun a s₂ h₂ _ => ?_
  refine (Walks.freshUnion h₂.library a _).imp ?_
  intro u s₃ h₃ hu hfree k parts hk hparts v hv
  obtain ⟨i, S, hi, hS⟩ := hv.choice keyword list hkeyword hcases
  obtain ⟨c, hc, hlookup⟩ := htypes.exists_type hi
  have hcase := (hx.member hcases).item hi
  have hadmits := hparts.part _ S v c (hcase.plain hfree) hcase.value
    ((h₂.trans h₃).lookup hlookup) hS
  exact .union (hk.shape_eq hu ⟨nofun, nofun, nofun⟩) (SortedSet.mem_ofList.2 hc) hadmits

theorem walks_allTypes (h : Converts lib top annotators bounded s convert)
    (hs : lib.Continues s.library) (hx : Here lib top x.place (.object x.schema)) {cases : Json}
    (hcases : x.get? "allOf" = some cases) (a : Attributes) :
    Walks lib annotators bounded s (caseTypes convert x "allOf" a cases) fun types s' =>
      AllMeet lib x s' types := by
  refine (walks_caseTypes h hs hx hcases a).imp ?_
  rintro types s' - ⟨list, rfl, htypes⟩ t ht hfree
  obtain ⟨i, v, hi, hlookup⟩ := htypes.exists_case ht
  have hcase := (hx.member hcases).item hi
  refine (meets_of_registered (hcase.plain hfree) hcase.value hlookup).imp fun parts w hw => ?_
  exact hw.allOf list hcases i v hi

/-- Every member of the type of a schema has all values that are valid for it. -/
theorem walks_memberTypes (hmemory : lib.InMemory) (hself : lib.Continues lib)
    (h : Converts lib top annotators bounded s convert) (hs : lib.Continues s.library)
    (hx : Here lib top x.place (.object x.schema)) (hsubject : IsSubject annotators x) (t : NodeId)
    (a : Attributes) :
    Walks lib annotators bounded s (memberTypes convert x t a) fun members s' =>
      AllMeet lib x s' members := by
  unfold memberTypes
  dsimp only
  refine (walks_ownTypes h hs hx hsubject _ _).bind fun own s₁ h₁ hown => ?_
  refine (Walks.mapM_toList h₁.library fun target htarget =>
    walks_targetType hmemory hself (h.mono h₁) h₁.library hx htarget a).bind
      fun target s₂ h₂ htarget => ?_
  have h₁₂ := h₁.trans h₂
  refine (Walks.mapM_toList h₂.library fun cases hcases =>
    walks_allTypes (h.mono h₁₂) h₂.library hx hcases _).bind fun all s₃ h₃ hall => ?_
  have h₁₃ := h₁₂.trans h₃
  refine (Walks.mapM_toList h₃.library fun cases hcases =>
    walks_choiceType (h.mono h₁₃) h₃.library hx hsubject (.inl rfl) hcases t _).bind
      fun one s₄ h₄ hone => ?_
  have h₁₄ := h₁₃.trans h₄
  refine (Walks.mapM_toList h₄.library fun cases hcases =>
    walks_choiceType (h.mono h₁₄) h₄.library hx hsubject (.inr rfl) hcases t _).bind
      fun any s₅ h₅ hany => ?_
  have hmembers : AllMeet lib x s₅ (own ++ target ++ all.flatten ++ one ++ any) := by
    have hown' := AllMeet.mono hown (h₂.trans (h₃.trans (h₄.trans h₅)))
    have htarget' := AllMeet.mono htarget (h₃.trans (h₄.trans h₅))
    have hone' := AllMeet.mono hone h₅
    intro u hu
    simp only [List.mem_append, List.mem_flatten] at hu
    rcases hu with (((hu | hu) | ⟨types, htypes, hu⟩) | hu) | hu
    · exact hown' u hu
    · exact htarget' u hu
    · exact (hall types htypes).mono (h₄.trans h₅) u hu
    · exact hone' u hu
    · exact hany u hu
  split
  · refine .map ((Walks.anyType h₅.library).imp fun u s' _ hu t ht _ => ?_)
    obtain rfl := List.mem_singleton.1 ht
    exact .of_any hu _
  · exact .pure h₅.library hmembers

end JsonTyping.Conversion
