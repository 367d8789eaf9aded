import JsonTyping.Proofs.ConversionRuns
import JsonTyping.Proofs.SchemaLimits

/-!
# Parts of schemas

What the conversion of each part of a schema does, given that the converter it is run with
(`Converts`) registers a type for every place it is called for. In the end the type of a part has
all values that the part leaves room for.
-/

namespace JsonTyping.Conversion

variable {lib : Library} {top : List Step} {annotators : List Annotator} {bounded : Prop}
  {s : Conversion} {convert : Converter} {x : Subject}

/-- The value stands at the place, which a conversion gets to. -/
structure Here (lib : Library) (top : List Step) (place : Place) (v : Json) : Prop where
  isPlace : lib.IsPlace top place.canonical v
  plain : lib.IdFree → place.IsPlain
  value : lib.value? place.canonical = some v

/-- The value stands at the place, or the place has a type already. -/
structure Ready (lib : Library) (top : List Step) (types : List (Reference × NodeId))
    (place : Place) (v : Json) : Prop where
  isPlace : lib.IsPlace top place.canonical v
  plain : lib.IdFree → place.IsPlain
  value : lib.value? place.canonical = some v ∨ ∃ t, types.lookup place.canonical = some t

theorem isPlain_push {place : Place} (h : place.IsPlain) (key : String) :
    (place.push key).IsPlain := by
  obtain ⟨hplace, hne⟩ := h
  refine ⟨?_, hne⟩
  rw [hplace]
  rfl

theorem Here.ready {place : Place} {v : Json} (h : Here lib top place v)
    (types : List (Reference × NodeId)) : Ready lib top types place v :=
  ⟨h.isPlace, h.plain, .inl h.value⟩

theorem Here.member {place : Place} {members : List (String × Json)}
    (h : Here lib top place (.object members)) {key : String} {v : Json}
    (hv : members.lookup key = some v) : Here lib top (place.push key) v where
  isPlace := h.isPlace.member (mem_of_lookup hv)
  plain hfree := isPlain_push (h.plain hfree) key
  value := Library.value?_push h.value hv

theorem Here.item {place : Place} {items : List Json} (h : Here lib top place (.array items))
    {i : Nat} {v : Json} (hv : items[i]? = some v) :
    Here lib top (place.push (toString i)) v where
  isPlace := h.isPlace.item hv
  plain hfree := isPlain_push (h.plain hfree) (toString i)
  value := Library.value?_push h.value (Json.child?_item hv)

/-- A place without a type is one where the value stands. -/
theorem Ready.here {types : List (Reference × NodeId)} {place : Place} {v : Json}
    (h : Ready lib top types place v) (hnone : types.lookup place.canonical = none) :
    Here lib top place v := by
  refine ⟨h.isPlace, h.plain, ?_⟩
  rcases h.value with hvalue | ⟨t, ht⟩
  · exact hvalue
  · cases hnone.symm.trans ht

theorem Here.target (hmemory : lib.InMemory) {place : Place} {schema : List (String × Json)}
    (h : Here lib top place (.object schema)) {text : String}
    (htext : schema.lookup "$ref" = some (.string text)) {found : Resolved}
    (hfinds : Library.Finds lib place (.parse text) found) {v : Json}
    (hv : lib.value? found.place.canonical = some v) : Here lib top found.place v where
  isPlace := h.isPlace.target hmemory htext hfinds hv
  plain hfree := hfinds.plain hfree (h.plain hfree)
  value := hv

/-- From the state on, the converter registers a type for every place it is called for. -/
def Converts (lib : Library) (top : List Step) (annotators : List Annotator) (bounded : Prop)
    (s : Conversion) (convert : Converter) : Prop :=
  ∀ s' v place a, Advances lib s s' → Ready lib top s'.types place v →
    Walks lib annotators bounded s' (convert v place a) fun t s'' =>
      s''.types.lookup place.canonical = some t

theorem Converts.mono {s' : Conversion} (h : Converts lib top annotators bounded s convert)
    (hs : Advances lib s s') : Converts lib top annotators bounded s' convert :=
  fun s'' v place a hs'' => h s'' v place a (hs.trans hs'')

theorem Converts.here (h : Converts lib top annotators bounded s convert)
    (hs : lib.Continues s.library) {place : Place} {v : Json} (hv : Here lib top place v)
    (a : Attributes) : Walks lib annotators bounded s (convert v place a) fun t s' =>
      s'.types.lookup place.canonical = some t :=
  h s v place a (.refl hs) (hv.ready s.types)

/-- Every value that is valid at the place is one of the type. -/
theorem meets_of_registered {place : Place} {S : Json} (hplain : place.IsPlain)
    (hvalue : lib.value? place.canonical = some S) {s : Conversion} {t : NodeId}
    (ht : s.types.lookup place.canonical = some t) :
    Meets lib s.graph s.types (fun parts v => parts place S v) t :=
  fun _ _ _ hparts v hv => hparts.part place S v t hplain hvalue ht hv

theorem Meets.imp {g : Graph} {types : List (Reference × NodeId)}
    {P P' : (Place → Json → Json → Prop) → Json → Prop} {t : NodeId} (h : Meets lib g types P t)
    (hP : ∀ parts v, P' parts v → P parts v) : Meets lib g types P' t :=
  fun k parts hk hparts v hv => h k parts hk hparts v (hP parts v hv)

/-- The types are those registered for the items of a list at the place. -/
def CaseTypes (s : Conversion) (place : Place) (cases : List Json) (types : List NodeId) : Prop :=
  List.Forall₂ (fun (e : Json × Nat) t =>
    s.types.lookup (place.push (toString e.2)).canonical = some t) cases.zipIdx types

theorem CaseTypes.length_eq {place : Place} {cases : List Json} {types : List NodeId}
    (h : CaseTypes s place cases types) : types.length = cases.length := by
  have hlength := List.Forall₂.length_eq h
  rw [List.length_zipIdx] at hlength
  exact hlength.symm

theorem CaseTypes.exists_type {place : Place} {cases : List Json} {types : List NodeId}
    (h : CaseTypes s place cases types) {i : Nat} {v : Json} (hv : cases[i]? = some v) :
    ∃ t ∈ types, s.types.lookup (place.push (toString i)).canonical = some t :=
  exists_right_of_forall₂ h (a := (v, i)) (List.mem_zipIdx_iff_getElem?.2 hv)

theorem CaseTypes.exists_case {place : Place} {cases : List Json} {types : List NodeId}
    (h : CaseTypes s place cases types) {t : NodeId} (ht : t ∈ types) :
    ∃ (i : Nat) (v : Json), cases[i]? = some v ∧
      s.types.lookup (place.push (toString i)).canonical = some t := by
  obtain ⟨⟨v, i⟩, hmem, hlookup⟩ := exists_left_of_forall₂ h ht
  exact ⟨i, v, List.mem_zipIdx_iff_getElem?.1 hmem, hlookup⟩

theorem walks_convertCases (h : Converts lib top annotators bounded s convert)
    (hs : lib.Continues s.library) {place : Place} {cases : List Json}
    (hcases : Here lib top place (.array cases)) (a : Attributes) :
    Walks lib annotators bounded s (convertCases convert place a cases) fun types s' =>
      CaseTypes s' place cases types := by
  unfold convertCases
  refine Walks.mapM (R := fun (e : Json × Nat) t s' =>
    s'.types.lookup (place.push (toString e.2)).canonical = some t) ?_ hs ?_
  · exact fun e t s₁ s₂ hadvances ht => hadvances.lookup ht
  · rintro ⟨v, i⟩ hmem s' hs'
    have hv := hcases.item (List.mem_zipIdx_iff_getElem?.1 hmem)
    exact h s' v (place.push (toString i)) a hs' (hv.ready s'.types)

theorem walks_caseTypes (h : Converts lib top annotators bounded s convert)
    (hs : lib.Continues s.library) (hx : Here lib top x.place (.object x.schema))
    {keyword : String} {cases : Json} (hcases : x.get? keyword = some cases) (a : Attributes) :
    Walks lib annotators bounded s (caseTypes convert x keyword a cases) fun types s' =>
      ∃ list, cases = .array list ∧ CaseTypes s' (x.place.push keyword) list types := by
  unfold caseTypes
  have hplace := hx.member hcases
  cases cases with
  | array list =>
    exact (walks_convertCases h hs hplace a).imp fun types s' _ htypes => ⟨list, rfl, htypes⟩
  | _ => exact .refuse hs _

def IsItem (lib : Library) (x : Subject) (parts : Place → Json → Json → Prop) (v : Json) : Prop :=
  ∃ vs, v ∈ vs ∧ Allows lib parts x.place x.schema (.array vs)

/-- When the items may be those of any listed schema, the type has the values of all of them. -/
theorem meets_listedItems (hx : Here lib top x.place (.object x.schema)) (hfree : lib.IdFree)
    {cases : List Json} (hcases : x.get? "items" = some (.array cases)) {types : List NodeId}
    (htypes : CaseTypes s (x.place.push "items") cases types) (hne : types ≠ []) {g : Graph}
    {t : NodeId} (ht : (SortedSet.ofList types).toList = [t] ∨
      g.shape t = .union (some (.ofList types))) :
    Meets lib g s.types (IsItem lib x) t := by
  rintro k parts hk hparts w ⟨vs, hw, hallows⟩
  have hcases' : cases ≠ [] := by
    rintro rfl
    exact hne (List.eq_nil_of_length_eq_zero htypes.length_eq)
  obtain ⟨i, S, hi, hS⟩ := hallows.listedItems cases vs hcases hcases' rfl w hw
  obtain ⟨u, hu, hlookup⟩ := htypes.exists_type hi
  have hcase := (hx.member hcases).item hi
  have hadmits : k.Admits u w :=
    hparts.part _ S w u (hcase.plain hfree) hcase.value hlookup hS
  have hmem := SortedSet.mem_ofList.2 hu
  rcases ht with honly | hshape
  · rw [SortedSet.mem_iff, honly] at hmem
    obtain rfl := List.mem_singleton.1 hmem
    exact hadmits
  · exact .union (hk.shape_eq hshape ⟨nofun, nofun, nofun⟩) hmem hadmits

theorem walks_itemsType (h : Converts lib top annotators bounded s convert)
    (hs : lib.Continues s.library) (hx : Here lib top x.place (.object x.schema))
    (a : Attributes) :
    Walks lib annotators bounded s (itemsType convert x a) fun t s' =>
      lib.IdFree → Meets lib s'.graph s'.types (IsItem lib x) t := by
  have hsingle : ∀ v, x.get? "items" = some v → (∀ cases, v ≠ .array cases) →
      Walks lib annotators bounded s (convert v (x.place.push "items") a) fun t s' =>
        lib.IdFree → Meets lib s'.graph s'.types (IsItem lib x) t := by
    intro v hv hlist
    have hplace := hx.member hv
    refine (h.here hs hplace a).imp fun t s' _ ht hfree => ?_
    refine (meets_of_registered (hplace.plain hfree) hplace.value ht).imp ?_
    rintro parts w ⟨vs, hw, hallows⟩
    exact hallows.items v vs hv hlist rfl w hw
  unfold itemsType
  dsimp only
  split
  · exact (Walks.anyType hs).imp fun t s' _ ht _ => .of_any ht _
  · next cases hcases =>
    have hplace := hx.member hcases
    refine (walks_convertCases h hs hplace a).bind fun types s' hadvances htypes => ?_
    split
    · exact (Walks.anyType hadvances.library).imp fun t s'' _ ht _ => .of_any ht _
    · next hne =>
      have hne' : types ≠ [] := fun hnil => hne (List.isEmpty_iff.2 hnil)
      obtain ⟨g, t, hunion, hext, ht⟩ :=
        s'.graph.union_spec (SortedSet.toList_ofList_ne_nil hne') .empty
      refine .tryGraph hadvances.library hunion hext fun hfree => ?_
      exact meets_listedItems hx hfree hcases htypes hne' ht
  · next members hv => exact hsingle _ hv (by simp)
  · next b hv => exact hsingle _ hv (by simp)
  · exact .refuse hs _

def IsArray (lib : Library) (x : Subject) (parts : Place → Json → Json → Prop) (v : Json) : Prop :=
  (∃ vs, v = .array vs) ∧ Allows lib parts x.place x.schema v

theorem walks_arrayType (h : Converts lib top annotators bounded s convert)
    (hs : lib.Continues s.library) (hx : Here lib top x.place (.object x.schema))
    (a : Attributes) :
    Walks lib annotators bounded s (arrayType convert x a) fun t s' =>
      lib.IdFree → Meets lib s'.graph s'.types (IsArray lib x) t := by
  unfold arrayType
  refine (walks_itemsType h hs hx a).bind fun items s₁ hadvances hitems => ?_
  refine (Walks.share hadvances.library .empty).imp fun t s' hadvances' ht hfree => ?_
  have hmeets := hadvances'.meets (hitems hfree)
  rintro k parts hk hparts v ⟨⟨vs, rfl⟩, hallows⟩
  exact .array (hk.shape_eq ht ⟨nofun, nofun, nofun⟩) fun w hw =>
    hmeets k parts hk hparts w ⟨vs, hw, hallows⟩

/-! ### Objects -/

theorem mem_addSelfRequired {schemas : List (String × Json)} {names : List String} {name : String}
    (h : name ∈ addSelfRequired names schemas) :
    name ∈ names ∨ ∃ S, (name, S) ∈ schemas ∧ S.get? "required" = some (.bool true) := by
  induction schemas generalizing names with
  | nil => exact .inl h
  | cons e schemas ih =>
    obtain ⟨key, S⟩ := e
    rw [addSelfRequired] at h
    split at h
    · next hself =>
      rcases ih h with hmem | ⟨T, hT, hrequired⟩
      · split at hmem
        · exact .inl hmem
        · rcases List.mem_append.1 hmem with hmem | hmem
          · exact .inl hmem
          · obtain rfl := List.mem_singleton.1 hmem
            exact .inr ⟨S, List.mem_cons_self, hself⟩
      · exact .inr ⟨T, List.mem_cons_of_mem _ hT, hrequired⟩
    · rcases ih h with hmem | ⟨T, hT, hrequired⟩
      · exact .inl hmem
      · exact .inr ⟨T, List.mem_cons_of_mem _ hT, hrequired⟩

theorem get?_of_propertySchemas {schemas : List (String × Json)}
    (h : propertySchemas x = .ok schemas) :
    x.get? "properties" = none ∧ schemas = [] ∨ x.get? "properties" = some (.object schemas) := by
  unfold propertySchemas at h
  split at h
  · next hnone =>
    obtain rfl := Except.ok.inj h
    exact .inl ⟨hnone, rfl⟩
  · next hmembers =>
    obtain rfl := Except.ok.inj h
    exact .inr hmembers
  · cases h

theorem get?_properties {schemas : List (String × Json)}
    (hschemas : propertySchemas x = .ok schemas) {e : String × Json} (he : e ∈ schemas) :
    x.get? "properties" = some (.object schemas) := by
  rcases get?_of_propertySchemas hschemas with ⟨-, rfl⟩ | hobject
  · cases he
  · exact hobject

/-- The names that are collected are those of required properties. -/
theorem requires_of_mem {listed : List String} (hlisted : requiredNames x = .ok listed)
    {schemas : List (String × Json)} (hschemas : propertySchemas x = .ok schemas) {name : String}
    (h : name ∈ addSelfRequired listed schemas) : Requires x.schema name := by
  rcases mem_addSelfRequired h with hmem | ⟨S, hS, hself⟩
  · refine .inl ?_
    unfold requiredNames at hlisted
    split at hlisted
    · cases hlisted
      cases hmem
    · cases hlisted
      cases hmem
    · next items hitems =>
      split at hlisted
      · next names hnames =>
        obtain rfl := Except.ok.inj hlisted
        obtain ⟨item, hitem, hstring⟩ :=
          exists_left_of_forall₂ (forall₂_of_mapM_eq_some hnames) hmem
        refine ⟨items, hitems, ?_⟩
        cases item with
        | string text =>
          obtain rfl := Option.some.inj hstring
          exact hitem
        | _ => cases hstring
      · cases hlisted
    · cases hlisted
  · exact .inr ⟨schemas, S, get?_properties hschemas hS, hS, hself⟩

theorem exists_mem_of_declares {schemas : List (String × Json)}
    (hschemas : propertySchemas x = .ok schemas) {name : String} (h : Declares x.schema name) :
    ∃ S, (name, S) ∈ schemas := by
  obtain ⟨declared, S, hdeclared, hS⟩ := h
  rcases get?_of_propertySchemas hschemas with ⟨hnone, -⟩ | hobject
  · cases hnone.symm.trans hdeclared
  · cases hobject.symm.trans hdeclared
    exact ⟨S, hS⟩

/-- The property is that of a declared one, whose type is the one registered for its schema. -/
def DeclaredAs (x : Subject) (required : List String) (s : Conversion) (e : String × Json)
    (p : String × Property) : Prop :=
  p.1 = e.1 ∧ p.2.optional = !required.contains e.1 ∧
    s.types.lookup ((x.place.push "properties").push e.1).canonical = some p.2.type

/-- Of a repeated name the first schema is the one that stands at the place. -/
theorem lookup_of_eq_append {α : Type} {l before rest : List (String × α)} {key : String} {a : α}
    (h : l = before ++ (key, a) :: rest) :
    (∃ b, (key, b) ∈ before) ∨ l.lookup key = some a := by
  subst h
  cases hbefore : before.lookup key with
  | some b => exact .inl ⟨b, mem_of_lookup hbefore⟩
  | none =>
    right
    rw [List.lookup_append, hbefore, Option.none_or, SortedMap.lookup_cons_eq, if_pos rfl]

/-- The schema of a declared property is ready when those of the same name before it have types. -/
theorem ready_property (hx : Here lib top x.place (.object x.schema))
    {schemas before rest : List (String × Json)} (hschemas : propertySchemas x = .ok schemas)
    {name : String} {v : Json} (heq : schemas = before ++ (name, v) :: rest)
    {types : List (Reference × NodeId)}
    (hbefore : ∀ w, (name, w) ∈ before →
      ∃ t, types.lookup ((x.place.push "properties").push name).canonical = some t) :
    Ready lib top types ((x.place.push "properties").push name) v := by
  have hmem : (name, v) ∈ schemas := by
    rw [heq]
    exact List.mem_append_right before List.mem_cons_self
  have hplace := hx.member (get?_properties hschemas hmem)
  refine ⟨hplace.isPlace.member hmem, fun hfree => isPlain_push (hplace.plain hfree) name, ?_⟩
  rcases lookup_of_eq_append heq with ⟨w, hw⟩ | hlookup
  · exact .inr (hbefore w hw)
  · exact .inl (hplace.member hlookup).value

theorem walks_declaredProperties (h : Converts lib top annotators bounded s convert)
    (hs : lib.Continues s.library) (hx : Here lib top x.place (.object x.schema))
    {schemas : List (String × Json)} (hschemas : propertySchemas x = .ok schemas)
    (required : List String) :
    Walks lib annotators bounded s (declaredProperties convert x required schemas)
      fun declared s' => List.Forall₂ (DeclaredAs x required s') schemas declared := by
  unfold declaredProperties
  dsimp only
  refine Walks.mapM_inOrder (R := fun e p s' => DeclaredAs x required s' e p) ?_ hs [] nofun ?_
  · rintro e p s₁ s₂ hadvances ⟨hname, hoptional, htype⟩
    exact ⟨hname, hoptional, hadvances.lookup htype⟩
  · rintro before ⟨name, v⟩ rest s' heq hs' hbefore
    rw [List.nil_append] at heq
    have hready : Ready lib top s'.types ((x.place.push "properties").push name) v := by
      refine ready_property hx hschemas heq fun w hw => ?_
      obtain ⟨p, -, -, htype⟩ := hbefore (name, w) hw
      exact ⟨p.2.type, htype⟩
    refine (h s' v _ (.inferredName name) hs' hready).bind fun t s'' hadvances ht => ?_
    exact .pure hadvances.library ⟨rfl, rfl, ht⟩

theorem exists_schema_of_find? {required : List String} {schemas : List (String × Json)}
    {declared : List (String × Property)}
    (hdeclared : List.Forall₂ (DeclaredAs x required s) schemas declared) {name : String}
    {p : Property} (hp : (SortedMap.ofList declared).find? name = some p) :
    ∃ S, (name, S) ∈ schemas ∧ p.optional = !required.contains name ∧
      s.types.lookup ((x.place.push "properties").push name).canonical = some p.type := by
  obtain ⟨⟨name', S⟩, hmem, hname, hoptional, htype⟩ :=
    exists_left_of_forall₂ hdeclared (SortedMap.mem_of_find?_ofList hp)
  obtain rfl : name = name' := hname
  exact ⟨S, hmem, hoptional, htype⟩

theorem not_declares_of_find?_eq_none {required : List String} {schemas : List (String × Json)}
    (hschemas : propertySchemas x = .ok schemas) {declared : List (String × Property)}
    (hdeclared : List.Forall₂ (DeclaredAs x required s) schemas declared) {name : String}
    (hnone : (SortedMap.ofList declared).find? name = none) : ¬ Declares x.schema name := by
  intro hdeclares
  obtain ⟨S, hS⟩ := exists_mem_of_declares hschemas hdeclares
  obtain ⟨⟨name', p⟩, hmem, hname, -, -⟩ := exists_right_of_forall₂ hdeclared hS
  obtain rfl : name' = name := hname
  obtain ⟨q, hq⟩ := SortedMap.exists_find?_ofList hmem
  cases hnone.symm.trans hq

/-- The value is that of a property without a schema of its own in a valid object. -/
def IsExtra (lib : Library) (x : Subject) (parts : Place → Json → Json → Prop) (v : Json) : Prop :=
  ∃ name members, (name, v) ∈ members ∧ ¬ Declares x.schema name ∧
    Allows lib parts x.place x.schema (.object members)

theorem here_additionalSchema (hx : Here lib top x.place (.object x.schema)) {v : Json}
    {place : Place} (h : additionalSchema x = some (v, place)) :
    Here lib top place v ∧ ∀ parts w, IsExtra lib x parts w → parts place v w := by
  unfold additionalSchema at h
  split at h
  · next v' hv' =>
    cases h
    refine ⟨hx.member hv', ?_⟩
    rintro parts w ⟨name, members, hmem, hdeclares, hallows⟩
    exact hallows.additional v members hv' rfl name w hmem hdeclares
  · obtain ⟨v', hv', heq⟩ := Option.map_eq_some_iff.1 h
    cases heq
    obtain ⟨patterns, hpatterns, hlookup⟩ := Option.bind_eq_some_iff.1 hv'
    cases patterns with
    | object members =>
      refine ⟨(hx.member hpatterns).member hlookup, ?_⟩
      rintro parts w ⟨name, members', -, -, hallows⟩
      cases hallows.noPatterns.symm.trans hpatterns
    | _ => cases hlookup

theorem walks_additionalType (h : Converts lib top annotators bounded s convert)
    (hs : lib.Continues s.library) (hx : Here lib top x.place (.object x.schema))
    (a : Attributes) :
    Walks lib annotators bounded s (additionalType convert x a) fun additional s' =>
      (∀ t, additional = some t → lib.IdFree →
        Meets lib s'.graph s'.types (IsExtra lib x) t) ∧
      (additional = none → ∀ types k parts w, Respects lib types k parts →
        ¬ IsExtra lib x parts w) := by
  have hany : Walks lib annotators bounded s (some <$> anyType) fun additional s' =>
      (∀ t, additional = some t → lib.IdFree →
        Meets lib s'.graph s'.types (IsExtra lib x) t) ∧
      (additional = none → ∀ types k parts w, Respects lib types k parts →
        ¬ IsExtra lib x parts w) := by
    refine .map ((Walks.anyType hs).imp fun t s' _ ht => ⟨fun t' ht' _ => ?_, nofun⟩)
    obtain rfl := Option.some.inj ht'
    exact .of_any ht _
  unfold additionalType
  split
  · exact hany
  · exact hany
  · next place hschema =>
    obtain ⟨-, hextra⟩ := here_additionalSchema hx hschema
    refine .pure hs ⟨nofun, fun _ types k parts w hparts hw => ?_⟩
    exact hparts.nothing place w (hextra parts w hw)
  · next v place _ _ hschema =>
    obtain ⟨hplace, hextra⟩ := here_additionalSchema hx hschema
    refine .map ((h.here hs hplace a).imp fun t s' _ ht => ⟨fun t' ht' hfree => ?_, nofun⟩)
    obtain rfl := Option.some.inj ht'
    exact (meets_of_registered (hplace.plain hfree) hplace.value ht).imp hextra

theorem find?_foldl_insert (missing : List String) (p : Property) (name : String)
    (properties : SortedMap String Property) :
    (missing.foldl (fun m name => m.insert name p) properties).find? name =
      if name ∈ missing then some p else properties.find? name := by
  induction missing generalizing properties with
  | nil => simp only [List.foldl_nil, List.not_mem_nil, if_false]
  | cons first missing ih =>
    rw [List.foldl_cons, ih, SortedMap.find?_insert]
    by_cases hmissing : name ∈ missing
    · rw [if_pos hmissing, if_pos (List.mem_cons_of_mem first hmissing)]
    · rw [if_neg hmissing]
      by_cases hname : name = first
      · subst hname
        rw [if_pos rfl, if_pos List.mem_cons_self]
      · rw [if_neg hname, if_neg]
        intro hmem
        rcases List.mem_cons.1 hmem with hfirst | hmem
        · exact hname hfirst
        · exact hmissing hmem

/-- Every required property is there in the end: with its own type if it is declared, and else with
that of all other properties. -/
theorem find?_of_addRequired {required : List String} {properties all : SortedMap String Property}
    {additional : Option NodeId} (h : addRequired x required properties additional = .ok all)
    (name : String) :
    all.find? name = properties.find? name ∨
      properties.find? name = none ∧ name ∈ required ∧
        ∃ t, additional = some t ∧ all.find? name = some ⟨t, false⟩ := by
  unfold addRequired at h
  dsimp only at h
  split at h
  · obtain rfl := Except.ok.inj h
    exact .inl rfl
  · cases h
  · next t _ =>
    obtain rfl := Except.ok.inj h
    rw [find?_foldl_insert]
    split
    · next hmem =>
      obtain ⟨hrequired, hmissing⟩ := List.mem_filter.1 hmem
      refine .inr ⟨?_, hrequired, t, rfl, rfl⟩
      rw [SortedMap.contains, Bool.not_eq_true', Option.isSome_eq_false_iff,
        Option.isNone_iff_eq_none] at hmissing
      exact hmissing
    · exact .inl rfl

def IsObject (lib : Library) (x : Subject) (parts : Place → Json → Json → Prop) (v : Json) : Prop :=
  (∃ members, v = .object members) ∧ Allows lib parts x.place x.schema v

theorem meets_object (hx : Here lib top x.place (.object x.schema)) (hfree : lib.IdFree)
    {listed required : List String} {schemas : List (String × Json)}
    (hlisted : requiredNames x = .ok listed) (hschemas : propertySchemas x = .ok schemas)
    (hrequired : required = addSelfRequired listed schemas)
    {declared : List (String × Property)}
    (hdeclared : List.Forall₂ (DeclaredAs x required s) schemas declared)
    {additional : Option NodeId}
    (htyped : ∀ t, additional = some t → Meets lib s.graph s.types (IsExtra lib x) t)
    (hnone : additional = none → ∀ types k parts w, Respects lib types k parts →
      ¬ IsExtra lib x parts w)
    {all : SortedMap String Property}
    (hall : addRequired x required (.ofList declared) additional = .ok all) {t : NodeId}
    (ht : s.graph.shape t = .object all additional) :
    Meets lib s.graph s.types (IsObject lib x) t := by
  rintro k parts hk hparts v ⟨⟨members, rfl⟩, hallows⟩
  have hextra : ∀ name w, (name, w) ∈ members →
      (SortedMap.ofList declared).find? name = none → IsExtra lib x parts w :=
    fun name w hw hmissing =>
      ⟨name, members, hw, not_declares_of_find?_eq_none hschemas hdeclared hmissing, hallows⟩
  -- Every member has a type, is of that type, and no member that the type requires is missing.
  refine .object (hk.shape_eq ht ⟨nofun, nofun, nofun⟩) ?_ ?_ ?_
  · intro name w hw
    unfold typeOfProperty
    split
    · rfl
    · next hfind =>
      rcases find?_of_addRequired hall name with hsame | ⟨-, -, u, -, hsome⟩
      · cases additional with
        | some u => rfl
        | none =>
          rw [hfind] at hsame
          exact absurd (hextra name w hw hsame.symm) (hnone rfl s.types k parts w hparts)
      · cases hfind.symm.trans hsome
  · intro name w u hw hu
    unfold typeOfProperty at hu
    rcases find?_of_addRequired hall name with hsame | ⟨hmissing, -, u', hu', hsome⟩
    · split at hu
      · next p hfind =>
        obtain rfl := Option.some.inj hu
        rw [hfind] at hsame
        obtain ⟨S, hS, -, htype⟩ := exists_schema_of_find? hdeclared hsame.symm
        have hobject := get?_properties hschemas hS
        obtain ⟨first, hfirst⟩ := exists_lookup_of_mem hS
        have hplace := (hx.member hobject).member hfirst
        exact hparts.part _ first w p.type (hplace.plain hfree) hplace.value htype
          (hallows.properties schemas members hobject rfl name first w (mem_of_lookup hfirst) hw)
      · next hfind =>
        rw [hfind] at hsame
        exact htyped u hu k parts hk hparts w (hextra name w hw hsame.symm)
    · rw [hsome] at hu
      obtain rfl : u' = u := Option.some.inj hu
      exact htyped u' hu' k parts hk hparts w (hextra name w hw hmissing)
  · intro name p hp hoptional
    have hmem : name ∈ required := by
      rcases find?_of_addRequired hall name with hsame | ⟨-, hmem, -⟩
      · rw [hp] at hsame
        obtain ⟨S, -, hcontains, -⟩ := exists_schema_of_find? hdeclared hsame.symm
        rw [hoptional] at hcontains
        rw [eq_comm, Bool.not_eq_false'] at hcontains
        exact List.contains_iff_mem.1 hcontains
      · exact hmem
    rw [hrequired] at hmem
    exact hallows.required members rfl name (requires_of_mem hlisted hschemas hmem)

theorem walks_objectType (h : Converts lib top annotators bounded s convert)
    (hs : lib.Continues s.library) (hx : Here lib top x.place (.object x.schema))
    (a : Attributes) :
    Walks lib annotators bounded s (objectType convert x a) fun t s' =>
      lib.IdFree → Meets lib s'.graph s'.types (IsObject lib x) t := by
  unfold objectType
  refine (Walks.orRefuse hs).bind ?_
  rintro listed _ - ⟨hlisted, rfl⟩
  refine (Walks.orRefuse hs).bind ?_
  rintro schemas _ - ⟨hschemas, rfl⟩
  dsimp only
  refine (walks_declaredProperties h hs hx hschemas _).bind fun declared s₁ h₁ hdeclared => ?_
  refine (walks_additionalType (h.mono h₁) h₁.library hx a).bind
    fun additional s₂ h₂ hadditional => ?_
  refine (Walks.orRefuse h₂.library).bind ?_
  rintro all _ - ⟨hall, rfl⟩
  refine (Walks.fresh h₂.library a).imp fun t s₃ h₃ ht hfree => ?_
  refine meets_object hx hfree hlisted hschemas rfl ?_ (fun u hu => ?_) hadditional.2 hall ht
  · refine List.Forall₂.imp (fun e p hp => ?_) hdeclared
    exact ⟨hp.1, hp.2.1, (h₂.trans h₃).lookup hp.2.2⟩
  · exact h₃.meets (hadditional.1 u hu hfree)

end JsonTyping.Conversion
