import JsonTyping.Proofs.BatchRuns
import JsonTyping.Proofs.SchemaCalls

/-!
# Runs that follow calls

A conversion gets to exactly the places that schemas call for, depth first, and it fails with the
first fault (`Conversion.Makes`). The rules follow the steps one by one, and then there is one lemma
for every part of a schema, up to whole references (`Conversion.makes_convertTopLevel`).
-/

namespace JsonTyping.Conversion

/-- The places that have types. -/
def registered (s : Conversion) : Set Reference := {r | ∃ t, s.types.lookup r = some t}

theorem notMem_registered {s : Conversion} {r : Reference} :
    r ∉ s.registered ↔ s.types.lookup r = none := by
  rw [Option.eq_none_iff_forall_ne_some]
  exact not_exists

theorem registered_cons {s s' : Conversion} {r : Reference} {t : NodeId}
    (h : s'.types = (r, t) :: s.types) : s'.registered = insert r s.registered := by
  ext r'
  change (∃ u, s'.types.lookup r' = some u) ↔ r' = r ∨ ∃ u, s.types.lookup r' = some u
  rw [h, SortedMap.lookup_cons_eq]
  split
  · next heq => exact iff_of_true ⟨t, rfl⟩ (.inl heq)
  · next hne => exact ⟨.inr, fun hor => hor.resolve_left hne⟩

variable {lib : Library} {top : List Step} {annotators : List Annotator} {seen : Set Reference}
  {s s' : Conversion} {convert : Converter} {x : Subject} {list list' : List Call} {α β : Type}

/-- A run of the step makes these calls: from the places that were seen before it gets to those that
are registered in the end, or it fails with a fault of the schemas. When it ends well, `Q` holds. -/
def Makes (lib : Library) (annotators : List Annotator) (seen : Set Reference) (s : Conversion)
    (m : ConvertM α) (list : List Call) (Q : α → Prop) : Prop :=
  match outcome m s with
  | (.ok a, s') => lib.Continues s'.library ∧
      Traverses (calls lib annotators) seen list (.ok s'.registered) ∧ Q a
  | (.error e, _) => ∀ error, e = .schema error →
      Traverses (calls lib annotators) seen list (.error error)

theorem Makes.of_ok {m : ConvertM α} {Q : α → Prop} {a : α} (hrun : outcome m s = (.ok a, s'))
    (hs' : lib.Continues s'.library)
    (h : Traverses (calls lib annotators) seen list (.ok s'.registered)) (hQ : Q a) :
    Makes lib annotators seen s m list Q := by
  unfold Makes
  rw [hrun]
  exact ⟨hs', h, hQ⟩

theorem Makes.of_error {m : ConvertM α} {Q : α → Prop} {e : Halt}
    (hrun : outcome m s = (.error e, s'))
    (h : ∀ error, e = .schema error →
      Traverses (calls lib annotators) seen list (.error error)) :
    Makes lib annotators seen s m list Q := by
  unfold Makes
  rw [hrun]
  exact h

theorem Makes.ok {m : ConvertM α} {Q : α → Prop} (h : Makes lib annotators seen s m list Q) {a : α}
    (hrun : outcome m s = (.ok a, s')) : lib.Continues s'.library ∧
      Traverses (calls lib annotators) seen list (.ok s'.registered) ∧ Q a := by
  unfold Makes at h
  rw [hrun] at h
  exact h

theorem Makes.error {m : ConvertM α} {Q : α → Prop} (h : Makes lib annotators seen s m list Q)
    {error : SchemaError} (hrun : outcome m s = (.error (.schema error), s')) :
    Traverses (calls lib annotators) seen list (.error error) := by
  unfold Makes at h
  rw [hrun] at h
  exact h error rfl

theorem Makes.pure {Q : α → Prop} {a : α} (hs : lib.Continues s.library) (hQ : Q a) :
    Makes lib annotators s.registered s (pure a) [] Q :=
  .of_ok rfl hs (.nil s.registered) hQ

theorem Makes.refuse {Q : α → Prop} (error : SchemaError) (rest : List Call) :
    Makes lib annotators seen s (refuse error : ConvertM α) (.fault error :: rest) Q := by
  refine .of_error rfl fun error' heq => ?_
  obtain rfl := Halt.schema.inj heq
  exact .fault seen error rest

theorem Makes.misuse {Q : α → Prop} (cause : Misuse) :
    Makes lib annotators seen s (throw (.misuse cause) : ConvertM α) list Q :=
  .of_error rfl nofun

theorem Makes.bind {m : ConvertM α} {f : α → ConvertM β} {P : α → Prop} {Q : β → Prop}
    (hm : Makes lib annotators seen s m list P)
    (hf : ∀ a s', lib.Continues s'.library →
      Traverses (calls lib annotators) seen list (.ok s'.registered) → P a →
        Makes lib annotators s'.registered s' (f a) list' Q) :
    Makes lib annotators seen s (m >>= f) (list ++ list') Q := by
  rcases hrun : outcome m s with ⟨e | a, s₁⟩
  · have hboth : outcome (m >>= f) s = (.error e, s₁) := by rw [outcome_bind, hrun]
    refine .of_error hboth fun error heq => ?_
    subst heq
    exact (hm.error hrun).append_error list'
  · obtain ⟨hs₁, hfirst, hP⟩ := hm.ok hrun
    have hrest := hf a s₁ hs₁ hfirst hP
    have hboth := outcome_bind_of_ok hrun f
    rcases hrun' : outcome (f a) s₁ with ⟨e | b, s₂⟩
    · rw [hrun'] at hboth
      refine .of_error hboth fun error heq => ?_
      subst heq
      exact hfirst.append (hrest.error hrun')
    · rw [hrun'] at hboth
      obtain ⟨hs₂, hsecond, hQ⟩ := hrest.ok hrun'
      exact .of_ok hboth hs₂ (hfirst.append hsecond) hQ

/-- The second step makes no calls. -/
theorem Makes.bindLast {m : ConvertM α} {f : α → ConvertM β} {P : α → Prop} {Q : β → Prop}
    (hm : Makes lib annotators seen s m list P)
    (hf : ∀ a s', lib.Continues s'.library →
      Traverses (calls lib annotators) seen list (.ok s'.registered) → P a →
        Makes lib annotators s'.registered s' (f a) [] Q) :
    Makes lib annotators seen s (m >>= f) list Q := by
  have hboth := hm.bind hf
  rwa [List.append_nil] at hboth

/-- The first step makes no calls. -/
theorem Makes.bindFirst {m : ConvertM α} {f : α → ConvertM β} {P : α → Prop} {Q : β → Prop}
    (hm : Makes lib annotators seen s m [] P)
    (hf : ∀ a s', lib.Continues s'.library → P a →
      Makes lib annotators s'.registered s' (f a) list Q) :
    Makes lib annotators seen s (m >>= f) list Q :=
  hm.bind fun a s' hs' _ => hf a s' hs'

/-- What was read goes on, or is what is wrong. -/
theorem Makes.orRefuse_bind {read : Except SchemaError α} {f : α → ConvertM β} {Q : β → Prop}
    {rest : α → List Call}
    (hf : ∀ a, read = .ok a → Makes lib annotators seen s (f a) (rest a) Q) :
    Makes lib annotators seen s (orRefuse read >>= f) (callsAfter read rest) Q := by
  cases read with
  | ok a => exact hf a rfl
  | error error => exact .refuse error []

theorem Makes.get_bind {f : Conversion → ConvertM β} {Q : β → Prop}
    (h : Makes lib annotators seen s (f s) list Q) :
    Makes lib annotators seen s (get >>= f) list Q := by
  unfold Makes
  rw [outcome_bind_of_ok (outcome_get s)]
  exact h

theorem Makes.imp {m : ConvertM α} {P Q : α → Prop} (h : Makes lib annotators seen s m list P)
    (hPQ : ∀ a, P a → Q a) : Makes lib annotators seen s m list Q := by
  rcases hrun : outcome m s with ⟨e | a, s'⟩
  · refine .of_error hrun fun error heq => ?_
    subst heq
    exact h.error hrun
  · obtain ⟨hs', hlist, hP⟩ := h.ok hrun
    exact .of_ok hrun hs' hlist (hPQ a hP)

theorem Makes.map {m : ConvertM α} {f : α → β} {Q : β → Prop}
    (h : Makes lib annotators seen s m list fun a => Q (f a)) :
    Makes lib annotators seen s (f <$> m) list Q := by
  rw [← bind_pure_comp]
  exact h.bindLast fun a s' hs' _ hQ => .pure hs' hQ

/-- What the schema at a place calls for comes after the call for the place. -/
theorem Makes.visit {m : ConvertM α} {Q : α → Prop} {r : Reference} (hr : r ∉ s.registered)
    (h : Makes lib annotators (insert r s.registered) s m (calls lib annotators r) Q) :
    Makes lib annotators s.registered s m [.visit r] Q := by
  rcases hrun : outcome m s with ⟨e | a, s'⟩
  · refine .of_error hrun fun error heq => ?_
    subst heq
    exact .fails hr (h.error hrun) []
  · obtain ⟨hs', hlist, hQ⟩ := h.ok hrun
    exact .of_ok hrun hs' (.visits hr hlist (.nil s'.registered)) hQ

/-- Steps for the elements of a list, each of which may count on the places that those before it
call for. -/
theorem Makes.mapM_inOrder {f : α → ConvertM β} {listOf : α → List Call} {Q : α → β → Prop}
    {l : List α} (hs : lib.Continues s.library) (done : List α)
    (hdone : ∀ b ∈ done, ∀ r, .visit r ∈ listOf b → r ∈ s.registered)
    (h : ∀ before a rest s', done ++ l = before ++ a :: rest → lib.Continues s'.library →
      (∀ b ∈ before, ∀ r, .visit r ∈ listOf b → r ∈ s'.registered) →
        Makes lib annotators s'.registered s' (f a) (listOf a) (Q a)) :
    Makes lib annotators s.registered s (l.mapM f) (l.flatMap listOf) (List.Forall₂ Q l) := by
  -- The elements that were passed go into `done`.
  induction l generalizing s done with
  | nil =>
    rw [List.mapM_nil]
    exact .pure hs .nil
  | cons a l ih =>
    rw [List.mapM_cons, List.flatMap_cons]
    refine (h done a l s rfl hs hdone).bind fun b s₁ hs₁ hfirst hb => ?_
    have hdone₁ : ∀ c ∈ done ++ [a], ∀ r, .visit r ∈ listOf c → r ∈ s₁.registered := by
      intro c hc r hr
      rcases List.mem_append.1 hc with hc | hc
      · exact hfirst.subset (hdone c hc r hr)
      · obtain rfl := List.mem_singleton.1 hc
        obtain ⟨r', hr', heq⟩ := hfirst.exists_visit hr
        obtain rfl := Call.visit.inj heq
        exact hr'
    refine (ih hs₁ (done ++ [a]) hdone₁ ?_).bindLast fun bs s₂ hs₂ _ hbs =>
      .pure hs₂ (.cons hb hbs)
    intro before c rest s' heq
    exact h before c rest s' (by rw [← heq, List.append_assoc]; rfl)

theorem Makes.mapM {f : α → ConvertM β} {listOf : α → List Call} {l : List α}
    (hs : lib.Continues s.library)
    (h : ∀ a ∈ l, ∀ s', lib.Continues s'.library →
      Makes lib annotators s'.registered s' (f a) (listOf a) fun _ => True) :
    Makes lib annotators s.registered s (l.mapM f) (l.flatMap listOf) fun _ => True := by
  refine Makes.imp (.mapM_inOrder (Q := fun _ _ => True) hs [] nofun ?_) fun _ _ => trivial
  intro before a rest s' heq hs' _
  have hmem : a ∈ l := by
    rw [List.nil_append] at heq
    rw [heq]
    exact List.mem_append_right before List.mem_cons_self
  exact h a hmem s' hs'

/-- Steps that make no calls. -/
theorem Makes.forM {f : α → ConvertM PUnit}
    (h : ∀ a s', lib.Continues s'.library →
      Makes lib annotators s'.registered s' (f a) [] fun _ => True)
    (l : List α) (hs : lib.Continues s.library) :
    Makes lib annotators s.registered s (l.forM f) [] fun _ => True := by
  induction l generalizing s with
  | nil => exact .pure hs trivial
  | cons a l ih => exact (h a s hs).bindFirst fun _ s₁ hs₁ _ => ih hs₁

theorem Makes.forM_option {f : α → ConvertM PUnit}
    (h : ∀ a s', lib.Continues s'.library →
      Makes lib annotators s'.registered s' (f a) [] fun _ => True)
    (o : Option α) (hs : lib.Continues s.library) :
    Makes lib annotators s.registered s (o.forM f) [] fun _ => True := by
  cases o with
  | none => exact .pure hs trivial
  | some a => exact h a s hs

theorem Makes.mapM_toList {f : α → ConvertM β} {o : Option α} (hs : lib.Continues s.library)
    (hnone : o = none → list = [])
    (hsome : ∀ a, o = some a → Makes lib annotators s.registered s (f a) list fun _ => True) :
    Makes lib annotators s.registered s (o.toList.mapM f) list fun _ => True := by
  cases o with
  | none =>
    rw [hnone rfl]
    exact .pure hs trivial
  | some a =>
    rw [Option.toList_some, List.mapM_cons, List.mapM_nil]
    exact (hsome a rfl).bindLast fun b s₁ hs₁ _ _ => .pure hs₁ trivial

theorem Makes.onGraph (hs : lib.Continues s.library) (f : Graph → Graph × α) :
    Makes lib annotators s.registered s (onGraph f) [] fun _ => True :=
  .of_ok rfl hs (.nil s.registered) trivial

theorem Makes.tryGraph (hs : lib.Continues s.library) (f : Graph → Except Misuse (Graph × α)) :
    Makes lib annotators s.registered s (tryGraph f) [] fun _ => True := by
  cases hresult : f s.graph with
  | error cause => exact .of_error (outcome_tryGraph_of_error hresult) nofun
  | ok result => exact .of_ok (outcome_tryGraph hresult) hs (.nil s.registered) trivial

/-- Registering a place makes it seen. -/
theorem Makes.register (hs : lib.Continues s.library) (place : Place) (t : NodeId) :
    Makes lib annotators (insert place.canonical s.registered) s (register place t) []
      fun _ => True := by
  cases hlookup : s.types.lookup place.canonical with
  | none =>
    refine .of_ok (outcome_register_of_none t hlookup) hs ?_ trivial
    have hregistered : registered { s with
        types := (place.canonical, t) :: s.types, journal := place.canonical :: s.journal } =
          insert place.canonical s.registered := registered_cons rfl
    rw [hregistered]
    exact .nil _
  | some present =>
    have hmem : place.canonical ∈ s.registered := ⟨present, hlookup⟩
    rw [Set.insert_eq_of_mem hmem]
    by_cases heq : present = t
    · subst heq
      exact .of_ok (outcome_register_of_some hlookup) hs (.nil s.registered) trivial
    · exact .of_error (outcome_register_of_ne hlookup heq) nofun

/-! ### Parts, references and cases -/

/-- The converter makes the call for the place that it is run for. -/
def Visits (lib : Library) (top : List Step) (annotators : List Annotator)
    (convert : Converter) : Prop :=
  ∀ s v place a, lib.Continues s.library → Ready lib top s.types place v →
    Makes lib annotators s.registered s (convert v place a) [.visit place.canonical] fun _ => True

theorem Visits.here (h : Visits lib top annotators convert) (hs : lib.Continues s.library)
    {place : Place} {v : Json} (hv : Here lib top place v) (a : Attributes) :
    Makes lib annotators s.registered s (convert v place a) [.visit place.canonical]
      fun _ => True :=
  h s v place a hs (hv.ready s.types)

theorem makes_convertCases (h : Visits lib top annotators convert) (hs : lib.Continues s.library)
    {place : Place} {cases : List Json} (hcases : Here lib top place (.array cases))
    (a : Attributes) :
    Makes lib annotators s.registered s (convertCases convert place a cases)
      (listedCalls place.canonical cases) fun _ => True := by
  unfold convertCases listedCalls
  rw [List.map_eq_flatMap]
  refine Makes.mapM hs fun e he s' hs' => ?_
  exact h.here hs' (hcases.item (List.mem_zipIdx_iff_getElem?.1 he)) a

theorem makes_itemsType (h : Visits lib top annotators convert) (hs : lib.Continues s.library)
    (hx : Here lib top x.place (.object x.schema)) (a : Attributes) :
    Makes lib annotators s.registered s (itemsType convert x a) (itemsCalls x) fun _ => True := by
  unfold itemsType itemsCalls
  dsimp only
  cases hitems : x.get? "items" with
  | none => exact .onGraph hs _
  | some v =>
    cases v with
    | array cases =>
      refine (makes_convertCases h hs (hx.member hitems) a).bindLast fun types s₁ hs₁ _ _ => ?_
      split
      · exact .onGraph hs₁ _
      · exact .tryGraph hs₁ _
    | object members => exact h.here hs (hx.member hitems) a
    | bool b => exact h.here hs (hx.member hitems) a
    | _ => exact .refuse _ []

theorem makes_arrayType (h : Visits lib top annotators convert) (hs : lib.Continues s.library)
    (hx : Here lib top x.place (.object x.schema)) (a : Attributes) :
    Makes lib annotators s.registered s (arrayType convert x a) (itemsCalls x) fun _ => True :=
  (makes_itemsType h hs hx a).bindLast fun _ _ hs₁ _ _ => .onGraph hs₁ _

theorem makes_declaredProperties (h : Visits lib top annotators convert)
    (hs : lib.Continues s.library) (hx : Here lib top x.place (.object x.schema))
    {schemas : List (String × Json)} (hschemas : propertySchemas x = .ok schemas)
    (required : List String) :
    Makes lib annotators s.registered s (declaredProperties convert x required schemas)
      (declaredCalls x schemas) fun declared =>
        declared.map Prod.fst = schemas.map Prod.fst := by
  unfold declaredProperties declaredCalls
  rw [List.map_eq_flatMap]
  have hnames : ∀ declared : List (String × Property),
      List.Forall₂ (fun e p => e.1 = p.1) schemas declared →
        declared.map Prod.fst = schemas.map Prod.fst := by
    intro declared hall
    have hmaps := List.forall₂_map_left_iff.2 (List.forall₂_map_right_iff.2 hall)
    rw [List.forall₂_eq_eq_eq] at hmaps
    exact hmaps.symm
  refine Makes.imp (.mapM_inOrder hs [] nofun ?_) hnames
  rintro before ⟨name, v⟩ rest s' heq hs' hbefore
  rw [List.nil_append] at heq
  have hready : Ready lib top s'.types ((x.place.push "properties").push name) v :=
    ready_property hx hschemas heq fun w hw => hbefore (name, w) hw _ List.mem_cons_self
  exact (h s' v _ (.inferredName name) hs' hready).bindLast fun t s₁ hs₁ _ _ => .pure hs₁ rfl

theorem makes_additionalType (h : Visits lib top annotators convert) (hs : lib.Continues s.library)
    (hx : Here lib top x.place (.object x.schema)) (a : Attributes) :
    Makes lib annotators s.registered s (additionalType convert x a) (additionalCalls x)
      fun additional =>
        additional = none ↔ ∃ place, additionalSchema x = some (.bool false, place) := by
  have hsome : ∀ (schema : Option (Json × Place)) (m : ConvertM NodeId) (list : List Call),
      (∀ place, schema ≠ some (.bool false, place)) →
        Makes lib annotators s.registered s m list (fun _ => True) →
          Makes lib annotators s.registered s (some <$> m) list fun additional =>
            additional = none ↔ ∃ place, schema = some (.bool false, place) := by
    intro schema m list hne hm
    exact .map (hm.imp fun t _ => iff_of_false nofun (not_exists.2 hne))
  unfold additionalType additionalCalls
  rcases hschema : additionalSchema x with _ | ⟨v, place⟩
  · exact hsome none _ _ nofun (.onGraph hs _)
  · have hplace := (here_additionalSchema hx hschema).1
    cases v with
    | bool b =>
      cases b with
      | true => exact hsome _ _ _ nofun (.onGraph hs _)
      | false => exact .pure hs (iff_of_true rfl ⟨place, rfl⟩)
    | _ => exact hsome _ _ _ nofun (h.here hs hplace a)

/-- Required properties are refused where the calls for them find a fault. -/
theorem callsAfter_addRequired {schemas : List (String × Json)}
    {declared : List (String × Property)}
    (hdeclared : declared.map Prod.fst = schemas.map Prod.fst) {additional : Option NodeId}
    (hadditional : additional = none ↔ ∃ place, additionalSchema x = some (.bool false, place))
    (required : List String) :
    callsAfter (addRequired x required (.ofList declared) additional) (fun _ => []) =
      missingCalls x required (schemas.map Prod.fst) := by
  have hcontains : ∀ name, (SortedMap.ofList declared).contains name =
      (schemas.map Prod.fst).contains name := by
    intro name
    rw [Bool.eq_iff_iff, contains_ofList, List.contains_iff_mem, hdeclared]
  unfold missingCalls addRequired
  simp only [hcontains]
  cases required.filter fun name => !(schemas.map Prod.fst).contains name with
  | nil => rfl
  | cons name rest =>
    cases additional with
    | none =>
      obtain ⟨place, hplace⟩ := hadditional.1 rfl
      rw [hplace]
      rfl
    | some t =>
      change [] = _
      split
      · next hfalse => cases hadditional.2 ⟨_, hfalse⟩
      · rfl

theorem makes_objectType (h : Visits lib top annotators convert) (hs : lib.Continues s.library)
    (hx : Here lib top x.place (.object x.schema)) (a : Attributes) :
    Makes lib annotators s.registered s (objectType convert x a) (objectCalls x)
      fun _ => True := by
  unfold objectType objectCalls
  refine .orRefuse_bind fun listed _ => .orRefuse_bind fun schemas hschemas => ?_
  dsimp only
  refine (makes_declaredProperties h hs hx hschemas _).bind fun declared s₁ hs₁ _ hdeclared => ?_
  refine (makes_additionalType h hs₁ hx a).bind fun additional s₂ hs₂ _ hadditional => ?_
  rw [← callsAfter_addRequired hdeclared hadditional]
  exact .orRefuse_bind fun all _ => .onGraph hs₂ _

theorem makes_containerTypes (hs : lib.Continues s.library) (t : JsonType) {m : ConvertM NodeId}
    (hm : Makes lib annotators s.registered s m list fun _ => True) :
    Makes lib annotators s.registered s (containerTypes x t m) (containerCalls x t list)
      fun _ => True := by
  unfold containerTypes containerCalls
  split
  · exact .map hm
  · exact .pure hs trivial

theorem makes_primitiveTypes (hs : lib.Continues s.library) :
    Makes lib annotators s.registered s (primitiveTypes x) [] fun _ => True := by
  have hall : Makes lib annotators s.registered s (primitiveTypes x)
      (x.limits.primitives.flatMap fun _ => []) fun _ => True :=
    .mapM hs fun _ _ _ hs' => .onGraph hs' _
  rwa [List.flatMap_eq_nil_iff.2 fun _ _ => rfl] at hall

theorem makes_stringTypes (hs : lib.Continues s.library) (names : Attributes) :
    Makes lib annotators s.registered s (stringTypes x names) [] fun _ => True := by
  unfold stringTypes
  dsimp only
  split
  · exact .map (.onGraph hs _)
  · split
    · exact .map (.onGraph hs _)
    · exact .pure hs trivial

theorem makes_ownTypes (h : Visits lib top annotators convert) (hs : lib.Continues s.library)
    (hx : Here lib top x.place (.object x.schema)) (names inferred : Attributes) :
    Makes lib annotators s.registered s (ownTypes convert x names inferred) (ownCalls x)
      fun _ => True := by
  unfold ownTypes ownCalls
  split
  · refine .map ?_
    unfold ownUnion
    refine (makes_primitiveTypes hs).bindFirst fun _ s₁ hs₁ _ => ?_
    refine (makes_stringTypes hs₁ names).bindFirst fun _ s₂ hs₂ _ => ?_
    refine (makes_containerTypes hs₂ .array (makes_arrayType h hs₂ hx names)).bind
      fun _ s₃ hs₃ _ _ => ?_
    exact (makes_containerTypes hs₃ .object (makes_objectType h hs₃ hx names)).bindLast
      fun _ s₄ hs₄ _ _ => .onGraph hs₄ _
  · exact .pure hs trivial

/-- A step that goes on with what a reference names. -/
theorem makes_resolve_bind (hmemory : lib.InMemory) (hself : lib.Continues lib)
    (hfree : lib.IdFree) (hs : lib.Continues s.library) (base : Place) (r : Reference)
    {f : Resolved → ConvertM β} {Q : β → Prop}
    (hf : ∀ found s', lib.Continues s'.library → Library.Finds lib base r found →
      Makes lib annotators s'.registered s' (f found) [.visit found.place.canonical] Q) :
    Makes lib annotators s.registered s (onLibrary (Library.resolve base r) >>= f)
      (targetCalls lib base r) Q := by
  obtain ⟨answer, library, hresolve, hlibrary, hends⟩ := hs.resolve hmemory base r
  have hanswer : (outcome (Library.resolve base r) lib).1 = answer := by
    rw [Library.resolve_eq_of_idFree hmemory hfree hself hs base r, hresolve]
  have hrun := outcome_onLibrary (Library.resolve base r) s
  rw [hresolve] at hrun
  unfold targetCalls
  rw [hanswer]
  cases answer with
  | error e =>
    have hboth : outcome (onLibrary (Library.resolve base r) >>= f) s =
        (.error e, { s with library }) := by rw [outcome_bind, hrun]
    refine .of_error hboth fun error heq => ?_
    subst heq
    exact .fault s.registered error []
  | ok found =>
    unfold Makes
    rw [outcome_bind_of_ok hrun]
    exact hf found { s with library } hlibrary hends

theorem makes_targetType (hmemory : lib.InMemory) (hself : lib.Continues lib)
    (hfree : lib.IdFree) (h : Visits lib top annotators convert) (hs : lib.Continues s.library)
    (hx : Here lib top x.place (.object x.schema)) (own : Attributes) {target : Json}
    (htarget : x.get? "$ref" = some target) :
    Makes lib annotators s.registered s (targetType convert x own target) (referenceCalls lib x)
      fun _ => True := by
  unfold targetType referenceCalls
  rw [htarget]
  cases target with
  | string text =>
    refine makes_resolve_bind hmemory hself hfree hs x.place (.parse text)
      fun found s₁ hs₁ hfinds => ?_
    obtain ⟨v, hv, hvalue⟩ := hfinds.value?
    have hplace := hx.target hmemory htarget hfinds hvalue
    rw [hv]
    exact h.here hs₁ hplace _
  | _ => exact .refuse _ []

theorem makes_caseTypes (h : Visits lib top annotators convert) (hs : lib.Continues s.library)
    (hx : Here lib top x.place (.object x.schema)) {keyword : String} {cases : Json}
    (hcases : x.get? keyword = some cases) (a : Attributes) :
    Makes lib annotators s.registered s (caseTypes convert x keyword a cases)
      (caseCalls x keyword) fun _ => True := by
  unfold caseTypes caseCalls
  rw [hcases]
  cases cases with
  | array list => exact makes_convertCases h hs (hx.member hcases) a
  | _ => exact .refuse _ []

theorem makes_annotateCases (types : List NodeId) (found : List Attributes)
    (hs : lib.Continues s.library) :
    Makes lib annotators s.registered s (annotateCases types found) [] fun _ => True := by
  unfold annotateCases
  split
  · exact .forM (fun _ _ hs => .onGraph hs _) _ hs
  · exact .misuse _

theorem makes_annotateChoice (hs : lib.Continues s.library) (t : NodeId) (types : List NodeId)
    (ofUnion : Attributes) (found : List Annotation) :
    Makes lib annotators s.registered s (annotateChoice t types ofUnion found) []
      fun _ => True := by
  induction found generalizing s ofUnion with
  | nil => exact .pure hs trivial
  | cons n rest ih =>
    rw [annotateChoice]
    refine (Makes.forM_option (fun a _ hs => .onGraph hs _) n.forType hs).bindFirst
      fun _ s₁ hs₁ _ => ?_
    exact (Makes.forM_option (fun found _ hs => makes_annotateCases types found hs) n.forCases
      hs₁).bindFirst fun _ s₂ hs₂ _ => ih hs₂ _

theorem makes_choiceType (h : Visits lib top annotators convert) (hs : lib.Continues s.library)
    (hx : Here lib top x.place (.object x.schema)) {keyword : String} {cases : Json}
    (hcases : x.get? keyword = some cases) (t : NodeId) (inferred : Attributes) :
    Makes lib annotators s.registered s (choiceType convert x t inferred keyword cases)
      (caseCalls x keyword) fun _ => True := by
  unfold choiceType
  refine (makes_caseTypes h hs hx hcases _).bindLast fun types s₁ hs₁ _ _ => ?_
  refine (makes_annotateChoice hs₁ t types inferred _).bindFirst fun a s₂ hs₂ _ => ?_
  exact (Makes.onGraph hs₂ _).bindFirst fun union s₃ hs₃ _ => .tryGraph hs₃ _

theorem makes_memberTypes (hmemory : lib.InMemory) (hself : lib.Continues lib)
    (hfree : lib.IdFree) (h : Visits lib top annotators convert) (hs : lib.Continues s.library)
    (hx : Here lib top x.place (.object x.schema)) (t : NodeId) (a : Attributes) :
    Makes lib annotators s.registered s (memberTypes convert x t a) (memberCalls lib x)
      fun _ => True := by
  have hnoCases : ∀ keyword, x.get? keyword = none → caseCalls x keyword = [] := by
    intro keyword hnone
    unfold caseCalls
    rw [hnone]
  unfold memberTypes memberCalls
  dsimp only
  refine (makes_ownTypes h hs hx _ _).bind fun own s₁ hs₁ _ _ => ?_
  refine (Makes.mapM_toList hs₁ (fun hnone => ?_) fun target htarget =>
    makes_targetType hmemory hself hfree h hs₁ hx a htarget).bind fun target s₂ hs₂ _ _ => ?_
  · unfold referenceCalls
    rw [hnone]
  refine (Makes.mapM_toList hs₂ (hnoCases "allOf") fun cases hcases =>
    makes_caseTypes h hs₂ hx hcases _).bind fun all s₃ hs₃ _ _ => ?_
  refine (Makes.mapM_toList hs₃ (hnoCases "oneOf") fun cases hcases =>
    makes_choiceType h hs₃ hx hcases t _).bind fun one s₄ hs₄ _ _ => ?_
  refine (Makes.mapM_toList hs₄ (hnoCases "anyOf") fun cases hcases =>
    makes_choiceType h hs₄ hx hcases t _).bindLast fun any s₅ hs₅ _ _ => ?_
  split
  · exact .map (.onGraph hs₅ _)
  · exact .pure hs₅ trivial

/-! ### Schemas -/

theorem makes_convertObject (hmemory : lib.InMemory) (hself : lib.Continues lib)
    (hfree : lib.IdFree) (h : Visits lib top annotators convert) (hs : lib.Continues s.library)
    {schema : List (String × Json)} {place : Place} (hplace : Here lib top place (.object schema))
    (hnew : place.canonical ∉ s.registered) (a : Attributes) :
    Makes lib annotators (insert place.canonical s.registered) s
      (convertObject convert annotators schema place a)
      (callsAfter (subject annotators schema place) (memberCalls lib)) fun _ => True := by
  unfold convertObject
  refine .orRefuse_bind fun x hx => ?_
  obtain ⟨-, rfl, rfl⟩ := isSubject_of_subject hx
  have hmembers : ∀ a, Makes lib annotators (insert x.place.canonical s.registered) s (do
      let t ← onGraph (·.fresh (.intersection none) a)
      register x.place t
      let members ← memberTypes convert x t a
      tryGraph fun g => (g.setMembers t (.ofList members)).map fun g => (g, t))
      (memberCalls lib x) fun _ => True := by
    intro a
    have hstart : (s.withPlaceholder x.place.canonical a).registered =
        insert x.place.canonical s.registered := registered_cons rfl
    unfold Makes
    rw [outcome_withPlaceholder (notMem_registered.1 hnew) a, ← hstart]
    exact (makes_memberTypes (s := s.withPlaceholder x.place.canonical a) hmemory hself hfree h hs
      hplace s.graph.size a).bindLast fun members s₁ hs₁ _ _ => .tryGraph hs₁ _
  unfold withFound
  split
  · exact hmembers _
  · split
    · exact hmembers _
    · refine .of_error rfl fun error heq => ?_
      cases heq

/-- A place without a type is seen as soon as its schema is looked at. -/
theorem makes_convertSchema (hmemory : lib.InMemory) (hself : lib.Continues lib)
    (hfree : lib.IdFree) (h : Visits lib top annotators convert) (hs : lib.Continues s.library)
    {schema : Json} {place : Place} (hplace : Here lib top place schema)
    (hnew : place.canonical ∉ s.registered) (a : Attributes) :
    Makes lib annotators (insert place.canonical s.registered) s (do
      let t ← convertSchema convert annotators schema place a
      register place t
      pure t) (calls lib annotators place.canonical) fun _ => True := by
  -- The place is registered in the end, if that was not done for its placeholder.
  have hregister : ∀ t s₁, lib.Continues s₁.library →
      Makes lib annotators (insert place.canonical s₁.registered) s₁ (do
        register place t
        pure t) [] fun _ => True := by
    intro t s₁ hs₁
    exact (Makes.register hs₁ place t).bindLast fun _ s₂ hs₂ _ _ => .pure hs₂ trivial
  unfold calls convertSchema
  rw [hplace.value]
  cases schema with
  | bool b =>
    cases b with
    | true =>
      have hrun : outcome anyType s = (.ok (s.graph.share (.primitive .any) .empty).2,
          { s with graph := (s.graph.share (.primitive .any) .empty).1 }) := rfl
      unfold Makes
      rw [outcome_bind_of_ok hrun]
      exact hregister _ _ hs
    | false => exact .refuse _ []
  | object members =>
    have hsame : place.withIdOf members = place :=
      Place.eq_of_isPlain ((hplace.withIdOf hmemory).plain hfree) (hplace.plain hfree)
        (place.canonical_withIdOf members)
    have hobject : ∀ a, Makes lib annotators (insert place.canonical s.registered) s
        (convertObject convert annotators members (place.withIdOf members) a)
        (callsAfter (subject annotators members (.ofReference place.canonical)) (memberCalls lib))
        fun _ => True := by
      intro a
      rw [hsame, ← (hplace.plain hfree).1]
      exact makes_convertObject hmemory hself hfree h hs hplace hnew a
    refine (hobject _).bindLast fun t s₁ hs₁ hlist _ => ?_
    have hlast := hregister t s₁ hs₁
    rwa [Set.insert_eq_of_mem (hlist.subset (Set.mem_insert _ _))] at hlast
  | _ => exact .refuse _ []

/-- A converter of any depth makes the call for the place that it is run for. -/
theorem visits_toType (annotators : List Annotator) (hmemory : lib.InMemory)
    (hself : lib.Continues lib) (hfree : lib.IdFree) (depth : Nat) :
    Visits lib top annotators (toType annotators depth) := by
  -- A place that has a type was seen before; any other is converted with less depth.
  induction depth with
  | zero => exact fun s v place a _ _ => .of_error rfl nofun
  | succ depth ih =>
    intro s v place a hs hready
    rw [toType]
    refine .get_bind ?_
    cases hlookup : s.types.lookup place.canonical with
    | some t => exact .of_ok rfl hs (.seen ⟨t, hlookup⟩ (.nil s.registered)) trivial
    | none =>
      have hplace := hready.here hlookup
      have hnew := notMem_registered.2 hlookup
      exact .visit hnew (makes_convertSchema hmemory hself hfree ih hs hplace hnew a)

/-- The conversion of a reference makes the call for its target. -/
theorem makes_convertTopLevel (hmemory : lib.InMemory) (hself : lib.Continues lib)
    (hfree : lib.IdFree) (hs : lib.Continues s.library) (name : String) (r : Reference) :
    Makes lib annotators s.registered s (convertTopLevel annotators name r)
      (targetCalls lib .empty r) fun _ => True := by
  unfold convertTopLevel
  refine makes_resolve_bind hmemory hself hfree hs .empty r fun found s₁ hs₁ hfinds => ?_
  obtain ⟨v, hv, -, hready⟩ := ready_of_finds hfinds s₁.types
  rw [hv]
  exact .get_bind (visits_toType annotators hmemory hself hfree _ s₁ v found.place _ hs₁ hready)

end JsonTyping.Conversion
