import JsonTyping.Proofs.LibraryUses
import JsonTyping.Proofs.SchemaConversion

/-!
# What a conversion never does

Whatever the store and the documents are, and however deep a conversion may go, it does not use the
graph, the library or the types of places in a way that is not meant, as long as the annotators are
proper ones. `Conversion.Safe` says so of a step. Its rules follow the steps one by one, up to
`Conversion.safe_toType` and `Conversion.safe_convertTopLevel`.
-/

namespace JsonTyping.Conversion

variable {α β : Type} {s s₁ s' : Conversion} {annotators : List Annotator}

/-- The second state is the first one after some steps: the library was used, the graph grew, and
places that had no type were registered. -/
structure Steps (s s' : Conversion) : Prop where
  uses : s.library.Uses s'.library
  grows : Grows s s'

theorem Steps.refl (s : Conversion) : Steps s s := ⟨.refl, .refl s⟩

theorem Steps.trans (h : Steps s s₁) (h' : Steps s₁ s') : Steps s s' :=
  ⟨h.uses.trans h'.uses, h.grows.trans h'.grows⟩

theorem Steps.of_graph {g : Graph} (h : s.graph.Extends g) : Steps s { s with graph := g } :=
  ⟨.refl, .of_graph h s.library⟩

/-- The step is not a misuse, where the library spells places by references that can be written.
When it ends well, `Q` holds in the end. -/
def Safe (s : Conversion) (m : ConvertM α) (Q : α → Conversion → Prop) : Prop :=
  s.library.Spells →
    match outcome m s with
    | (.ok a, s') => Steps s s' ∧ Q a s'
    | (.error e, s') => Steps s s' ∧ ∀ cause, e ≠ .misuse cause

theorem Safe.of_ok {m : ConvertM α} {Q : α → Conversion → Prop} {a : α}
    (hrun : outcome m s = (.ok a, s')) (hsteps : Steps s s') (hQ : Q a s') : Safe s m Q := by
  intro _
  rw [hrun]
  exact ⟨hsteps, hQ⟩

theorem Safe.of_error {m : ConvertM α} {Q : α → Conversion → Prop} {e : Halt}
    (hrun : outcome m s = (.error e, s')) (hsteps : Steps s s')
    (he : ∀ cause, e ≠ .misuse cause) : Safe s m Q := by
  intro _
  rw [hrun]
  exact ⟨hsteps, he⟩

theorem Safe.ok {m : ConvertM α} {Q : α → Conversion → Prop} (h : Safe s m Q)
    (hs : s.library.Spells) {a : α} (hrun : outcome m s = (.ok a, s')) : Steps s s' ∧ Q a s' := by
  have hends := h hs
  rw [hrun] at hends
  exact hends

theorem Safe.error {m : ConvertM α} {Q : α → Conversion → Prop} (h : Safe s m Q)
    (hs : s.library.Spells) {e : Halt} (hrun : outcome m s = (.error e, s')) :
    Steps s s' ∧ ∀ cause, e ≠ .misuse cause := by
  have hends := h hs
  rw [hrun] at hends
  exact hends

theorem Safe.pure {Q : α → Conversion → Prop} {a : α} (hQ : Q a s) : Safe s (pure a) Q :=
  .of_ok rfl (.refl s) hQ

theorem Safe.throw {Q : α → Conversion → Prop} {e : Halt} (he : ∀ cause, e ≠ .misuse cause) :
    Safe s (throw e : ConvertM α) Q :=
  .of_error rfl (.refl s) he

theorem Safe.refuse {Q : α → Conversion → Prop} (error : SchemaError) :
    Safe s (refuse error : ConvertM α) Q :=
  .throw nofun

theorem Safe.orRefuse (r : Except SchemaError α) :
    Safe s (orRefuse r) fun a s' => r = .ok a ∧ s' = s := by
  cases r with
  | ok a => exact .pure ⟨rfl, rfl⟩
  | error e => exact .refuse e

theorem Safe.get : Safe s (get : ConvertM Conversion) fun a s' => a = s ∧ s' = s :=
  .of_ok rfl (.refl s) ⟨rfl, rfl⟩

theorem Safe.bind {m : ConvertM α} {f : α → ConvertM β} {P : α → Conversion → Prop}
    {Q : β → Conversion → Prop} (hm : Safe s m P)
    (hf : ∀ a s', Steps s s' → P a s' → Safe s' (f a) Q) : Safe s (m >>= f) Q := by
  intro hs
  rcases hrun : outcome m s with ⟨e | a, s₁⟩
  · rw [outcome_bind, hrun]
    exact hm.error hs hrun
  · obtain ⟨hsteps, hP⟩ := hm.ok hs hrun
    have hs₁ := hsteps.uses.spells hs
    have hrest := hf a s₁ hsteps hP
    rw [outcome_bind_of_ok hrun]
    rcases hrun' : outcome (f a) s₁ with ⟨e | b, s₂⟩
    · obtain ⟨hsteps', he⟩ := hrest.error hs₁ hrun'
      exact ⟨hsteps.trans hsteps', he⟩
    · obtain ⟨hsteps', hQ⟩ := hrest.ok hs₁ hrun'
      exact ⟨hsteps.trans hsteps', hQ⟩

theorem Safe.imp {m : ConvertM α} {P Q : α → Conversion → Prop} (h : Safe s m P)
    (hPQ : ∀ a s', Steps s s' → P a s' → Q a s') : Safe s m Q := by
  rw [← bind_pure m]
  exact h.bind fun a s' hsteps hP => .pure (hPQ a s' hsteps hP)

theorem Safe.map {m : ConvertM α} {f : α → β} {Q : β → Conversion → Prop}
    (h : Safe s m fun a s' => Q (f a) s') : Safe s (f <$> m) Q := by
  rw [← bind_pure_comp]
  exact h.bind fun a s' _ hQ => .pure hQ

theorem Safe.mapM {f : α → ConvertM β} {P : α → β → Conversion → Prop}
    (hf : ∀ a s', Safe s' (f a) (P a)) (l : List α) :
    Safe s (l.mapM f) fun bs _ => bs.length = l.length := by
  induction l generalizing s with
  | nil =>
    rw [List.mapM_nil]
    exact .pure rfl
  | cons a l ih =>
    rw [List.mapM_cons]
    refine (hf a s).bind fun b s₁ _ _ => ih.bind fun bs s₂ _ hbs => .pure ?_
    rw [List.length_cons, List.length_cons, hbs]

theorem Safe.forM {f : α → ConvertM PUnit} (hf : ∀ a s', Safe s' (f a) fun _ _ => True)
    (l : List α) : Safe s (l.forM f) fun _ _ => True := by
  induction l generalizing s with
  | nil => exact .pure trivial
  | cons a l ih => exact (hf a s).bind fun _ s₁ _ _ => ih

theorem Safe.forM_option {f : α → ConvertM PUnit} {o : Option α}
    (h : ∀ a, o = some a → Safe s (f a) fun _ _ => True) :
    Safe s (o.forM f) fun _ _ => True := by
  cases o with
  | none => exact .pure trivial
  | some a => exact h a rfl

theorem Safe.onGraph {f : Graph → Graph × α} (hf : s.graph.Extends (f s.graph).1) :
    Safe s (onGraph f) fun a s' => a = (f s.graph).2 ∧ s' = { s with graph := (f s.graph).1 } :=
  .of_ok rfl (.of_graph hf) ⟨rfl, rfl⟩

theorem Safe.share (shape : Shape) (a : Attributes) :
    Safe s (Conversion.onGraph (·.share shape a)) fun _ _ => True :=
  (Safe.onGraph (f := (·.share shape a)) (Graph.share_spec s.graph shape a).1).imp
    fun _ _ _ _ => trivial

theorem Safe.fresh (shape : Shape) (a : Attributes) :
    Safe s (Conversion.onGraph (·.fresh shape a)) fun _ _ => True :=
  (Safe.onGraph (f := (·.fresh shape a)) (Graph.fresh_spec s.graph shape a).1).imp
    fun _ _ _ _ => trivial

theorem Safe.addAttributes (t : NodeId) (a : Attributes) :
    Safe s (Conversion.onGraph fun g => (g.addAttributes t a, ())) fun _ _ => True :=
  (Safe.onGraph (Graph.extends_addAttributes s.graph t a)).imp fun _ _ _ _ => trivial

theorem Safe.anyType : Safe s anyType fun _ _ => True := .share (.primitive .any) .empty

/-- A union of types that are there is no misuse. -/
theorem Safe.union {types : List NodeId} (hne : types ≠ []) (a : Attributes) :
    Safe s (tryGraph (·.union (.ofList types) a)) fun _ _ => True := by
  obtain ⟨g, t, hunion, hext, -⟩ :=
    Graph.union_spec s.graph (SortedSet.toList_ofList_ne_nil hne) a
  exact .of_ok (outcome_tryGraph hunion) (.of_graph hext) trivial

/-- The members of a new node are set once, after steps that leave the node as it is. -/
theorem Safe.placeholder {shape : Shape} (hshape : shape = .union none ∨ shape = .intersection none)
    (a : Attributes) (members : NodeId → ConvertM (List NodeId)) {P : NodeId → Conversion → Prop}
    (hmembers : ∀ t s', s'.types = s.types → Safe s' (members t) fun _ s'' => P t s'')
    (hP : ∀ t s' g, P t s' → P t { s' with graph := g }) :
    Safe s (do
      let t ← Conversion.onGraph (·.fresh shape a)
      let us ← members t
      tryGraph fun g => (g.setMembers t (.ofList us)).map fun g => (g, t)) P := by
  obtain ⟨hext, -, hsize, hnode⟩ := Graph.fresh_spec s.graph shape a
  have hfresh : outcome (Conversion.onGraph (·.fresh shape a)) s =
      (.ok s.graph.size, { s with graph := (s.graph.fresh shape a).1 }) := rfl
  have h₁ : Steps s { s with graph := (s.graph.fresh shape a).1 } := .of_graph hext
  have hrest := hmembers s.graph.size { s with graph := (s.graph.fresh shape a).1 } rfl
  intro hs
  rw [outcome_bind_of_ok hfresh, outcome_bind]
  rcases hrun : outcome (members s.graph.size) { s with graph := (s.graph.fresh shape a).1 }
    with ⟨e | us, s₂⟩
  · obtain ⟨h₂, he⟩ := hrest.error hs hrun
    exact ⟨h₁.trans h₂, he⟩
  · obtain ⟨h₂, ht⟩ := hrest.ok hs hrun
    -- The graph only grew, so the node is as it was made.
    have hkept : s₂.graph.shape s.graph.size = shape := by
      refine (h₂.grows.graph.shape s.graph.size ?_).trans hnode
      exact Nat.lt_of_lt_of_eq (Nat.lt_succ_self _) hsize.symm
    obtain ⟨g, hg, hset⟩ := exists_outcome_setMembers (.ofList us) (hkept.symm ▸ hshape)
    have hall := h₁.trans h₂
    dsimp only
    rw [hset]
    exact ⟨⟨hall.uses, hall.grows.graph.setMembers (Nat.le_refl _) hg, hall.grows.types⟩,
      hP _ _ g ht⟩

theorem Safe.freshUnion (a : Attributes) (types : List NodeId) :
    Safe s (do
      let t ← Conversion.onGraph (·.fresh (.union none) a)
      tryGraph fun g => (g.setMembers t (.ofList types)).map fun g => (g, t)) fun _ _ => True := by
  have hunion := Safe.placeholder (s := s) (.inl rfl) a (fun _ => Pure.pure types)
    (P := fun _ _ => True) (fun _ _ _ => .pure trivial) fun _ _ _ _ => trivial
  simp only [pure_bind] at hunion
  exact hunion

/-- A reference that can be written is resolved to a place where a value stands, or something is
wrong with the documents. -/
theorem Safe.resolve (base : Place) {r : Reference} (hr : r.IsWritten) :
    Safe s (onLibrary (Library.resolve base r)) fun found s' =>
      outcome (Library.resolve base r) s.library = (.ok found, s'.library) ∧
        ∀ e, found.value = .error e → ∃ error, e = .schema error := by
  intro hs
  have hends := hs.resolve base hr
  have huses : s.library.Uses (outcome (Library.resolve base r) s.library).2 :=
    .resolve .refl base r
  have hsteps : Steps s { s with library := (outcome (Library.resolve base r) s.library).2 } :=
    ⟨huses, .of_graph (.refl s.graph) _⟩
  rw [outcome_onLibrary]
  rcases hrun : outcome (Library.resolve base r) s.library with ⟨e | found, library⟩ <;>
    rw [hrun] at hends hsteps
  · obtain ⟨error, rfl⟩ := hends
    exact ⟨hsteps, nofun⟩
  · exact ⟨hsteps, rfl, fun e he => Library.schema_of_valueAt hends he⟩

theorem Safe.register {place : Place} {t : NodeId}
    (h : s.types.lookup place.canonical = none ∨ s.types.lookup place.canonical = some t) :
    Safe s (register place t) fun _ s' => s'.types.lookup place.canonical = some t := by
  rcases h with hnone | hsome
  · refine .of_ok (outcome_register_of_none t hnone) ⟨.refl, .register (.refl s.graph) hnone t⟩ ?_
    dsimp only
    rw [SortedMap.lookup_cons_eq, if_pos rfl]
  · exact .of_ok (outcome_register_of_some hsome) (.refl s) hsome

/-- The converter is no misuse. A place whose schema it converts has the type that it gives. -/
def Converter.IsSafe (convert : Converter) : Prop :=
  ∀ s v place a, Safe s (convert v place a) fun t s' => s'.types.lookup place.canonical = some t

variable {convert : Converter}

theorem safe_convertCases (h : convert.IsSafe) (place : Place) (a : Attributes)
    (cases : List Json) :
    Safe s (convertCases convert place a cases) fun types _ => types.length = cases.length := by
  have hcases := Safe.mapM (s := s) (fun (e : Json × Nat) s' =>
    h s' e.1 (place.push (toString e.2)) a) cases.zipIdx
  rw [List.length_zipIdx] at hcases
  exact hcases

theorem safe_itemsType (h : convert.IsSafe) (x : Subject) (a : Attributes) :
    Safe s (itemsType convert x a) fun _ _ => True := by
  unfold itemsType
  dsimp only
  split
  · exact .anyType
  · refine (safe_convertCases h _ a _).bind fun types s₁ _ _ => ?_
    split
    · exact .anyType
    · next hempty => exact .union (mt List.isEmpty_iff.2 hempty) _
  · exact (h s _ _ a).imp fun _ _ _ _ => trivial
  · exact (h s _ _ a).imp fun _ _ _ _ => trivial
  · exact .refuse _

theorem safe_arrayType (h : convert.IsSafe) (x : Subject) (a : Attributes) :
    Safe s (arrayType convert x a) fun _ _ => True :=
  (safe_itemsType h x a).bind fun items _ _ _ => .share (.array items) .empty

theorem safe_declaredProperties (h : convert.IsSafe) (x : Subject) (required : List String)
    (schemas : List (String × Json)) :
    Safe s (declaredProperties convert x required schemas) fun _ _ => True := by
  have hproperty : ∀ (e : String × Json) s', Safe s' (do
      let type ← convert e.2 ((x.place.push "properties").push e.1) (.inferredName e.1)
      return (e.1, Property.mk type (!(required.contains e.1)))) fun _ _ => True :=
    fun e s' => (h s' e.2 _ _).bind fun _ _ _ _ => .pure trivial
  exact (Safe.mapM hproperty schemas).imp fun _ _ _ _ => trivial

theorem safe_additionalType (h : convert.IsSafe) (x : Subject) (a : Attributes) :
    Safe s (additionalType convert x a) fun _ _ => True := by
  unfold additionalType
  split
  · exact .map .anyType
  · exact .map .anyType
  · exact .pure trivial
  · exact .map ((h s _ _ a).imp fun _ _ _ _ => trivial)

theorem safe_objectType (h : convert.IsSafe) (x : Subject) (a : Attributes) :
    Safe s (objectType convert x a) fun _ _ => True := by
  unfold objectType
  refine (Safe.orRefuse (requiredNames x)).bind fun listed s₁ _ _ => ?_
  refine (Safe.orRefuse (propertySchemas x)).bind fun schemas s₂ _ _ => ?_
  dsimp only
  refine (safe_declaredProperties h x _ schemas).bind fun declared s₃ _ _ => ?_
  refine (safe_additionalType h x a).bind fun additional s₄ _ _ => ?_
  exact (Safe.orRefuse _).bind fun all s₅ _ _ => .fresh (.object all additional) a

/-! ### Members of schemas -/

theorem safe_primitiveTypes (x : Subject) : Safe s (primitiveTypes x) fun _ _ => True :=
  (Safe.mapM (fun p _ => .share (.primitive p) _) x.limits.primitives).imp fun _ _ _ _ => trivial

theorem safe_stringTypes (x : Subject) (names : Attributes) :
    Safe s (stringTypes x names) fun _ _ => True := by
  unfold stringTypes
  dsimp only
  split
  · next cases _ => exact .map (.share (.enumeration cases) _)
  · split
    · exact .map (.share (.primitive x.stringKind) _)
    · exact .pure trivial

theorem safe_containerTypes (x : Subject) (t : JsonType) {m : ConvertM NodeId}
    (hm : Safe s m fun _ _ => True) : Safe s (containerTypes x t m) fun _ _ => True := by
  unfold containerTypes
  split
  · exact .map hm
  · exact .pure trivial

theorem safe_ownTypes (h : convert.IsSafe) (x : Subject) (names inferred : Attributes) :
    Safe s (ownTypes convert x names inferred) fun _ _ => True := by
  unfold ownTypes ownUnion
  split
  · refine .map ((safe_primitiveTypes x).bind fun primitives s₁ _ _ => ?_)
    refine (safe_stringTypes x names).bind fun strings s₂ _ _ => ?_
    refine (safe_containerTypes x .array (safe_arrayType h x names)).bind fun arrays s₃ _ _ => ?_
    refine (safe_containerTypes x .object (safe_objectType h x names)).bind
      fun objects s₄ _ _ => ?_
    exact .fresh (.union (some _)) inferred
  · exact .pure trivial

/-- A reference in a schema gives the type of the place that it is resolved to. -/
theorem safe_targetType (h : convert.IsSafe) (x : Subject) (own : Attributes) (target : Json) :
    Safe s (targetType convert x own target) fun t s' => ∃ text found, target = .string text ∧
      (outcome (Library.resolve x.place (.parse text)) s.library).1 = .ok found ∧
        s'.types.lookup found.place.canonical = some t := by
  unfold targetType
  split
  · next text =>
    refine (Safe.resolve x.place (Reference.isWritten_parse text)).bind ?_
    rintro found s₁ - ⟨hfound, hvalue⟩
    split
    · next e he =>
      obtain ⟨error, rfl⟩ := hvalue e he
      exact .throw nofun
    · exact (h s₁ _ _ _).imp fun t s₂ _ ht =>
        ⟨text, found, rfl, congrArg Prod.fst hfound, ht⟩
  · exact .refuse _

theorem safe_caseTypes (h : convert.IsSafe) (x : Subject) (keyword : String) (a : Attributes)
    (cases : Json) :
    Safe s (caseTypes convert x keyword a cases) fun types _ =>
      ∃ list, cases = .array list ∧ types.length = list.length := by
  unfold caseTypes
  dsimp only
  split
  · next list =>
    exact (safe_convertCases h _ a list).imp fun types _ _ hlength => ⟨list, rfl, hlength⟩
  · exact .refuse _

theorem safe_annotateCases {types : List NodeId} {found : List Attributes}
    (hlength : found.length = types.length) :
    Safe s (annotateCases types found) fun _ _ => True := by
  unfold annotateCases
  rw [if_pos hlength]
  exact .forM (fun e _ => .addAttributes e.1 e.2) _

theorem safe_annotateChoice {t : NodeId} {types : List NodeId} {l : List Annotation}
    (h : ∀ n ∈ l, ∀ found, n.forCases = some found → found.length = types.length)
    (ofUnion : Attributes) : Safe s (annotateChoice t types ofUnion l) fun _ _ => True := by
  induction l generalizing s ofUnion with
  | nil => exact .pure trivial
  | cons n l ih =>
    rw [annotateChoice]
    refine (Safe.forM_option fun a _ => .addAttributes t a).bind fun _ s₁ _ _ => ?_
    refine (Safe.forM_option fun found hfound =>
      safe_annotateCases (h n List.mem_cons_self found hfound)).bind fun _ s₂ _ _ => ?_
    exact ih (fun m hm => h m (List.mem_cons_of_mem n hm)) _

theorem safe_choiceType (h : convert.IsSafe) {x : Subject} (hx : Proper x.annotators) (t : NodeId)
    (inferred : Attributes) (keyword : String) (cases : Json) :
    Safe s (choiceType convert x t inferred keyword cases) fun _ _ => True := by
  unfold choiceType
  refine (safe_caseTypes h x keyword _ cases).bind ?_
  rintro types s₁ - ⟨list, rfl, hlength⟩
  dsimp only
  refine (safe_annotateChoice (fun n hn found hfound => ?_) inferred).bind
    fun a s₂ _ _ => .freshUnion a types
  split at hn
  · obtain ⟨annotator, hannotator, hread⟩ := List.mem_filterMap.1 hn
    obtain ⟨list', hlist, hcount⟩ := (hx annotator hannotator _ _ _ _ n hread).2 found hfound
    obtain rfl : list = list' := Option.some.inj hlist
    rw [hcount, hlength]
  · cases hn

theorem safe_memberTypes (h : convert.IsSafe) {x : Subject} (hx : Proper x.annotators) (t : NodeId)
    (a : Attributes) : Safe s (memberTypes convert x t a) fun _ _ => True := by
  unfold memberTypes
  dsimp only
  refine (safe_ownTypes h x _ _).bind fun own s₁ _ _ => ?_
  refine (Safe.mapM (fun target _ => (safe_targetType h x a target).imp
    fun _ _ _ _ => trivial) _).bind fun target s₂ _ _ => ?_
  refine (Safe.mapM (fun cases _ => safe_caseTypes h x "allOf" _ cases) _).bind
    fun all s₃ _ _ => ?_
  refine (Safe.mapM (fun cases _ => safe_choiceType h hx t _ "oneOf" cases) _).bind
    fun one s₄ _ _ => ?_
  refine (Safe.mapM (fun cases _ => safe_choiceType h hx t _ "anyOf" cases) _).bind
    fun any s₅ _ _ => ?_
  split
  · exact .map .anyType
  · exact .pure trivial

/-! ### Schemas -/

theorem safe_withFound {x : Subject} (hx : Proper x.annotators) (a : Attributes) :
    Safe s (withFound x a) fun _ s' => s' = s := by
  unfold withFound
  split
  · exact .pure rfl
  · split
    · exact .pure rfl
    · next cause hcause =>
      unfold Subject.foundForType at hcause
      split at hcause
      · next hany =>
        obtain ⟨n, hn, hsome⟩ := List.any_eq_true.1 hany
        obtain ⟨annotator, hannotator, hread⟩ := List.mem_filterMap.1 hn
        obtain ⟨hunion, hcases⟩ := (hx annotator hannotator _ _ _ _ n hread).1 rfl
        rw [hunion, hcases] at hsome
        cases hsome
      · cases hcause

theorem safe_convertObject (h : convert.IsSafe) (hproper : Proper annotators)
    (schema : List (String × Json)) {place : Place}
    (hnone : s.types.lookup place.canonical = none) (a : Attributes) :
    Safe s (convertObject convert annotators schema place a) fun t s' =>
      s'.types.lookup place.canonical = some t := by
  unfold convertObject
  refine (Safe.orRefuse (subject annotators schema place)).bind ?_
  rintro x s - ⟨hx, rfl⟩
  obtain ⟨hsubject, -⟩ := isSubject_of_subject hx
  have hx' : Proper x.annotators := by
    rw [hsubject.annotators]
    exact hproper
  refine (safe_withFound hx' a).bind ?_
  rintro a' s - rfl
  dsimp only
  generalize (if a'.names.isEmpty then a'.combine (.inferredName place.canonical.name) else a') = a
  have hplaceholder := Safe.placeholder (s := s) (.inr rfl) a
    (fun t => do
      register place t
      memberTypes convert x t a)
    (P := fun t s' => s'.types.lookup place.canonical = some t)
    (fun t s' htypes => (Safe.register (.inl (htypes ▸ hnone))).bind fun _ s₁ _ ht =>
      (safe_memberTypes h hx' t a).imp fun _ s₂ h₂ _ => h₂.grows.lookup ht)
    fun _ _ _ ht => ht
  simp only [bind_assoc] at hplaceholder
  exact hplaceholder

theorem safe_convertSchema (h : convert.IsSafe) (hproper : Proper annotators) (schema : Json)
    {place : Place} (hnone : s.types.lookup place.canonical = none) (a : Attributes) :
    Safe s (convertSchema convert annotators schema place a) fun t s' =>
      s'.types.lookup place.canonical = none ∨ s'.types.lookup place.canonical = some t := by
  unfold convertSchema
  split
  · exact (Safe.onGraph (f := (·.share (.primitive .any) .empty))
      (Graph.share_spec s.graph (.primitive .any) .empty).1).imp
        fun _ _ _ hsame => .inl (hsame.2 ▸ hnone)
  · exact .refuse _
  · next members =>
    have hcanonical := place.canonical_withIdOf members
    have hnone' : s.types.lookup (place.withIdOf members).canonical = none := by
      rw [hcanonical]
      exact hnone
    have hobject := safe_convertObject h hproper members hnone'
    rw [hcanonical] at hobject
    exact (hobject _).imp fun _ _ _ ht => .inr ht
  · exact .refuse _

/-- However deep it may go, the converter is no misuse, and it gives the type that the place has
then. -/
theorem safe_toType (hproper : Proper annotators) (depth : Nat) :
    Converter.IsSafe (toType annotators depth) := by
  induction depth with
  | zero => exact fun s v place a => .throw nofun
  | succ depth ih =>
    intro s v place a
    rw [toType]
    refine Safe.get.bind ?_
    rintro _ _ - ⟨rfl, rfl⟩
    split
    · next t hlookup => exact .pure hlookup
    · next hnone =>
      refine (safe_convertSchema ih hproper v hnone a).bind fun t s₁ _ ht => ?_
      exact (Safe.register ht).bind fun _ s₂ _ ht' => .pure ht'

/-- A top-level reference that can be written is converted to the type of the place that it is
resolved to. -/
theorem safe_convertTopLevel (hproper : Proper annotators) (name : String) {r : Reference}
    (hr : r.IsWritten) :
    Safe s (convertTopLevel annotators name r) fun t s' =>
      ∃ found, (outcome (Library.resolveTopLevel r) s.library).1 = .ok found ∧
        s'.types.lookup found.place.canonical = some t := by
  unfold convertTopLevel
  refine (Safe.resolve .empty hr).bind ?_
  rintro found s₁ - ⟨hfound, hvalue⟩
  split
  · next e he =>
    obtain ⟨error, rfl⟩ := hvalue e he
    exact .throw nofun
  · next v hv =>
    refine Safe.get.bind ?_
    rintro _ _ - ⟨rfl, rfl⟩
    refine (safe_toType hproper _ _ v found.place _).imp fun t s₂ _ ht => ⟨found, ?_, ht⟩
    exact congrArg Prod.fst hfound

end JsonTyping.Conversion
