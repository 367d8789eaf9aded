import JsonTyping.Proofs.FilledTypes
import JsonTyping.Proofs.SchemaConversion

/-!
# Placeholders in a conversion

A schema is registered with a placeholder, which stays pending until the members of the schema are
known. `Conversion.Fills` says of a step that the types it registers and gives are filled but for
the placeholders that were pending before, and that it lets the conversion grow however it ends. It
holds of every step, whatever the documents and annotators are (`fills_convertTopLevel`).
-/

namespace JsonTyping.Conversion

variable {α β : Type} {pending : Set NodeId} {s : Conversion}

/-- The registered types are filled but for pending nodes. -/
def TypesFilled (pending : Set NodeId) (s : Conversion) : Prop :=
  ∀ e ∈ s.types, s.graph.FilledBut pending e.2

/-- A run of the step lets the conversion grow. When it ends well, the registered types are filled
but for pending nodes, and `Q` holds. -/
def Fills (pending : Set NodeId) (s : Conversion) (m : ConvertM α) (Q : α → Graph → Prop) : Prop :=
  match outcome m s with
  | (.ok a, s') => Grows s s' ∧ TypesFilled pending s' ∧ Q a s'.graph
  | (.error _, s') => Grows s s'

theorem TypesFilled.extends {g : Graph} (h : TypesFilled pending s) (hext : s.graph.Extends g)
    (library : Library) : TypesFilled pending { s with library, graph := g } :=
  fun e he => (h e he).extends hext

theorem Fills.of_ok {m : ConvertM α} {Q : α → Graph → Prop} {a : α} {s' : Conversion}
    (hrun : outcome m s = (.ok a, s')) (hgrows : Grows s s') (htypes : TypesFilled pending s')
    (hQ : Q a s'.graph) : Fills pending s m Q := by
  unfold Fills
  rw [hrun]
  exact ⟨hgrows, htypes, hQ⟩

theorem Fills.of_error {m : ConvertM α} {Q : α → Graph → Prop} {e : Halt} {s' : Conversion}
    (hrun : outcome m s = (.error e, s')) (hgrows : Grows s s') : Fills pending s m Q := by
  unfold Fills
  rw [hrun]
  exact hgrows

theorem Fills.grows {m : ConvertM α} {Q : α → Graph → Prop} (h : Fills pending s m Q)
    {result : Except Halt α} {s' : Conversion} (hrun : outcome m s = (result, s')) :
    Grows s s' := by
  unfold Fills at h
  rw [hrun] at h
  cases result with
  | ok a => exact h.1
  | error e => exact h

theorem Fills.ok {m : ConvertM α} {Q : α → Graph → Prop} (h : Fills pending s m Q) {a : α}
    {s' : Conversion} (hrun : outcome m s = (.ok a, s')) :
    TypesFilled pending s' ∧ Q a s'.graph := by
  unfold Fills at h
  rw [hrun] at h
  exact h.2

theorem Fills.throw {Q : α → Graph → Prop} (e : Halt) :
    Fills pending s (throw e : ConvertM α) Q :=
  .of_error rfl (.refl s)

theorem Fills.pure {Q : α → Graph → Prop} {a : α} (hs : TypesFilled pending s)
    (hQ : Q a s.graph) : Fills pending s (pure a) Q :=
  .of_ok rfl (.refl s) hs hQ

theorem Fills.orRefuse (hs : TypesFilled pending s) (r : Except SchemaError α) :
    Fills pending s (orRefuse r) fun a g => r = .ok a ∧ g = s.graph := by
  cases r with
  | ok a => exact .pure hs ⟨rfl, rfl⟩
  | error e => exact .throw _

theorem Fills.bind {m : ConvertM α} {f : α → ConvertM β} {P : α → Graph → Prop}
    {Q : β → Graph → Prop} (hm : Fills pending s m P)
    (hf : ∀ a s', s.graph.Extends s'.graph → TypesFilled pending s' → P a s'.graph →
      Fills pending s' (f a) Q) : Fills pending s (m >>= f) Q := by
  rcases hrun : outcome m s with ⟨e | a, s₁⟩
  · have hboth : outcome (m >>= f) s = (.error e, s₁) := by rw [outcome_bind, hrun]
    exact .of_error hboth (hm.grows hrun)
  · have hgrows := hm.grows hrun
    obtain ⟨htypes, hP⟩ := hm.ok hrun
    have hrest := hf a s₁ hgrows.graph htypes hP
    have hboth := outcome_bind_of_ok hrun f
    rcases hrun' : outcome (f a) s₁ with ⟨e | b, s₂⟩
    · rw [hrun'] at hboth
      exact .of_error hboth (hgrows.trans (hrest.grows hrun'))
    · rw [hrun'] at hboth
      obtain ⟨htypes', hQ⟩ := hrest.ok hrun'
      exact .of_ok hboth (hgrows.trans (hrest.grows hrun')) htypes' hQ

theorem Fills.imp {m : ConvertM α} {P Q : α → Graph → Prop} (h : Fills pending s m P)
    (hPQ : ∀ a g, s.graph.Extends g → P a g → Q a g) : Fills pending s m Q := by
  rcases hrun : outcome m s with ⟨e | a, s'⟩
  · exact .of_error hrun (h.grows hrun)
  · have hgrows := h.grows hrun
    obtain ⟨htypes, hP⟩ := h.ok hrun
    exact .of_ok hrun hgrows htypes (hPQ a _ hgrows.graph hP)

theorem Fills.map {m : ConvertM α} {f : α → β} {Q : β → Graph → Prop}
    (h : Fills pending s m fun a g => Q (f a) g) : Fills pending s (f <$> m) Q := by
  rw [← bind_pure_comp]
  exact h.bind fun a s' _ hs' hQ => .pure hs' hQ

theorem Fills.mapM {f : α → ConvertM β} {Q : β → Graph → Prop}
    (hQ : ∀ b g g', g.Extends g' → Q b g → Q b g')
    (hf : ∀ a s', TypesFilled pending s' → Fills pending s' (f a) Q) (l : List α)
    (hs : TypesFilled pending s) :
    Fills pending s (l.mapM f) fun bs g => ∀ b ∈ bs, Q b g := by
  induction l generalizing s with
  | nil =>
    rw [List.mapM_nil]
    exact .pure hs nofun
  | cons a l ih =>
    rw [List.mapM_cons]
    refine (hf a s hs).bind fun b s₁ _ hs₁ hb => ?_
    refine (ih hs₁).bind fun bs s₂ hext hs₂ hbs => .pure hs₂ fun c hc => ?_
    rcases List.mem_cons.1 hc with rfl | hc
    · exact hQ c _ _ hext hb
    · exact hbs c hc

theorem Fills.forM {f : α → ConvertM PUnit}
    (hf : ∀ a s', TypesFilled pending s' → Fills pending s' (f a) fun _ _ => True) (l : List α)
    (hs : TypesFilled pending s) : Fills pending s (l.forM f) fun _ _ => True := by
  induction l generalizing s with
  | nil => exact .pure hs trivial
  | cons a l ih => exact (hf a s hs).bind fun _ s₁ _ hs₁ _ => ih hs₁

theorem Fills.onGraph {f : Graph → Graph × α} {Q : α → Graph → Prop}
    (hs : TypesFilled pending s) (hext : s.graph.Extends (f s.graph).1)
    (hQ : Q (f s.graph).2 (f s.graph).1) : Fills pending s (onGraph f) Q :=
  .of_ok rfl (.of_graph hext s.library) (hs.extends hext s.library) hQ

theorem Fills.tryGraph {f : Graph → Except Misuse (Graph × α)} {Q : α → Graph → Prop}
    (hs : TypesFilled pending s)
    (hf : ∀ g a, f s.graph = .ok (g, a) → s.graph.Extends g ∧ Q a g) :
    Fills pending s (tryGraph f) Q := by
  cases hresult : f s.graph with
  | error cause => exact .of_error (outcome_tryGraph_of_error hresult) (.refl s)
  | ok result =>
    obtain ⟨g, a⟩ := result
    obtain ⟨hext, hQ⟩ := hf g a hresult
    exact .of_ok (outcome_tryGraph hresult) (.of_graph hext s.library)
      (hs.extends hext s.library) hQ

theorem Fills.onLibrary (hs : TypesFilled pending s) (f : Library.LibraryM α) :
    Fills pending s (onLibrary f) fun _ _ => True := by
  have hrun := outcome_onLibrary f s
  have hext : s.graph.Extends s.graph := .refl s.graph
  rcases hresult : outcome f s.library with ⟨e | a, library⟩
  · rw [hresult] at hrun
    exact .of_error hrun (.of_graph hext library)
  · rw [hresult] at hrun
    exact .of_ok hrun (.of_graph hext library) (hs.extends hext library) trivial

theorem Fills.get (hs : TypesFilled pending s) :
    Fills pending s (get : ConvertM Conversion) fun s' g => s'.graph = g ∧ s' = s :=
  .of_ok rfl (.refl s) hs ⟨rfl, rfl⟩

theorem Fills.register (hs : TypesFilled pending s) (place : Place) {t : NodeId}
    (ht : s.graph.FilledBut pending t) :
    Fills pending s (register place t) fun _ g => g = s.graph := by
  cases hlookup : s.types.lookup place.canonical with
  | none =>
    refine .of_ok (outcome_register_of_none t hlookup) (.register (.refl s.graph) hlookup t) ?_ rfl
    intro e he
    rcases List.mem_cons.1 he with rfl | he
    · exact ht
    · exact hs e he
  | some present =>
    by_cases heq : present = t
    · subst heq
      exact .of_ok (outcome_register_of_some hlookup) (.refl s) hs rfl
    · exact .of_error (outcome_register_of_ne hlookup heq) (.refl s)

/-- The step gives a filled type. -/
def GivesFilled (pending : Set NodeId) (s : Conversion) (m : ConvertM NodeId) : Prop :=
  Fills pending s m fun t g => g.FilledBut pending t

/-- The step gives filled types. -/
def GivesAllFilled (pending : Set NodeId) (s : Conversion) (m : ConvertM (List NodeId)) : Prop :=
  Fills pending s m fun ts g => ∀ t ∈ ts, g.FilledBut pending t

theorem GivesFilled.share (hs : TypesFilled pending s) (shape : Shape) (hfilled : shape.IsFilled)
    (a : Attributes) (hparts : ∀ u ∈ shape.parts, s.graph.FilledBut pending u) :
    GivesFilled pending s (onGraph (·.share shape a)) :=
  Fills.onGraph (f := (·.share shape a)) hs (Graph.share_spec s.graph shape a).1
    (Graph.filledBut_share hfilled a hparts)

theorem GivesFilled.fresh (hs : TypesFilled pending s) (shape : Shape) (hfilled : shape.IsFilled)
    (a : Attributes) (hparts : ∀ u ∈ shape.parts, s.graph.FilledBut pending u) :
    GivesFilled pending s (onGraph (·.fresh shape a)) :=
  Fills.onGraph (f := (·.fresh shape a)) hs (Graph.fresh_spec s.graph shape a).1
    (Graph.filledBut_fresh hfilled a hparts)

theorem GivesFilled.shareLeaf (hs : TypesFilled pending s) (shape : Shape)
    (hfilled : shape.IsFilled) (hleaf : shape.parts = []) (a : Attributes) :
    GivesFilled pending s (onGraph (·.share shape a)) := by
  refine .share hs shape hfilled a fun u hu => ?_
  rw [hleaf] at hu
  cases hu

theorem GivesFilled.anyType (hs : TypesFilled pending s) : GivesFilled pending s anyType :=
  .shareLeaf hs (.primitive .any) ⟨nofun, nofun⟩ rfl .empty

theorem GivesAllFilled.mapM {f : α → ConvertM NodeId}
    (hf : ∀ a s', TypesFilled pending s' → GivesFilled pending s' (f a)) (l : List α)
    (hs : TypesFilled pending s) : GivesAllFilled pending s (l.mapM f) :=
  Fills.mapM (fun _ _ _ hext ht => ht.extends hext) hf l hs

theorem GivesFilled.singleton {m : ConvertM NodeId} (h : GivesFilled pending s m) :
    GivesAllFilled pending s ((fun t => [t]) <$> m) := by
  refine Fills.map (h.imp fun t g _ ht u hu => ?_)
  obtain rfl := List.mem_singleton.1 hu
  exact ht

/-- The converter gives filled types, whatever is pending. -/
def Converter.Fills (convert : Converter) : Prop :=
  ∀ pending s v place a, TypesFilled pending s → GivesFilled pending s (convert v place a)

variable {convert : Converter}

theorem givesAllFilled_convertCases (h : convert.Fills) (hs : TypesFilled pending s) (place : Place)
    (a : Attributes) (cases : List Json) :
    GivesAllFilled pending s (convertCases convert place a cases) :=
  .mapM (fun e s' hs' => h pending s' e.1 _ a hs') cases.zipIdx hs

theorem givesFilled_itemsType (h : convert.Fills) (hs : TypesFilled pending s) (x : Subject)
    (a : Attributes) : GivesFilled pending s (itemsType convert x a) := by
  unfold itemsType
  dsimp only
  split
  · exact GivesFilled.anyType hs
  · refine (givesAllFilled_convertCases h hs _ a _).bind fun types s₁ _ hs₁ htypes => ?_
    split
    · exact GivesFilled.anyType hs₁
    · refine Fills.tryGraph hs₁ fun g t hunion => ?_
      refine Graph.filledBut_union hunion fun u hu => ?_
      exact htypes u (SortedSet.mem_ofList.1 hu)
  · exact h pending s _ _ a hs
  · exact h pending s _ _ a hs
  · exact .throw _

theorem givesFilled_arrayType (h : convert.Fills) (hs : TypesFilled pending s) (x : Subject)
    (a : Attributes) : GivesFilled pending s (arrayType convert x a) := by
  refine (givesFilled_itemsType h hs x a).bind fun items s₁ _ hs₁ hitems => ?_
  refine GivesFilled.share hs₁ (.array items) ⟨nofun, nofun⟩ .empty fun u hu => ?_
  obtain rfl := List.mem_singleton.1 hu
  exact hitems

theorem fills_declaredProperties (h : convert.Fills) (hs : TypesFilled pending s) (x : Subject)
    (required : List String) (schemas : List (String × Json)) :
    Fills pending s (declaredProperties convert x required schemas) fun declared g =>
      ∀ e ∈ declared, g.FilledBut pending e.2.type := by
  refine Fills.mapM (fun e g g' hext he => he.extends hext) (fun e s' hs' => ?_) schemas hs
  refine (h pending s' e.2 _ _ hs').bind fun t s₁ _ hs₁ ht => ?_
  exact .pure hs₁ ht

theorem fills_additionalType (h : convert.Fills) (hs : TypesFilled pending s) (x : Subject)
    (a : Attributes) :
    Fills pending s (additionalType convert x a) fun additional g =>
      ∀ t, additional = some t → g.FilledBut pending t := by
  have hsome : ∀ m, GivesFilled pending s m →
      Fills pending s (some <$> m) fun additional g =>
        ∀ t, additional = some t → g.FilledBut pending t := by
    intro m hm
    refine .map (hm.imp fun t g _ ht u hu => ?_)
    obtain rfl := Option.some.inj hu
    exact ht
  unfold additionalType
  split
  · exact hsome _ (.anyType hs)
  · exact hsome _ (.anyType hs)
  · exact .pure hs nofun
  · exact hsome _ (h pending s _ _ a hs)

/-- The types of the properties are those of declared ones and that of all others. -/
theorem type_of_addRequired {x : Subject} {required : List String}
    {declared : List (String × Property)} {additional : Option NodeId}
    {all : SortedMap String Property}
    (hall : addRequired x required (.ofList declared) additional = .ok all) {p : Property}
    (hp : p ∈ all.values) : (∃ e ∈ declared, e.2 = p) ∨ additional = some p.type := by
  obtain ⟨⟨name, p⟩, hmem, rfl⟩ := List.mem_map.1 hp
  have hfind : all.find? name = some p := SortedMap.find?_eq_some_iff.2 hmem
  rcases find?_of_addRequired hall name with hsame | ⟨-, -, t, hadditional, hnew⟩
  · have hdeclared := SortedMap.mem_of_find?_ofList (hsame.symm.trans hfind)
    exact .inl ⟨(name, p), hdeclared, rfl⟩
  · obtain rfl := Option.some.inj (hnew.symm.trans hfind)
    exact .inr hadditional

theorem givesFilled_objectType (h : convert.Fills) (hs : TypesFilled pending s) (x : Subject)
    (a : Attributes) : GivesFilled pending s (objectType convert x a) := by
  unfold objectType
  refine (Fills.orRefuse hs (requiredNames x)).bind fun listed s₁ _ hs₁ _ => ?_
  refine (Fills.orRefuse hs₁ (propertySchemas x)).bind fun schemas s₂ _ hs₂ _ => ?_
  dsimp only
  refine (fills_declaredProperties h hs₂ x _ schemas).bind fun declared s₃ _ hs₃ hdeclared => ?_
  refine (fills_additionalType h hs₃ x a).bind fun additional s₄ hext hs₄ hadditional => ?_
  refine (Fills.orRefuse hs₄ _).bind fun all s₅ _ hs₅ hall => ?_
  obtain ⟨hall, hgraph⟩ := hall
  refine GivesFilled.fresh hs₅ (.object all additional) ⟨nofun, nofun⟩ a fun u hu => ?_
  rw [hgraph]
  rcases List.mem_append.1 hu with hu | hu
  · obtain ⟨p, hp, rfl⟩ := List.mem_map.1 hu
    rcases type_of_addRequired hall hp with ⟨e, he, rfl⟩ | hother
    · exact (hdeclared e he).extends hext
    · exact hadditional _ hother
  · exact hadditional u (Option.mem_toList.1 hu)

/-! ### Members of schemas -/

theorem givesAllFilled_primitiveTypes (hs : TypesFilled pending s) (x : Subject) :
    GivesAllFilled pending s (primitiveTypes x) := by
  unfold primitiveTypes
  refine .mapM (fun p s' hs' => ?_) x.limits.primitives hs
  exact .shareLeaf hs' (.primitive p) ⟨nofun, nofun⟩ rfl _

theorem givesAllFilled_stringTypes (hs : TypesFilled pending s) (x : Subject)
    (names : Attributes) : GivesAllFilled pending s (stringTypes x names) := by
  unfold stringTypes
  dsimp only
  split
  · next cases _ =>
    exact (GivesFilled.shareLeaf hs (.enumeration cases) ⟨nofun, nofun⟩ rfl _).singleton
  · split
    · exact (GivesFilled.shareLeaf hs (.primitive x.stringKind) ⟨nofun, nofun⟩ rfl _).singleton
    · exact .pure hs nofun

theorem givesAllFilled_containerTypes (hs : TypesFilled pending s) (x : Subject) (t : JsonType)
    {m : ConvertM NodeId} (hm : GivesFilled pending s m) :
    GivesAllFilled pending s (containerTypes x t m) := by
  unfold containerTypes
  split
  · exact hm.singleton
  · exact .pure hs nofun

theorem givesFilled_ownUnion (h : convert.Fills) (hs : TypesFilled pending s) (x : Subject)
    (names inferred : Attributes) :
    GivesFilled pending s (ownUnion convert x names inferred) := by
  unfold ownUnion
  refine (givesAllFilled_primitiveTypes hs x).bind fun primitives s₁ _ hs₁ hprimitives => ?_
  refine (givesAllFilled_stringTypes hs₁ x names).bind fun strings s₂ h₂ hs₂ hstrings => ?_
  refine (givesAllFilled_containerTypes hs₂ x .array (givesFilled_arrayType h hs₂ x names)).bind
    fun arrays s₃ h₃ hs₃ harrays => ?_
  refine (givesAllFilled_containerTypes hs₃ x .object (givesFilled_objectType h hs₃ x names)).bind
    fun objects s₄ h₄ hs₄ hobjects => ?_
  refine GivesFilled.fresh hs₄ (.union (some _)) ⟨nofun, nofun⟩ inferred fun u hu => ?_
  have hmem := SortedSet.mem_ofList.1 hu
  simp only [List.mem_append] at hmem
  rcases hmem with ((hu | hu) | hu) | hu
  · exact (hprimitives u hu).extends (h₂.trans (h₃.trans h₄))
  · exact (hstrings u hu).extends (h₃.trans h₄)
  · exact (harrays u hu).extends h₄
  · exact hobjects u hu

theorem givesAllFilled_ownTypes (h : convert.Fills) (hs : TypesFilled pending s) (x : Subject)
    (names inferred : Attributes) :
    GivesAllFilled pending s (ownTypes convert x names inferred) := by
  unfold ownTypes
  split
  · exact (givesFilled_ownUnion h hs x names inferred).singleton
  · exact .pure hs nofun

theorem givesFilled_targetType (h : convert.Fills) (hs : TypesFilled pending s) (x : Subject)
    (own : Attributes) (target : Json) :
    GivesFilled pending s (targetType convert x own target) := by
  unfold targetType
  split
  · refine (Fills.onLibrary hs _).bind fun found s₁ _ hs₁ _ => ?_
    split
    · exact .throw _
    · exact h pending s₁ _ _ _ hs₁
  · exact .throw _

theorem givesAllFilled_caseTypes (h : convert.Fills) (hs : TypesFilled pending s) (x : Subject)
    (keyword : String) (a : Attributes) (cases : Json) :
    GivesAllFilled pending s (caseTypes convert x keyword a cases) := by
  unfold caseTypes
  dsimp only
  split
  · exact givesAllFilled_convertCases h hs _ a _
  · exact .throw _

theorem fills_addAttributes (hs : TypesFilled pending s) (t : NodeId) (a : Attributes) :
    Fills pending s (onGraph fun g => (g.addAttributes t a, ())) fun _ _ => True :=
  .onGraph hs (Graph.extends_addAttributes s.graph t a) trivial

theorem fills_annotateChoice (hs : TypesFilled pending s) (t : NodeId) (types : List NodeId)
    (ofUnion : Attributes) (found : List Annotation) :
    Fills pending s (annotateChoice t types ofUnion found) fun _ _ => True := by
  have hcases : ∀ (found : List Attributes) (s' : Conversion), TypesFilled pending s' →
      Fills pending s' (annotateCases types found) fun _ _ => True := by
    intro found s' hs'
    unfold annotateCases
    split
    · exact .forM (fun e _ hs => fills_addAttributes hs e.1 e.2) _ hs'
    · exact .throw _
  have hoption : ∀ {α : Type} (f : α → ConvertM PUnit) (o : Option α) (s' : Conversion),
      (∀ a s', TypesFilled pending s' → Fills pending s' (f a) fun _ _ => True) →
        TypesFilled pending s' → Fills pending s' (o.forM f) fun _ _ => True := by
    intro α f o s' hf hs'
    cases o with
    | none => exact .pure hs' trivial
    | some a => exact hf a s' hs'
  induction found generalizing s ofUnion with
  | nil => exact .pure hs trivial
  | cons n rest ih =>
    rw [annotateChoice]
    refine (hoption _ n.forType s (fun a _ hs => fills_addAttributes hs t a) hs).bind
      fun _ s₁ _ hs₁ _ => ?_
    exact (hoption _ n.forCases s₁ hcases hs₁).bind fun _ s₂ _ hs₂ _ => ih hs₂ _

/-! ### Placeholders -/

theorem TypesFilled.mono {pending' : Set NodeId} (h : TypesFilled pending s)
    (hsubset : pending ⊆ pending') : TypesFilled pending' s :=
  fun e he => (h e he).mono_pending hsubset

/-- A new node is pending while its members are found, and filled when it gets them. -/
theorem givesFilled_placeholder (hs : TypesFilled pending s) (shape : Shape) (a : Attributes)
    (members : NodeId → ConvertM (List NodeId))
    (hmembers : ∀ t s', s.graph.Extends s'.graph → TypesFilled (insert t pending) s' →
      GivesAllFilled (insert t pending) s' (members t)) :
    GivesFilled pending s (do
      let t ← onGraph (·.fresh shape a)
      let us ← members t
      tryGraph fun g => (g.setMembers t (.ofList us)).map fun g => (g, t)) := by
  obtain ⟨hext, -, -, -⟩ := Graph.fresh_spec s.graph shape a
  have hfresh : outcome (onGraph (·.fresh shape a)) s =
      (.ok s.graph.size, { s with graph := (s.graph.fresh shape a).1 }) := rfl
  have hgrows : Grows s { s with graph := (s.graph.fresh shape a).1 } := .of_graph hext s.library
  have hs₁ : TypesFilled (insert s.graph.size pending)
      { s with graph := (s.graph.fresh shape a).1 } :=
    (hs.extends hext s.library).mono (Set.subset_insert _ pending)
  have hfills := hmembers s.graph.size _ hext hs₁
  unfold GivesFilled Fills
  rw [outcome_bind_of_ok hfresh, outcome_bind]
  rcases hrun : outcome (members s.graph.size) { s with graph := (s.graph.fresh shape a).1 }
    with ⟨e | us, s₂⟩
  · exact hgrows.trans (hfills.grows hrun)
  · have hgrows₂ := hgrows.trans (hfills.grows hrun)
    obtain ⟨hs₂, hus⟩ := hfills.ok hrun
    dsimp only
    cases hset : s₂.graph.setMembers s.graph.size (.ofList us) with
    | error cause =>
      have herror : outcome (tryGraph fun g =>
          (g.setMembers s.graph.size (.ofList us)).map fun g => (g, s.graph.size)) s₂ =
            (.error (.misuse cause), s₂) := by
        refine outcome_tryGraph_of_error ?_
        rw [hset]
        rfl
      rw [herror]
      exact hgrows₂
    | ok g =>
      have hok : outcome (tryGraph fun g =>
          (g.setMembers s.graph.size (.ofList us)).map fun g => (g, s.graph.size)) s₂ =
            (.ok s.graph.size, { s₂ with graph := g }) := by
        refine outcome_tryGraph ?_
        rw [hset]
        rfl
      have hclose : ∀ u, s₂.graph.FilledBut (insert s.graph.size pending) u →
          g.FilledBut pending u := fun u hu =>
        hu.setMembers hset fun v hv => hus v (SortedSet.mem_ofList.1 hv)
      rw [hok]
      exact ⟨⟨hgrows₂.graph.setMembers (Nat.le_refl _) hset, hgrows₂.types⟩,
        fun e he => hclose _ (hs₂ e he), hclose _ (.of_pending (Set.mem_insert _ pending))⟩

theorem givesFilled_choiceType (h : convert.Fills) (hs : TypesFilled pending s) (x : Subject)
    (t : NodeId) (inferred : Attributes) (keyword : String) (cases : Json) :
    GivesFilled pending s (choiceType convert x t inferred keyword cases) := by
  unfold choiceType
  refine (givesAllFilled_caseTypes h hs x keyword _ cases).bind fun types s₁ _ hs₁ htypes => ?_
  dsimp only
  refine (fills_annotateChoice hs₁ t types inferred _).bind fun a s₂ h₂ hs₂ _ => ?_
  have hunion := givesFilled_placeholder hs₂ (.union none) a (fun _ => pure types)
    fun u s₃ h₃ hs₃ => Fills.pure hs₃ fun v hv =>
      ((htypes v hv).extends (h₂.trans h₃)).mono_pending (Set.subset_insert u pending)
  simp only [pure_bind] at hunion
  exact hunion

theorem givesAllFilled_memberTypes (h : convert.Fills) (hs : TypesFilled pending s) (x : Subject)
    (t : NodeId) (a : Attributes) : GivesAllFilled pending s (memberTypes convert x t a) := by
  unfold memberTypes
  dsimp only
  refine (givesAllFilled_ownTypes h hs x _ _).bind fun own s₁ _ hs₁ hown => ?_
  refine (GivesAllFilled.mapM (fun target _ hs => givesFilled_targetType h hs x a target) _
    hs₁).bind fun target s₂ h₂ hs₂ htarget => ?_
  refine (Fills.mapM (Q := fun ts g => ∀ t ∈ ts, g.FilledBut pending t)
    (fun ts g g' hext hts t ht => (hts t ht).extends hext)
    (fun cases _ hs => givesAllFilled_caseTypes h hs x "allOf" _ cases) _ hs₂).bind
      fun all s₃ h₃ hs₃ hall => ?_
  refine (GivesAllFilled.mapM
    (fun cases _ hs => givesFilled_choiceType h hs x t _ "oneOf" cases) _ hs₃).bind
      fun one s₄ h₄ hs₄ hone => ?_
  refine (GivesAllFilled.mapM
    (fun cases _ hs => givesFilled_choiceType h hs x t _ "anyOf" cases) _ hs₄).bind
      fun any s₅ h₅ hs₅ hany => ?_
  split
  · exact (GivesFilled.anyType hs₅).singleton
  · refine .pure hs₅ fun u hu => ?_
    simp only [List.mem_append, List.mem_flatten] at hu
    rcases hu with (((hu | hu) | ⟨types, htypes, hu⟩) | hu) | hu
    · exact (hown u hu).extends (h₂.trans (h₃.trans (h₄.trans h₅)))
    · exact (htarget u hu).extends (h₃.trans (h₄.trans h₅))
    · exact (hall types htypes u hu).extends (h₄.trans h₅)
    · exact (hone u hu).extends h₅
    · exact hany u hu

theorem fills_withFound (hs : TypesFilled pending s) (x : Subject) (a : Attributes) :
    Fills pending s (withFound x a) fun _ _ => True := by
  unfold withFound
  split
  · exact .pure hs trivial
  · split
    · exact .pure hs trivial
    · exact .throw _

theorem givesFilled_convertObject (h : convert.Fills) (hs : TypesFilled pending s)
    (annotators : List Annotator) (schema : List (String × Json)) (place : Place)
    (a : Attributes) : GivesFilled pending s (convertObject convert annotators schema place a) := by
  unfold convertObject
  refine (Fills.orRefuse hs _).bind fun x s₁ _ hs₁ _ => ?_
  refine (fills_withFound hs₁ x a).bind fun a s₂ _ hs₂ _ => ?_
  dsimp only
  generalize (if a.names.isEmpty then a.combine (.inferredName place.canonical.name) else a) = a
  have hplaceholder := givesFilled_placeholder hs₂ (.intersection none) a
    (fun t => do
      register place t
      memberTypes convert x t a)
    fun t s₃ _ hs₃ =>
      (Fills.register hs₃ place (.of_pending (Set.mem_insert t pending))).bind
        fun _ s₄ _ hs₄ _ => givesAllFilled_memberTypes h hs₄ x t a
  simp only [bind_assoc] at hplaceholder
  exact hplaceholder

theorem givesFilled_convertSchema (h : convert.Fills) (hs : TypesFilled pending s)
    (annotators : List Annotator) (schema : Json) (place : Place) (a : Attributes) :
    GivesFilled pending s (convertSchema convert annotators schema place a) := by
  unfold convertSchema
  split
  · exact .anyType hs
  · exact .throw _
  · exact givesFilled_convertObject h hs annotators _ _ _
  · exact .throw _

theorem fills_toType (annotators : List Annotator) (depth : Nat) :
    Converter.Fills (toType annotators depth) := by
  -- A place that has a type already has one that is filled; any other is converted one level up.
  induction depth with
  | zero => exact fun pending s v place a _ => .throw _
  | succ depth ih =>
    intro pending s v place a hs
    rw [toType]
    refine Fills.bind (Fills.get hs) fun s' s₁ _ hs₁ hsame => ?_
    obtain ⟨hgraph, rfl⟩ := hsame
    split
    · next t hlookup =>
      have ht := hs (place.canonical, t) (mem_of_lookup hlookup)
      rw [hgraph] at ht
      exact .pure hs₁ ht
    · refine (givesFilled_convertSchema ih hs₁ annotators v place a).bind fun t s₂ _ hs₂ ht => ?_
      refine (Fills.register hs₂ place ht).bind fun _ s₃ _ hs₃ hsame => .pure hs₃ ?_
      rw [hsame]
      exact ht

/-- A top-level reference is converted to a filled type, whatever the documents and annotators
are. -/
theorem fills_convertTopLevel (annotators : List Annotator) (name : String) (r : Reference)
    (hs : TypesFilled pending s) :
    GivesFilled pending s (convertTopLevel annotators name r) := by
  unfold convertTopLevel
  refine (Fills.onLibrary hs _).bind fun found s₁ _ hs₁ _ => ?_
  split
  · exact .throw _
  · refine (Fills.get hs₁).bind fun s' s₂ _ hs₂ _ => ?_
    exact fills_toType annotators _ pending s₂ _ _ _ hs₂

end JsonTyping.Conversion
