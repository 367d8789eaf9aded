import JsonTyping.Proofs.GraphGrowth
import JsonTyping.Proofs.SchemaPlaces
import JsonTyping.Proofs.SchemaValidity

/-!
# Runs of a conversion

What a step of a conversion does to the state: the graph grows and further places get types
(`Conversion.Advances`), all of them types that have every value that is valid at the place
(`Conversion.Covered`). `Conversion.Walks` says this of a step, and that it fails only for reasons
that the schemas or the annotators give. Its rules follow the steps one by one.
-/

namespace JsonTyping

/-- The shape is there, and its members are known if it has any. -/
def Shape.IsKnown (s : Shape) : Prop :=
  s ≠ .primitive .none ∧ s ≠ .union none ∧ s ≠ .intersection none

/-- Every known shape of the first graph is one of the second. -/
def Graph.Keeps (g g' : Graph) : Prop := ∀ t, (g.shape t).IsKnown → g'.shape t = g.shape t

theorem Graph.Keeps.refl (g : Graph) : g.Keeps g := fun _ _ => rfl

theorem Graph.Keeps.trans {g h k : Graph} (hgh : g.Keeps h) (hhk : h.Keeps k) : g.Keeps k := by
  intro t ht
  have hshape := hgh t ht
  rw [hhk t (by rw [hshape]; exact ht), hshape]

theorem Graph.Extends.keeps {g g' : Graph} (h : g.Extends g') : g.Keeps g' := fun _ ht =>
  h.shape_eq rfl ht.1

theorem Graph.Keeps.shape_eq {g g' : Graph} (h : g.Keeps g') {t : NodeId} {s : Shape}
    (ht : g.shape t = s) (hs : s.IsKnown) : g'.shape t = s := by
  subst ht
  exact h t hs

namespace Conversion

/-- The values that satisfy parts are values of the types of the parts. -/
structure Respects (lib : Library) (types : List (Reference × NodeId)) (g : Graph)
    (parts : Place → Json → Json → Prop) : Prop where
  nothing : ∀ p v, ¬ parts p (.bool false) v
  part : ∀ p S v t, p.IsPlain → lib.value? p.canonical = some S →
    types.lookup p.canonical = some t → parts p S v → g.Admits t v

/-- Every value that satisfies `P` is one of the type, in every graph that keeps the shapes of this
one and whose types have the values of the parts. -/
def Meets (lib : Library) (g : Graph) (types : List (Reference × NodeId))
    (P : (Place → Json → Json → Prop) → Json → Prop) (t : NodeId) : Prop :=
  ∀ k parts, g.Keeps k → Respects lib types k parts → ∀ v, P parts v → k.Admits t v

theorem Meets.mono {lib : Library} {g g' : Graph} {types types' : List (Reference × NodeId)}
    {P : (Place → Json → Json → Prop) → Json → Prop} {t : NodeId} (h : Meets lib g types P t)
    (hgraph : g.Keeps g') (htypes : ∀ r u, types.lookup r = some u → types'.lookup r = some u) :
    Meets lib g' types' P t := fun k parts hk hparts =>
  h k parts (hgraph.trans hk) ⟨hparts.nothing, fun p S v u hp hS hu =>
    hparts.part p S v u hp hS (htypes _ _ hu)⟩

theorem Meets.of_any {lib : Library} {g : Graph} {types : List (Reference × NodeId)} {t : NodeId}
    (h : g.shape t = .primitive .any) (P : (Place → Json → Json → Prop) → Json → Prop) :
    Meets lib g types P t := fun _ _ hk _ v _ =>
  .any (hk.shape_eq h ⟨nofun, nofun, nofun⟩) v

/-- The value satisfies the schema at the place, given which values satisfy its parts. -/
def Satisfies (lib : Library) (place : Place) (S : Json) (parts : Place → Json → Json → Prop)
    (v : Json) : Prop :=
  S = .bool true ∨ ∃ schema, S = .object schema ∧ Allows lib parts place schema v

/-- The type registered for a place has all values that are valid there. -/
def Covered (lib : Library) (g : Graph) (types : List (Reference × NodeId)) (r : Reference)
    (t : NodeId) : Prop :=
  ∃ place S, place.canonical = r ∧ place.IsPlain ∧ lib.value? r = some S ∧
    Meets lib g types (Satisfies lib place S) t

theorem Covered.mono {lib : Library} {g g' : Graph} {types types' : List (Reference × NodeId)}
    {r : Reference} {t : NodeId} (h : Covered lib g types r t) (hgraph : g.Keeps g')
    (htypes : ∀ r u, types.lookup r = some u → types'.lookup r = some u) :
    Covered lib g' types' r t := by
  obtain ⟨place, S, hplace, hplain, hvalue, hmeets⟩ := h
  exact ⟨place, S, hplace, hplain, hvalue, hmeets.mono hgraph htypes⟩

/-! ### States one after the other -/

/-- The graph grew, and places that had no type were registered and noted in the journal. -/
structure Grows (s s' : Conversion) : Prop where
  graph : s.graph.Extends s'.graph
  types : ∃ new : List (Reference × NodeId), s'.types = new ++ s.types ∧
    s'.journal = new.map Prod.fst ++ s.journal ∧ ∀ e ∈ new, s.types.lookup e.1 = none

theorem Grows.of_graph {s : Conversion} {g : Graph} (h : s.graph.Extends g) (library : Library) :
    Grows s { s with library, graph := g } :=
  ⟨h, [], rfl, rfl, nofun⟩

theorem Grows.refl (s : Conversion) : Grows s s := .of_graph (.refl _) s.library

theorem Grows.lookup {s s' : Conversion} (h : Grows s s') {r : Reference} {t : NodeId}
    (hr : s.types.lookup r = some t) : s'.types.lookup r = some t := by
  obtain ⟨new, htypes, -, hnew⟩ := h.types
  have hnone : new.lookup r = none := by
    cases hlookup : new.lookup r with
    | none => rfl
    | some u =>
      have hfresh := hnew _ (mem_of_lookup hlookup)
      rw [hr] at hfresh
      cases hfresh
  rw [htypes, List.lookup_append, hnone, Option.none_or, hr]

theorem Grows.trans {s s₁ s' : Conversion} (h : Grows s s₁) (h' : Grows s₁ s') : Grows s s' := by
  obtain ⟨new, htypes, hjournal, hnew⟩ := h.types
  obtain ⟨new', htypes', hjournal', hnew'⟩ := h'.types
  refine ⟨h.graph.trans h'.graph, new' ++ new, ?_, ?_, fun e he => ?_⟩
  · rw [htypes', htypes, List.append_assoc]
  · rw [hjournal', hjournal, List.map_append, List.append_assoc]
  · rcases List.mem_append.1 he with he | he
    · cases hlookup : s.types.lookup e.1 with
      | none => rfl
      | some u =>
        have hfresh := hnew' e he
        rw [h.lookup hlookup] at hfresh
        cases hfresh
    · exact hnew e he

theorem Grows.register {s : Conversion} {g : Graph} (hg : s.graph.Extends g) {r : Reference}
    (hnone : s.types.lookup r = none) (t : NodeId) :
    Grows s { s with graph := g, types := (r, t) :: s.types, journal := r :: s.journal } := by
  refine ⟨hg, [(r, t)], rfl, rfl, fun e he => ?_⟩
  obtain rfl := List.mem_singleton.1 he
  exact hnone

/-- The second state is the first one after some steps: the library was used, the graph grew, and
places that had no type were registered. -/
structure Advances (lib : Library) (s s' : Conversion) : Prop where
  library : lib.Continues s'.library
  uses : s.library.Uses s'.library
  graph : s.graph.Extends s'.graph
  types : ∃ new : List (Reference × NodeId), s'.types = new ++ s.types ∧
    s'.journal = new.map Prod.fst ++ s.journal ∧ ∀ e ∈ new, s.types.lookup e.1 = none

variable {lib : Library} {s s₁ s' : Conversion}

theorem Advances.grows (h : Advances lib s s') : Grows s s' := ⟨h.graph, h.types⟩

theorem Advances.refl (h : lib.Continues s.library) : Advances lib s s :=
  ⟨h, .refl, .refl _, [], rfl, rfl, nofun⟩

theorem Advances.lookup (h : Advances lib s s') {r : Reference} {t : NodeId}
    (hr : s.types.lookup r = some t) : s'.types.lookup r = some t :=
  h.grows.lookup hr

theorem Advances.trans (h : Advances lib s s₁) (h' : Advances lib s₁ s') : Advances lib s s' :=
  have hgrows := h.grows.trans h'.grows
  ⟨h'.library, h.uses.trans h'.uses, hgrows.graph, hgrows.types⟩

theorem Advances.meets (h : Advances lib s s') {P : (Place → Json → Json → Prop) → Json → Prop}
    {t : NodeId} (ht : Meets lib s.graph s.types P t) : Meets lib s'.graph s'.types P t :=
  ht.mono h.graph.keeps fun _ _ => h.lookup

theorem Advances.unregistered_le (h : Advances lib s s') (top : List Step) :
    lib.unregistered top s'.types ≤ lib.unregistered top s.types := by
  obtain ⟨new, htypes, -⟩ := h.types
  rw [htypes]
  exact lib.unregistered_append_le top new s.types

theorem Advances.register (hs : lib.Continues s.library) {g : Graph} (hg : s.graph.Extends g)
    {r : Reference} (hnone : s.types.lookup r = none) (t : NodeId) :
    Advances lib s { s with
      graph := g, types := (r, t) :: s.types, journal := r :: s.journal } :=
  ⟨hs, .refl, hg, (Grows.register hg hnone t).types⟩

theorem eq_or_lookup_of_registered {types : List (Reference × NodeId)} {r r' : Reference}
    {t u : NodeId} (h : ((r, t) :: types).lookup r' = some u) :
    r' = r ∧ u = t ∨ types.lookup r' = some u := by
  rw [SortedMap.lookup_cons_eq] at h
  split at h
  · next hr => exact .inl ⟨hr, (Option.some.inj h).symm⟩
  · exact .inr h

/-- Without ids, every type that was registered in between has all values that are valid. -/
def Completes (lib : Library) (s s' : Conversion) : Prop :=
  lib.IdFree → ∀ r t, s'.types.lookup r = some t →
    s.types.lookup r = some t ∨ Covered lib s'.graph s'.types r t

theorem Completes.refl (s : Conversion) : Completes lib s s := fun _ _ _ h => .inl h

theorem Completes.trans (h : Completes lib s s₁) (h' : Completes lib s₁ s')
    (hadvances : Advances lib s₁ s') : Completes lib s s' := by
  intro hfree r t ht
  rcases h' hfree r t ht with ht | hcovered
  · rcases h hfree r t ht with ht | hcovered
    · exact .inl ht
    · exact .inr (hcovered.mono hadvances.graph.keeps fun _ _ => hadvances.lookup)
  · exact .inr hcovered

/-- The annotators find something for a union and its cases only when there are cases, and then for
every case. -/
def Proper (annotators : List Annotator) : Prop :=
  ∀ annotator ∈ annotators, ∀ schema place types cases n,
    annotator schema place types cases = some n →
      (cases = none → n.forUnion = none ∧ n.forCases = none) ∧
        ∀ found, n.forCases = some found → ∃ list, cases = some list ∧ found.length = list.length

theorem proper_builtin : Proper Annotator.builtin := by
  intro annotator hannotator schema place types cases n hn
  have hnone : ∀ (m : Annotation), m.forUnion = none → m.forCases = none → m = n →
      (cases = none → n.forUnion = none ∧ n.forCases = none) ∧
        ∀ found, n.forCases = some found →
          ∃ list, cases = some list ∧ found.length = list.length := by
    rintro m hunion hcases rfl
    refine ⟨fun _ => ⟨hunion, hcases⟩, fun found hfound => ?_⟩
    rw [hcases] at hfound
    cases hfound
  simp only [Annotator.builtin, List.mem_cons, List.not_mem_nil, or_false] at hannotator
  rcases hannotator with rfl | rfl | rfl
  · simp only [Annotator.descriptions] at hn
    split at hn
    · cases hn
    · obtain rfl := Option.some.inj hn
      cases cases with
      | none => exact hnone _ rfl rfl rfl
      | some list =>
        refine ⟨nofun, fun found hfound => ⟨list, rfl, ?_⟩⟩
        simp only [Option.bind_some] at hfound
        split at hfound
        · cases hfound
        · obtain rfl := Option.some.inj hfound
          exact List.length_map _
  · simp only [Annotator.numberBounds] at hn
    split at hn
    · split at hn
      · cases hn
      · exact hnone _ rfl rfl (Option.some.inj hn)
    · cases hn
  · simp only [Annotator.stringLimits] at hn
    split at hn
    · rw [Option.ite_none_left_eq_some] at hn
      exact hnone _ rfl rfl (Option.some.inj hn.2)
    · cases hn

/-- What is wrong is the schema or the documents, or else the annotators. -/
def Fair (annotators : List Annotator) (e : Halt) : Prop :=
  (∃ error, e = .schema error) ∨ ¬ Proper annotators ∧ ∃ cause, e = .misuse cause

/-! ### Steps of a conversion -/

variable {annotators : List Annotator} {bounded : Prop} {α β : Type}

/-- A run of the step from the state advances it. When it ends well, `Q` holds in the end and every
place that was registered has a type with all valid values. When it fails in spite of the bound on
the depth, the reason is a fair one. -/
def Walks (lib : Library) (annotators : List Annotator) (bounded : Prop) (s : Conversion)
    (m : ConvertM α) (Q : α → Conversion → Prop) : Prop :=
  match outcome m s with
  | (.ok a, s') => Advances lib s s' ∧ Completes lib s s' ∧ Q a s'
  | (.error e, s') => Advances lib s s' ∧ (bounded → Fair annotators e)

theorem Walks.of_ok {m : ConvertM α} {Q : α → Conversion → Prop} {a : α}
    (h : outcome m s = (.ok a, s')) (hadvances : Advances lib s s')
    (hcompletes : Completes lib s s') (hQ : Q a s') : Walks lib annotators bounded s m Q := by
  unfold Walks
  rw [h]
  exact ⟨hadvances, hcompletes, hQ⟩

theorem Walks.of_error {m : ConvertM α} {Q : α → Conversion → Prop} {e : Halt}
    (h : outcome m s = (.error e, s')) (hadvances : Advances lib s s')
    (hfair : bounded → Fair annotators e) : Walks lib annotators bounded s m Q := by
  unfold Walks
  rw [h]
  exact ⟨hadvances, hfair⟩

theorem Walks.ok {m : ConvertM α} {Q : α → Conversion → Prop}
    (h : Walks lib annotators bounded s m Q) {a : α} (hrun : outcome m s = (.ok a, s')) :
    Advances lib s s' ∧ Completes lib s s' ∧ Q a s' := by
  unfold Walks at h
  rw [hrun] at h
  exact h

theorem Walks.error {m : ConvertM α} {Q : α → Conversion → Prop}
    (h : Walks lib annotators bounded s m Q) {e : Halt} (hrun : outcome m s = (.error e, s')) :
    Advances lib s s' ∧ (bounded → Fair annotators e) := by
  unfold Walks at h
  rw [hrun] at h
  exact h

theorem Walks.pure {Q : α → Conversion → Prop} {a : α} (hs : lib.Continues s.library)
    (h : Q a s) : Walks lib annotators bounded s (pure a) Q :=
  .of_ok rfl (.refl hs) (.refl s) h

theorem Walks.throw {Q : α → Conversion → Prop} {e : Halt} (hs : lib.Continues s.library)
    (h : bounded → Fair annotators e) : Walks lib annotators bounded s (throw e) Q :=
  .of_error rfl (.refl hs) h

theorem Walks.refuse {Q : α → Conversion → Prop} (hs : lib.Continues s.library)
    (error : SchemaError) : Walks lib annotators bounded s (refuse error : ConvertM α) Q :=
  .throw hs fun _ => .inl ⟨error, rfl⟩

theorem Walks.orRefuse {r : Except SchemaError α} (hs : lib.Continues s.library) :
    Walks lib annotators bounded s (orRefuse r) fun a s' => r = .ok a ∧ s' = s := by
  cases r with
  | ok a => exact .pure hs ⟨rfl, rfl⟩
  | error e => exact .refuse hs e

theorem Walks.bind {m : ConvertM α} {f : α → ConvertM β} {P : α → Conversion → Prop}
    {Q : β → Conversion → Prop} (hm : Walks lib annotators bounded s m P)
    (hf : ∀ a s', Advances lib s s' → P a s' → Walks lib annotators bounded s' (f a) Q) :
    Walks lib annotators bounded s (m >>= f) Q := by
  unfold Walks at hm
  cases hrun : outcome m s with
  | mk result s₁ =>
    rw [hrun] at hm
    cases result with
    | error e =>
      obtain ⟨hadvances, hfair⟩ := hm
      exact .of_error (by rw [outcome_bind, hrun]) hadvances hfair
    | ok a =>
      obtain ⟨hadvances, hcompletes, hP⟩ := hm
      have hrest := hf a s₁ hadvances hP
      unfold Walks at hrest
      cases hrun' : outcome (f a) s₁ with
      | mk result' s₂ =>
        rw [hrun'] at hrest
        have hboth : outcome (m >>= f) s = (result', s₂) := by
          rw [outcome_bind_of_ok hrun, hrun']
        cases result' with
        | error e => exact .of_error hboth (hadvances.trans hrest.1) hrest.2
        | ok b =>
          obtain ⟨hadvances', hcompletes', hQ⟩ := hrest
          exact .of_ok hboth (hadvances.trans hadvances')
            (hcompletes.trans hcompletes' hadvances') hQ

theorem Walks.imp {m : ConvertM α} {P Q : α → Conversion → Prop}
    (h : Walks lib annotators bounded s m P)
    (hPQ : ∀ a s', Advances lib s s' → P a s' → Q a s') : Walks lib annotators bounded s m Q := by
  unfold Walks at h ⊢
  split
  · next hrun =>
    rw [hrun] at h
    exact ⟨h.1, h.2.1, hPQ _ _ h.1 h.2.2⟩
  · next hrun =>
    rw [hrun] at h
    exact h

theorem Walks.of_bounded {b : Prop} {m : ConvertM α} {Q : α → Conversion → Prop}
    (h : Walks lib annotators b s m Q) (hb : bounded → b) : Walks lib annotators bounded s m Q := by
  unfold Walks at h ⊢
  split
  · next hrun =>
    rw [hrun] at h
    exact h
  · next hrun =>
    rw [hrun] at h
    exact ⟨h.1, fun hbounded => h.2 (hb hbounded)⟩

theorem Walks.map {m : ConvertM α} {f : α → β} {Q : β → Conversion → Prop}
    (h : Walks lib annotators bounded s m fun a s' => Q (f a) s') :
    Walks lib annotators bounded s (f <$> m) Q := by
  rw [← bind_pure_comp]
  exact h.bind fun a s' hadvances hQ => .pure hadvances.library hQ

/-- Steps for the elements of a list, each of which may count on what was reached for those before
it. -/
theorem Walks.mapM_inOrder {f : α → ConvertM β} {R : α → β → Conversion → Prop} {l : List α}
    (hR : ∀ a b s₁ s₂, Advances lib s₁ s₂ → R a b s₁ → R a b s₂)
    (hs : lib.Continues s.library) (done : List α)
    (hdone : ∀ a ∈ done, ∃ b, R a b s)
    (h : ∀ before a rest s', done ++ l = before ++ a :: rest → Advances lib s s' →
      (∀ a ∈ before, ∃ b, R a b s') → Walks lib annotators bounded s' (f a) (R a)) :
    Walks lib annotators bounded s (l.mapM f) fun bs s' =>
      List.Forall₂ (fun a b => R a b s') l bs := by
  -- The elements that were passed go into `done`.
  induction l generalizing s done with
  | nil =>
    rw [List.mapM_nil]
    exact .pure hs .nil
  | cons a l ih =>
    rw [List.mapM_cons]
    refine (h done a l s rfl (.refl hs) hdone).bind fun b s₁ hadvances hb => ?_
    have hdone' : ∀ c ∈ done ++ [a], ∃ d, R c d s₁ := by
      intro c hc
      rcases List.mem_append.1 hc with hc | hc
      · obtain ⟨d, hd⟩ := hdone c hc
        exact ⟨d, hR _ _ _ _ hadvances hd⟩
      · obtain rfl := List.mem_singleton.1 hc
        exact ⟨b, hb⟩
    refine (ih hadvances.library (done ++ [a]) hdone' ?_).bind fun bs s₂ hadvances' hbs => ?_
    · intro before c rest s' heq hs' hbefore
      refine h before c rest s' ?_ (hadvances.trans hs') hbefore
      rw [← heq, List.append_assoc]
      rfl
    · exact .pure hadvances'.library (.cons (hR _ _ _ _ hadvances' hb) hbs)

theorem Walks.mapM {f : α → ConvertM β} {R : α → β → Conversion → Prop} {l : List α}
    (hR : ∀ a b s₁ s₂, Advances lib s₁ s₂ → R a b s₁ → R a b s₂)
    (hs : lib.Continues s.library)
    (h : ∀ a ∈ l, ∀ s', Advances lib s s' → Walks lib annotators bounded s' (f a) (R a)) :
    Walks lib annotators bounded s (l.mapM f) fun bs s' =>
      List.Forall₂ (fun a b => R a b s') l bs := by
  refine .mapM_inOrder hR hs [] nofun fun before a rest s' heq hs' _ => h a ?_ s' hs'
  rw [List.nil_append] at heq
  rw [heq]
  exact List.mem_append_right before List.mem_cons_self

theorem Walks.forM {f : α → ConvertM PUnit} {l : List α} (hs : lib.Continues s.library)
    (h : ∀ a ∈ l, ∀ s', Advances lib s s' →
      Walks lib annotators bounded s' (f a) fun _ _ => True) :
    Walks lib annotators bounded s (l.forM f) fun _ _ => True := by
  induction l generalizing s with
  | nil => exact .pure hs trivial
  | cons a l ih =>
    change Walks lib annotators bounded s (f a >>= fun _ => l.forM f) _
    refine (h a List.mem_cons_self s (.refl hs)).bind fun _ s₁ hadvances _ => ?_
    exact ih hadvances.library fun b hb s' hs' =>
      h b (List.mem_cons_of_mem a hb) s' (hadvances.trans hs')

theorem Walks.forM_option {f : α → ConvertM PUnit} {o : Option α} (hs : lib.Continues s.library)
    (h : ∀ a, o = some a → Walks lib annotators bounded s (f a) fun _ _ => True) :
    Walks lib annotators bounded s (o.forM f) fun _ _ => True := by
  cases o with
  | none => exact .pure hs trivial
  | some a => exact h a rfl

theorem Walks.mapM_toList {f : α → ConvertM β} {o : Option α} {Q : β → Conversion → Prop}
    (hs : lib.Continues s.library)
    (h : ∀ a, o = some a → Walks lib annotators bounded s (f a) Q) :
    Walks lib annotators bounded s (o.toList.mapM f) fun bs s' => ∀ b ∈ bs, Q b s' := by
  cases o with
  | none => exact .pure hs nofun
  | some a =>
    rw [Option.toList_some, List.mapM_cons, List.mapM_nil]
    refine (h a rfl).bind fun b s' hadvances hb => .pure hadvances.library fun c hc => ?_
    obtain rfl := List.mem_singleton.1 hc
    exact hb

theorem Walks.onGraph {f : Graph → Graph × α} {Q : α → Conversion → Prop}
    (hs : lib.Continues s.library) (hf : s.graph.Extends (f s.graph).1)
    (hQ : Q (f s.graph).2 { s with graph := (f s.graph).1 }) :
    Walks lib annotators bounded s (onGraph f) Q :=
  .of_ok rfl ⟨hs, .refl, hf, [], rfl, rfl, nofun⟩ (fun _ _ _ h => .inl h) hQ

theorem outcome_tryGraph {f : Graph → Except Misuse (Graph × α)} {g : Graph} {a : α}
    (hf : f s.graph = .ok (g, a)) :
    outcome (tryGraph f) s = (.ok a, { s with graph := g }) := by
  unfold tryGraph
  rw [outcome_bind_of_ok (outcome_get s), hf]
  rfl

theorem outcome_tryGraph_of_error {f : Graph → Except Misuse (Graph × α)} {cause : Misuse}
    (hf : f s.graph = .error cause) : outcome (tryGraph f) s = (.error (.misuse cause), s) := by
  unfold tryGraph
  rw [outcome_bind_of_ok (outcome_get s), hf]
  rfl

theorem Walks.tryGraph {f : Graph → Except Misuse (Graph × α)} {Q : α → Conversion → Prop}
    (hs : lib.Continues s.library) {g : Graph} {a : α} (hf : f s.graph = .ok (g, a))
    (hg : s.graph.Extends g) (hQ : Q a { s with graph := g }) :
    Walks lib annotators bounded s (tryGraph f) Q := by
  exact .of_ok (outcome_tryGraph hf) ⟨hs, .refl, hg, [], rfl, rfl, nofun⟩
    (fun _ _ _ h => .inl h) hQ

theorem Walks.share {shape : Shape} (hs : lib.Continues s.library) (a : Attributes) :
    Walks lib annotators bounded s (Conversion.onGraph (·.share shape a)) fun t s' =>
      s'.graph.shape t = shape := by
  obtain ⟨hext, -, hshape⟩ := Graph.share_spec s.graph shape a
  exact .onGraph hs hext hshape

theorem Walks.fresh {shape : Shape} (hs : lib.Continues s.library) (a : Attributes) :
    Walks lib annotators bounded s (Conversion.onGraph (·.fresh shape a)) fun t s' =>
      s'.graph.shape t = shape := by
  obtain ⟨hext, -, -, hshape⟩ := Graph.fresh_spec s.graph shape a
  exact .onGraph hs hext hshape

theorem Walks.anyType (hs : lib.Continues s.library) :
    Walks lib annotators bounded s anyType fun t s' => s'.graph.shape t = .primitive .any :=
  .share hs .empty

/-- Giving members to a union or intersection that has none succeeds. -/
theorem exists_outcome_setMembers {t : NodeId} (members : SortedSet NodeId)
    (h : s.graph.shape t = .union none ∨ s.graph.shape t = .intersection none) :
    ∃ g, s.graph.setMembers t members = .ok g ∧
      outcome (Conversion.tryGraph fun g => (g.setMembers t members).map fun g => (g, t)) s =
        (.ok t, { s with graph := g }) := by
  obtain ⟨g, hg⟩ := Graph.exists_setMembers members h
  refine ⟨g, hg, outcome_tryGraph ?_⟩
  rw [hg]
  rfl

theorem Walks.freshUnion (hs : lib.Continues s.library) (a : Attributes)
    (members : SortedSet NodeId) :
    Walks lib annotators bounded s (do
      let t ← Conversion.onGraph (·.fresh (.union none) a)
      Conversion.tryGraph fun g => (g.setMembers t members).map fun g => (g, t))
      fun t s' => s'.graph.shape t = .union (some members) := by
  obtain ⟨hext, hnode, -, hshape⟩ := Graph.fresh_spec s.graph (.union none) a
  have hfresh : outcome (Conversion.onGraph (·.fresh (.union none) a)) s =
      (.ok s.graph.size, { s with graph := (s.graph.fresh (.union none) a).1 }) := rfl
  obtain ⟨g, hg, hset⟩ := exists_outcome_setMembers
    (s := { s with graph := (s.graph.fresh (.union none) a).1 }) members (.inl hshape)
  refine .of_ok ((outcome_bind_of_ok hfresh _).trans hset) ?_ (fun _ _ _ h => .inl h) ?_
  · exact ⟨hs, .refl, hext.setMembers (Nat.le_refl _) hg, [], rfl, rfl, nofun⟩
  · rcases (Graph.setMembers_spec hg).2.2 with ⟨-, hnew⟩ | ⟨hold, -⟩
    · exact hnew
    · cases hshape.symm.trans hold

theorem outcome_onLibrary (f : Library.LibraryM α) (s : Conversion) :
    outcome (onLibrary f) s =
      ((outcome f s.library).1, { s with library := (outcome f s.library).2 }) := by
  unfold onLibrary
  rw [outcome_bind_of_ok (outcome_get s)]
  rcases hrun : outcome f s.library with ⟨e | a, library⟩ <;>
  · rw [outcome] at hrun
    dsimp only
    rw [hrun]
    exact outcome_bind_of_ok (outcome_set s _) _

theorem Advances.resolve {base : Place} {r : Reference} {result : Except Halt Resolved}
    {library : Library} (h : lib.Continues library)
    (hrun : outcome (Library.resolve base r) s.library = (result, library)) :
    Advances lib s { s with library } := by
  refine ⟨h, ?_, .refl _, [], rfl, rfl, nofun⟩
  have huses : s.library.Uses (outcome (Library.resolve base r) s.library).2 :=
    .resolve .refl base r
  rw [hrun] at huses
  exact huses

theorem Walks.resolve {base : Place} {r : Reference} {result : Except Halt Resolved}
    {library : Library} {Q : Resolved → Conversion → Prop} (h : lib.Continues library)
    (hrun : outcome (Library.resolve base r) s.library = (result, library))
    (hok : ∀ found, result = .ok found → Q found { s with library })
    (herror : ∀ e, result = .error e → Fair annotators e) :
    Walks lib annotators bounded s (onLibrary (Library.resolve base r)) Q := by
  have hboth := outcome_onLibrary (Library.resolve base r) s
  rw [hrun] at hboth
  cases result with
  | ok found => exact .of_ok hboth (.resolve h hrun) (fun _ _ _ h => .inl h) (hok found rfl)
  | error e => exact .of_error hboth (.resolve h hrun) fun _ => herror e rfl

theorem outcome_register_of_some {place : Place} {t : NodeId}
    (h : s.types.lookup place.canonical = some t) :
    outcome (register place t) s = (.ok (), s) := by
  unfold register
  rw [outcome_bind_of_ok (outcome_get s), h]
  simp only [if_true]
  rfl

theorem outcome_register_of_ne {place : Place} {t present : NodeId}
    (h : s.types.lookup place.canonical = some present) (hne : present ≠ t) :
    outcome (register place t) s =
      (.error (.misuse (.twoTypesForPlace place.canonical.text)), s) := by
  unfold register
  rw [outcome_bind_of_ok (outcome_get s), h]
  dsimp only
  rw [if_neg hne]
  rfl

theorem outcome_register_of_none {place : Place} (t : NodeId)
    (h : s.types.lookup place.canonical = none) :
    outcome (register place t) s = (.ok (), { s with
      types := (place.canonical, t) :: s.types, journal := place.canonical :: s.journal }) := by
  unfold register
  rw [outcome_bind_of_ok (outcome_get s), h]
  rfl

end Conversion

end JsonTyping
