import JsonTyping.Proofs.ConversionRuns
import JsonTyping.Proofs.GraphSolutions
import Mathlib.Logic.Function.Basic

/-!
# Runs that solve equations

What a step of a conversion does to a graph that solves the equations of the schemas
(`Conversion.Produces`): it adds nodes and gives them names that had none, and the graph goes on to
solve the equations. A step that fails does so because an equation cannot be solved, and leaves the
graph with more nodes than before. The rules follow the steps one by one.
-/

namespace JsonTyping

namespace Library

theorem isFatal_searchWithoutIds {start : Library} {store : Store}
    (hstore : start.store = some store) {fetchBase lookupBase : Place} {r : Reference}
    {error : SchemaError}
    (h : searchWithoutIds start fetchBase lookupBase r = .error (.schema error)) :
    error.isFatal = false := by
  unfold searchWithoutIds at h
  split at h
  · cases h
    rfl
  · split at h
    · next e hfetched =>
      unfold fetched at hfetched
      rw [hstore] at hfetched
      split at hfetched <;> cases hfetched
    · cases h
    · dsimp only at h
      split at h
      · cases h
      · next e hvalue =>
        cases h
        unfold valueAt at hvalue
        split at hvalue
        · cases hvalue
        · next cause _ =>
          cases cause with
          | syntheticStep => cases hvalue
          | _ =>
            cases hvalue
            rfl

/-- With a store at hand, no reference that is not found stops a batch. -/
theorem isFatal_resolve {start lib : Library} (hmemory : start.InMemory) (hfree : start.IdFree)
    (h : Continues start lib) {store : Store} (hstore : start.store = some store) {base : Place}
    {r : Reference} {error : SchemaError}
    (herror : (outcome (resolve base r) lib).1 = .error (.schema error)) :
    error.isFatal = false := by
  obtain ⟨lib₁, hrun, h₁⟩ := h.search_of_idFree hmemory hfree base base r
  unfold Library.resolve at herror
  rw [outcome_bind, hrun] at herror
  cases hfirst : searchWithoutIds start base base r with
  | error e =>
    rw [hfirst] at herror
    obtain rfl : e = .schema error := Except.error.inj herror
    exact isFatal_searchWithoutIds hstore hfirst
  | ok found =>
    rw [hfirst] at herror
    cases found with
    | some found => cases herror
    | none =>
      obtain ⟨lib₂, hrun', -⟩ := h₁.search_of_idFree hmemory hfree (alternateBase base) base r
      dsimp only at herror
      rw [outcome_bind, hrun'] at herror
      cases hsecond : searchWithoutIds start (alternateBase base) base r with
      | error e =>
        rw [hsecond] at herror
        obtain rfl : e = .schema error := Except.error.inj herror
        exact isFatal_searchWithoutIds hstore hsecond
      | ok found =>
        rw [hsecond] at herror
        cases found with
        | some found => cases herror
        | none =>
          cases herror
          rfl

end Library

namespace Conversion

variable {lib : Library} {annotators : List Annotator} {unfinished : List Reference}
  {g g' : Graph} {types : List (Reference × NodeId)} {made : Made}

theorem refines_develops (h : g.Develops g') (made : Made) : Refines g made g' made :=
  ⟨h.keepsShared, fun _ _ ht => ht⟩

theorem Solves.keepsShared (h : Solves lib annotators unfinished g types made)
    (hg : g.KeepsShared g') (hshape : ∀ t < g.size, g'.shape t = g.shape t) :
    Solves lib annotators unfinished g' types made where
  ownNodes := by
    refine ⟨h.ownNodes.injective, fun name t ht => ?_⟩
    obtain ⟨hlt, hshared⟩ := h.ownNodes.notShared name t ht
    exact ⟨Nat.lt_of_lt_of_le hlt hg.size, (hg.isShared t hlt).trans hshared⟩
  registered := h.registered
  types r t ht := (h.types r t ht).mono ⟨hg, fun _ _ hu => hu⟩
  bodies name t ht := by
    refine (h.bodies name t ht).imp id ?_
    rintro ⟨b, hb, hfits⟩
    rw [hshape t (h.ownNodes.notShared name t ht).1]
    exact ⟨b, hb, hfits.mono ⟨hg, fun _ _ hu => hu⟩⟩

theorem Solves.develops (h : Solves lib annotators unfinished g types made)
    (hg : g.Develops g') : Solves lib annotators unfinished g' types made :=
  h.keepsShared hg.keepsShared hg.shape

/-- The names with the node of one more. -/
def withNode (made : Made) (name : TypeName) (t : NodeId) : Made :=
  Function.update made name (some t)

theorem withNode_self (made : Made) (name : TypeName) (t : NodeId) :
    withNode made name t name = some t :=
  Function.update_self ..

theorem withNode_eq_some {name name' : TypeName} {t u : NodeId}
    (h : withNode made name t name' = some u) :
    name' = name ∧ u = t ∨ name' ≠ name ∧ made name' = some u := by
  unfold withNode at h
  by_cases hname : name' = name
  · subst hname
    rw [Function.update_self] at h
    exact .inl ⟨rfl, (Option.some.inj h).symm⟩
  · rw [Function.update_of_ne hname] at h
    exact .inr ⟨hname, h⟩

theorem withNode_of_made {name : TypeName} (hnone : made name = none) (t : NodeId)
    (name' : TypeName) (u : NodeId) (h : made name' = some u) :
    withNode made name t name' = some u := by
  have hne : name' ≠ name := by
    rintro rfl
    rw [hnone] at h
    cases h
  unfold withNode
  rwa [Function.update_of_ne hne]

theorem refines_withNode (h : g.KeepsShared g') {name : TypeName} (hnone : made name = none)
    (t : NodeId) : Refines g made g' (withNode made name t) :=
  ⟨h, withNode_of_made hnone t⟩

theorem ownNodes_withNode (h : OwnNodes g made) (hg : g.Develops g') {t : NodeId}
    (hold : g.size ≤ t) (hnew : t < g'.size) (hshared : g'.isShared t = false)
    (name : TypeName) : OwnNodes g' (withNode made name t) where
  injective name₁ name₂ u h₁ h₂ := by
    have hlt : ∀ {name' : TypeName}, made name' = some t → False := fun hmade =>
      Nat.lt_irrefl t (Nat.lt_of_lt_of_le (h.notShared _ t hmade).1 hold)
    rcases withNode_eq_some h₁ with ⟨rfl, rfl⟩ | ⟨-, hmade₁⟩
    · rcases withNode_eq_some h₂ with ⟨rfl, -⟩ | ⟨-, hmade₂⟩
      · rfl
      · exact (hlt hmade₂).elim
    · rcases withNode_eq_some h₂ with ⟨rfl, rfl⟩ | ⟨-, hmade₂⟩
      · exact (hlt hmade₁).elim
      · exact h.injective name₁ name₂ u hmade₁ hmade₂
  notShared name' u hu := by
    rcases withNode_eq_some hu with ⟨rfl, rfl⟩ | ⟨-, hmade⟩
    · exact ⟨hnew, hshared⟩
    · obtain ⟨hlt, hold'⟩ := h.notShared name' u hmade
      exact ⟨Nat.lt_of_lt_of_le hlt hg.size, (hg.isShared u hlt).trans hold'⟩

/-- A new node with a shape that fits the body of a name can be given to that name. -/
theorem Solves.addNode (h : Solves lib annotators unfinished g types made) (hg : g.Develops g')
    {t : NodeId} (hold : g.size ≤ t) (hnew : t < g'.size) (hshared : g'.isShared t = false)
    {name : TypeName} (hnone : made name = none)
    (hregistered : ∃ u, types.lookup name.place = some u) {b : TypeBody}
    (hb : body lib annotators name = some b) (hfits : b.Fits g' made (g'.shape t)) :
    Solves lib annotators unfinished g' types (withNode made name t) where
  ownNodes := ownNodes_withNode h.ownNodes hg hold hnew hshared name
  registered name' u hu := by
    rcases withNode_eq_some hu with ⟨rfl, -⟩ | ⟨-, hmade⟩
    · exact hregistered
    · exact h.registered name' u hmade
  types r u hu := (h.types r u hu).mono (refines_withNode hg.keepsShared hnone t)
  bodies name' u hu := by
    rcases withNode_eq_some hu with ⟨rfl, rfl⟩ | ⟨-, hmade⟩
    · exact .inr ⟨b, hb, hfits.mono (refines_withNode (.refl g') hnone u)⟩
    · refine (h.bodies name' u hmade).imp id ?_
      rintro ⟨b', hb', hfits'⟩
      rw [hg.shape u (h.ownNodes.notShared name' u hmade).1]
      exact ⟨b', hb', hfits'.mono (refines_withNode hg.keepsShared hnone t)⟩

/-! ### States one after the other -/

/-- The state of a conversion whose graph solves the equations. -/
structure Solved (lib : Library) (annotators : List Annotator) (unfinished : List Reference)
    (s : Conversion) (made : Made) : Prop where
  library : lib.Continues s.library
  solves : Solves lib annotators unfinished s.graph s.types made

/-- The second state has more nodes, types and names. The new names are among `mine` or are those of
places that had no type. -/
structure Adds (mine : List TypeName) (s : Conversion) (made : Made) (s' : Conversion)
    (made' : Made) : Prop where
  graph : s.graph.Develops s'.graph
  kept : ∀ name t, made name = some t → made' name = some t
  types : ∀ r t, s.types.lookup r = some t → s'.types.lookup r = some t
  names : ∀ name t, made' name = some t →
    made name = some t ∨ name ∈ mine ∨ s.types.lookup name.place = none

variable {mine mine' : List TypeName} {s s' s'' : Conversion} {made' made'' : Made}

theorem Adds.of_develops (hg : s.graph.Develops g') (made : Made) :
    Adds mine s made { s with graph := g' } made :=
  ⟨hg, fun _ _ ht => ht, fun _ _ ht => ht, fun _ _ ht => .inl ht⟩

theorem Adds.refl (s : Conversion) (made : Made) : Adds mine s made s made :=
  .of_develops (.refl s.graph) made

theorem Adds.trans (h : Adds mine s made s' made') (h' : Adds mine s' made' s'' made'') :
    Adds mine s made s'' made'' where
  graph := h.graph.trans h'.graph
  kept name t ht := h'.kept name t (h.kept name t ht)
  types r t ht := h'.types r t (h.types r t ht)
  names name t ht := by
    rcases h'.names name t ht with ht | hmine | hnone
    · exact h.names name t ht
    · exact .inr (.inl hmine)
    · refine .inr (.inr ?_)
      cases hlookup : s.types.lookup name.place with
      | none => rfl
      | some u =>
        rw [h.types _ u hlookup] at hnone
        cases hnone

theorem Adds.weaken (h : Adds mine s made s' made') (hmine : ∀ name ∈ mine, name ∈ mine') :
    Adds mine' s made s' made' :=
  ⟨h.graph, h.kept, h.types, fun name t ht => (h.names name t ht).imp id (.imp (hmine name) id)⟩

theorem Adds.refines (h : Adds mine s made s' made') : Refines s.graph made s'.graph made' :=
  ⟨h.graph.keepsShared, h.kept⟩

theorem Solved.develops (h : Solved lib annotators unfinished s made)
    (hg : s.graph.Develops g') :
    Solved lib annotators unfinished { s with graph := g' } made :=
  ⟨h.library, h.solves.develops hg⟩

/-- The place is registered, and these roles of it have no nodes yet. -/
structure Vacant (s : Conversion) (made : Made) (r : Reference) (roles : List Role) : Prop where
  registered : ∃ t, s.types.lookup r = some t
  unmade : ∀ role ∈ roles, made ⟨r, role⟩ = none

theorem Vacant.adds {r : Reference} {roles : List Role} (h : Vacant s made r roles)
    (hadds : Adds mine s made s' made') (hmine : ∀ role ∈ roles, ⟨r, role⟩ ∉ mine) :
    Vacant s' made' r roles where
  registered := by
    obtain ⟨t, ht⟩ := h.registered
    exact ⟨t, hadds.types r t ht⟩
  unmade role hrole := by
    cases hmade : made' ⟨r, role⟩ with
    | none => rfl
    | some u =>
      rcases hadds.names _ u hmade with hold | hmem | hnone
      · rw [h.unmade role hrole] at hold
        cases hold
      · exact absurd hmem (hmine role hrole)
      · obtain ⟨t, ht⟩ := h.registered
        rw [ht] at hnone
        cases hnone

/-- Steps that make no nodes for this place leave its roles vacant. -/
theorem Vacant.elsewhere {r : Reference} {roles : List Role} (h : Vacant s made r roles)
    (hadds : Adds [] s made s' made') : Vacant s' made' r roles :=
  h.adds hadds fun _ _ => List.not_mem_nil

theorem Vacant.weaken {r : Reference} {roles roles' : List Role} (h : Vacant s made r roles)
    (hroles : ∀ role ∈ roles', role ∈ roles) : Vacant s made r roles' :=
  ⟨h.registered, fun role hrole => h.unmade role (hroles role hrole)⟩

/-! ### Steps -/

variable {α β : Type} {fails fails' : Prop}

/-- A run of the step from the state keeps a solution of the equations. When it ends well, `Q` holds
in the end. When it fails for what is wrong with the schemas, that stops no batch and `fails`
holds. -/
def Produces (lib : Library) (annotators : List Annotator) (unfinished : List Reference)
    (mine : List TypeName) (s : Conversion) (made : Made) (m : ConvertM α)
    (Q : α → Conversion → Made → Prop) (fails : Prop) : Prop :=
  match outcome m s with
  | (.ok a, s') => ∃ made', Adds mine s made s' made' ∧
      Solved lib annotators unfinished s' made' ∧ Q a s' made'
  | (.error e, s') => s.graph.Develops s'.graph ∧
      ∀ error, e = .schema error → error.isFatal = false ∧ fails

theorem Produces.of_ok {m : ConvertM α} {Q : α → Conversion → Made → Prop} {a : α}
    (h : outcome m s = (.ok a, s')) (hadds : Adds mine s made s' made')
    (hs' : Solved lib annotators unfinished s' made') (hQ : Q a s' made') :
    Produces lib annotators unfinished mine s made m Q fails := by
  unfold Produces
  rw [h]
  exact ⟨made', hadds, hs', hQ⟩

theorem Produces.of_error {m : ConvertM α} {Q : α → Conversion → Made → Prop} {e : Halt}
    (h : outcome m s = (.error e, s')) (hgraph : s.graph.Develops s'.graph)
    (hfails : ∀ error, e = .schema error → error.isFatal = false ∧ fails) :
    Produces lib annotators unfinished mine s made m Q fails := by
  unfold Produces
  rw [h]
  exact ⟨hgraph, hfails⟩

theorem Produces.ok {m : ConvertM α} {Q : α → Conversion → Made → Prop}
    (h : Produces lib annotators unfinished mine s made m Q fails) {a : α}
    (hrun : outcome m s = (.ok a, s')) :
    ∃ made', Adds mine s made s' made' ∧ Solved lib annotators unfinished s' made' ∧
      Q a s' made' := by
  unfold Produces at h
  rw [hrun] at h
  exact h

theorem Produces.error {m : ConvertM α} {Q : α → Conversion → Made → Prop}
    (h : Produces lib annotators unfinished mine s made m Q fails) {e : Halt}
    (hrun : outcome m s = (.error e, s')) :
    s.graph.Develops s'.graph ∧ ∀ error, e = .schema error → error.isFatal = false ∧ fails := by
  unfold Produces at h
  rw [hrun] at h
  exact h

theorem Produces.pure {Q : α → Conversion → Made → Prop} {a : α}
    (hs : Solved lib annotators unfinished s made) (h : Q a s made) :
    Produces lib annotators unfinished mine s made (pure a) Q fails :=
  .of_ok rfl (.refl s made) hs h

theorem Produces.misuse {Q : α → Conversion → Made → Prop} (cause : Misuse) :
    Produces lib annotators unfinished mine s made (throw (.misuse cause)) Q fails :=
  .of_error rfl (.refl s.graph) fun _ h => by cases h

theorem Produces.refuse {Q : α → Conversion → Made → Prop} {error : SchemaError}
    (hfatal : error.isFatal = false) (hfails : fails) :
    Produces lib annotators unfinished mine s made (refuse error : ConvertM α) Q fails := by
  refine .of_error rfl (.refl s.graph) fun error' h => ?_
  obtain rfl : error = error' := by simpa only [Halt.schema.injEq] using h
  exact ⟨hfatal, hfails⟩

theorem Produces.orRefuse {r : Except SchemaError α}
    (hs : Solved lib annotators unfinished s made)
    (herror : ∀ error, r = .error error → error.isFatal = false ∧ fails) :
    Produces lib annotators unfinished mine s made (orRefuse r)
      (fun a s' made' => r = .ok a ∧ s' = s ∧ made' = made) fails := by
  cases r with
  | ok a => exact .pure hs ⟨rfl, rfl, rfl⟩
  | error error =>
    obtain ⟨hfatal, hfails⟩ := herror error rfl
    exact .refuse hfatal hfails

/-- The second step may count on what the first one adds, with names of its own. -/
theorem Produces.bindWith {m : ConvertM α} {f : α → ConvertM β} {P : α → Conversion → Made → Prop}
    {Q : β → Conversion → Made → Prop} (hmine : ∀ name ∈ mine', name ∈ mine)
    (hm : Produces lib annotators unfinished mine' s made m P fails)
    (hf : ∀ a s' made', Adds mine' s made s' made' → Solved lib annotators unfinished s' made' →
      P a s' made' → Produces lib annotators unfinished mine s' made' (f a) Q fails) :
    Produces lib annotators unfinished mine s made (m >>= f) Q fails := by
  cases hrun : outcome m s with
  | mk result s₁ =>
    cases result with
    | error e =>
      obtain ⟨hgraph, hfails⟩ := hm.error hrun
      exact .of_error (by rw [outcome_bind, hrun]) hgraph hfails
    | ok a =>
      obtain ⟨made₁, hadds, hs₁, hP⟩ := hm.ok hrun
      have hrest := hf a s₁ made₁ hadds hs₁ hP
      cases hrun' : outcome (f a) s₁ with
      | mk result' s₂ =>
        have hboth : outcome (m >>= f) s = (result', s₂) := by
          rw [outcome_bind_of_ok hrun, hrun']
        cases result' with
        | error e =>
          obtain ⟨hgraph, hfails⟩ := hrest.error hrun'
          exact .of_error hboth (hadds.graph.trans hgraph) hfails
        | ok b =>
          obtain ⟨made₂, hadds', hs₂, hQ⟩ := hrest.ok hrun'
          exact .of_ok hboth ((hadds.weaken hmine).trans hadds') hs₂ hQ

theorem Produces.bind {m : ConvertM α} {f : α → ConvertM β} {P : α → Conversion → Made → Prop}
    {Q : β → Conversion → Made → Prop}
    (hm : Produces lib annotators unfinished mine s made m P fails)
    (hf : ∀ a s' made', Adds mine s made s' made' → Solved lib annotators unfinished s' made' →
      P a s' made' → Produces lib annotators unfinished mine s' made' (f a) Q fails) :
    Produces lib annotators unfinished mine s made (m >>= f) Q fails :=
  .bindWith (fun _ hname => hname) hm hf

/-- The first step makes no nodes for names of this place. -/
theorem Produces.bindElsewhere {m : ConvertM α} {f : α → ConvertM β}
    {P : α → Conversion → Made → Prop} {Q : β → Conversion → Made → Prop}
    (hm : Produces lib annotators unfinished [] s made m P fails)
    (hf : ∀ a s' made', Adds [] s made s' made' → Solved lib annotators unfinished s' made' →
      P a s' made' → Produces lib annotators unfinished mine s' made' (f a) Q fails) :
    Produces lib annotators unfinished mine s made (m >>= f) Q fails :=
  .bindWith (fun _ hname => absurd hname List.not_mem_nil) hm hf

theorem Produces.imp {m : ConvertM α} {P Q : α → Conversion → Made → Prop}
    (h : Produces lib annotators unfinished mine s made m P fails)
    (hPQ : ∀ a s' made', Adds mine s made s' made' → Solved lib annotators unfinished s' made' →
      P a s' made' → Q a s' made') :
    Produces lib annotators unfinished mine s made m Q fails := by
  cases hrun : outcome m s with
  | mk result s₁ =>
    cases result with
    | error e =>
      obtain ⟨hgraph, hfails⟩ := h.error hrun
      exact .of_error hrun hgraph hfails
    | ok a =>
      obtain ⟨made₁, hadds, hs₁, hP⟩ := h.ok hrun
      exact .of_ok hrun hadds hs₁ (hPQ a s₁ made₁ hadds hs₁ hP)

theorem Produces.weaken {m : ConvertM α} {Q : α → Conversion → Made → Prop}
    (h : Produces lib annotators unfinished mine s made m Q fails)
    (hmine : ∀ name ∈ mine, name ∈ mine') (hfails : fails → fails') :
    Produces lib annotators unfinished mine' s made m Q fails' := by
  cases hrun : outcome m s with
  | mk result s₁ =>
    cases result with
    | error e =>
      obtain ⟨hgraph, herror⟩ := h.error hrun
      exact .of_error hrun hgraph fun error he => (herror error he).imp id hfails
    | ok a =>
      obtain ⟨made₁, hadds, hs₁, hQ⟩ := h.ok hrun
      exact .of_ok hrun (hadds.weaken hmine) hs₁ hQ

theorem Produces.map {m : ConvertM α} {f : α → β} {Q : β → Conversion → Made → Prop}
    (h : Produces lib annotators unfinished mine s made m (fun a s' made' => Q (f a) s' made')
      fails) : Produces lib annotators unfinished mine s made (f <$> m) Q fails := by
  rw [← bind_pure_comp]
  exact h.bind fun a s' made' _ hs' hQ => .pure hs' hQ

/-- Steps for the elements of a list, each of which may count on what was reached for those before
it. -/
theorem Produces.mapM_inOrder {f : α → ConvertM β} {R : α → β → Conversion → Made → Prop}
    {l : List α}
    (hR : ∀ a b s₁ made₁ s₂ made₂, Adds mine s₁ made₁ s₂ made₂ → R a b s₁ made₁ → R a b s₂ made₂)
    (hs : Solved lib annotators unfinished s made) (done : List α)
    (hdone : ∀ a ∈ done, ∃ b, R a b s made)
    (h : ∀ before a rest s' made', done ++ l = before ++ a :: rest → Adds mine s made s' made' →
      Solved lib annotators unfinished s' made' → (∀ a ∈ before, ∃ b, R a b s' made') →
        Produces lib annotators unfinished mine s' made' (f a) (R a) fails) :
    Produces lib annotators unfinished mine s made (l.mapM f)
      (fun bs s' made' => List.Forall₂ (fun a b => R a b s' made') l bs) fails := by
  -- The elements that were passed go into `done`.
  induction l generalizing s made done with
  | nil =>
    rw [List.mapM_nil]
    exact .pure hs .nil
  | cons a l ih =>
    rw [List.mapM_cons]
    refine (h done a l s made rfl (.refl s made) hs hdone).bind fun b s₁ made₁ hadds hs₁ hb => ?_
    have hdone' : ∀ c ∈ done ++ [a], ∃ d, R c d s₁ made₁ := by
      intro c hc
      rcases List.mem_append.1 hc with hc | hc
      · obtain ⟨d, hd⟩ := hdone c hc
        exact ⟨d, hR _ _ _ _ _ _ hadds hd⟩
      · obtain rfl := List.mem_singleton.1 hc
        exact ⟨b, hb⟩
    refine (ih hs₁ (done ++ [a]) hdone' ?_).bind fun bs s₂ made₂ hadds' hs₂ hbs => ?_
    · intro before c rest s' made' heq hadds' hs' hbefore
      refine h before c rest s' made' ?_ (hadds.trans hadds') hs' hbefore
      rw [← heq, List.append_assoc]
      rfl
    · exact .pure hs₂ (.cons (hR _ _ _ _ _ _ hadds' hb) hbs)

theorem Produces.mapM {f : α → ConvertM β} {R : α → β → Conversion → Made → Prop} {l : List α}
    (hR : ∀ a b s₁ made₁ s₂ made₂, Adds mine s₁ made₁ s₂ made₂ → R a b s₁ made₁ → R a b s₂ made₂)
    (hs : Solved lib annotators unfinished s made)
    (h : ∀ a ∈ l, ∀ s' made', Adds mine s made s' made' →
      Solved lib annotators unfinished s' made' →
        Produces lib annotators unfinished mine s' made' (f a) (R a) fails) :
    Produces lib annotators unfinished mine s made (l.mapM f)
      (fun bs s' made' => List.Forall₂ (fun a b => R a b s' made') l bs) fails := by
  refine .mapM_inOrder hR hs [] (fun _ hdone => absurd hdone List.not_mem_nil)
    fun before a rest s' made' heq hadds hs' _ => h a ?_ s' made' hadds hs'
  rw [List.nil_append] at heq
  rw [heq]
  exact List.mem_append_right before List.mem_cons_self

theorem Produces.forM {f : α → ConvertM PUnit} {l : List α}
    (hs : Solved lib annotators unfinished s made)
    (h : ∀ a ∈ l, ∀ s' made', Solved lib annotators unfinished s' made' →
      Produces lib annotators unfinished mine s' made' (f a) (fun _ _ _ => True) fails) :
    Produces lib annotators unfinished mine s made (l.forM f) (fun _ _ _ => True) fails := by
  induction l generalizing s made with
  | nil => exact .pure hs trivial
  | cons a l ih =>
    change Produces lib annotators unfinished mine s made (f a >>= fun _ => l.forM f) _ _
    refine (h a List.mem_cons_self s made hs).bind fun _ s₁ made₁ _ hs₁ _ => ?_
    exact ih hs₁ fun b hb s' made' hs' => h b (List.mem_cons_of_mem a hb) s' made' hs'

theorem Produces.forM_option {f : α → ConvertM PUnit} {o : Option α}
    (hs : Solved lib annotators unfinished s made)
    (h : ∀ a, o = some a →
      Produces lib annotators unfinished mine s made (f a) (fun _ _ _ => True) fails) :
    Produces lib annotators unfinished mine s made (o.forM f) (fun _ _ _ => True) fails := by
  cases o with
  | none => exact .pure hs trivial
  | some a => exact h a rfl

theorem Produces.onGraph {f : Graph → Graph × α} {Q : α → Conversion → Made → Prop}
    (hs : Solved lib annotators unfinished s made) (hf : s.graph.Develops (f s.graph).1)
    (hQ : Q (f s.graph).2 { s with graph := (f s.graph).1 } made) :
    Produces lib annotators unfinished mine s made (onGraph f) Q fails :=
  .of_ok rfl (.of_develops hf made) (hs.develops hf) hQ

theorem Produces.tryGraph {f : Graph → Except Misuse (Graph × α)}
    {Q : α → Conversion → Made → Prop} (hs : Solved lib annotators unfinished s made) {g : Graph}
    {a : α} (hf : f s.graph = .ok (g, a)) (hg : s.graph.Develops g)
    (hQ : Q a { s with graph := g } made) :
    Produces lib annotators unfinished mine s made (tryGraph f) Q fails :=
  .of_ok (outcome_tryGraph hf) (.of_develops hg made) (hs.develops hg) hQ

theorem Produces.share (hs : Solved lib annotators unfinished s made) (shape : Shape)
    (a : Attributes) :
    Produces lib annotators unfinished mine s made (Conversion.onGraph (·.share shape a))
      (fun t s' _ => s'.graph.shared? shape = some t) fails :=
  .onGraph hs (Graph.develops_share s.graph shape a) (Graph.shared?_share s.graph shape a)

theorem Produces.anyType (hs : Solved lib annotators unfinished s made) :
    Produces lib annotators unfinished mine s made anyType
      (fun t s' made' => anything.Denotes s'.graph made' t) fails :=
  .share hs (.primitive .any) .empty

/-- A new node for a name that has none. -/
theorem Produces.fresh (hs : Solved lib annotators unfinished s made) {name : TypeName}
    (hmine : name ∈ mine) (hvacant : Vacant s made name.place [name.role]) {b : TypeBody}
    (hb : body lib annotators name = some b) {shape : Shape} (hfits : b.Fits s.graph made shape)
    (a : Attributes) :
    Produces lib annotators unfinished mine s made (Conversion.onGraph (·.fresh shape a))
      (fun t _ made' => made' name = some t) fails := by
  obtain ⟨-, -, hsize, hshape⟩ := Graph.fresh_spec s.graph shape a
  have hg := Graph.develops_fresh s.graph shape a
  have hnone : made name = none := hvacant.unmade _ (List.mem_singleton_self _)
  have hlt : s.graph.size < (s.graph.fresh shape a).1.size := by
    rw [hsize]
    exact Nat.lt_succ_self _
  have hsolves := hs.solves.addNode hg (Nat.le_refl _) hlt
    (Graph.isShared_fresh s.graph shape a) hnone hvacant.registered hb
    (by rw [hshape]; exact hfits.mono (refines_develops hg made))
  refine .of_ok rfl ⟨hg, withNode_of_made hnone _,
    fun _ _ ht => ht, fun name' u hu => ?_⟩ ⟨hs.library, hsolves⟩ (withNode_self made name _)
  rcases withNode_eq_some hu with ⟨rfl, -⟩ | ⟨-, hmade⟩
  · exact .inr (.inl hmine)
  · exact .inl hmade

/-- A new union for a name that has no node. -/
theorem Produces.freshUnion (hs : Solved lib annotators unfinished s made) {name : TypeName}
    (hmine : name ∈ mine) (hvacant : Vacant s made name.place [name.role]) {b : TypeBody}
    (hb : body lib annotators name = some b) {members : SortedSet NodeId}
    (hfits : b.Fits s.graph made (.union (some members))) (a : Attributes) :
    Produces lib annotators unfinished mine s made (do
      let t ← Conversion.onGraph (·.fresh (.union none) a)
      Conversion.tryGraph fun g => (g.setMembers t members).map fun g => (g, t))
      (fun t _ made' => made' name = some t) fails := by
  obtain ⟨-, -, hsize, hshape⟩ := Graph.fresh_spec s.graph (.union none) a
  have hfresh : outcome (Conversion.onGraph (·.fresh (.union none) a)) s =
      (.ok s.graph.size, { s with graph := (s.graph.fresh (.union none) a).1 }) := rfl
  obtain ⟨g, hset, hrun⟩ := exists_outcome_setMembers
    (s := { s with graph := (s.graph.fresh (.union none) a).1 }) members (.inl hshape)
  have hg := (Graph.develops_fresh s.graph (.union none) a).setMembers (Nat.le_refl _) hset
  obtain ⟨hsize', -, hnew⟩ := Graph.setMembers_spec hset
  have hunion : g.shape s.graph.size = .union (some members) := by
    rcases hnew with ⟨-, hnew⟩ | ⟨hold, -⟩
    · exact hnew
    · cases hshape.symm.trans hold
  have hnone : made name = none := hvacant.unmade _ (List.mem_singleton_self _)
  have hshared : g.isShared s.graph.size = false := by
    rw [Graph.isShared_setMembers hset]
    exact Graph.isShared_fresh s.graph (.union none) a
  have hlt : s.graph.size < g.size := by
    rw [hsize', hsize]
    exact Nat.lt_succ_self _
  have hsolves := hs.solves.addNode hg (Nat.le_refl _) hlt hshared
    hnone hvacant.registered hb (by rw [hunion]; exact hfits.mono (refines_develops hg made))
  refine .of_ok ((outcome_bind_of_ok hfresh _).trans hrun) ⟨hg, withNode_of_made hnone _,
    fun _ _ ht => ht, fun name' u hu => ?_⟩ ⟨hs.library, hsolves⟩ (withNode_self made name _)
  rcases withNode_eq_some hu with ⟨rfl, -⟩ | ⟨-, hmade⟩
  · exact .inr (.inl hmine)
  · exact .inl hmade

end Conversion

end JsonTyping
