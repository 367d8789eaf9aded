import JsonTyping.Proofs.InferenceSoundness
import JsonTyping.Proofs.Recording
import JsonTyping.Samples.Collection

/-!
# Resolved references, and the soundness of inference

Resolving only fills intersections that were waiting for their members (`Graph.Fills`), so paths
lead where they led before (`Graph.Leads.mono`). `Inference.Resolving` follows a run of the
resolution; what it keeps is that every reference that was pending is still pending, or its
intersection has the type among its members that the reference leads to (`Inference.Filled`). With
the instances of the inferred types this gives `Collection.solve_sound`.
-/

namespace JsonTyping

namespace Graph

/-- The second graph is the first one with some intersections given their members. -/
def Fills (g g' : Graph) : Prop :=
  ∀ t, g'.shape t = g.shape t ∨
    g.shape t = .intersection none ∧ ∃ members, g'.shape t = .intersection (some members)

theorem Fills.refl (g : Graph) : Fills g g := fun _ => .inl rfl

theorem Fills.shape_eq {g g' : Graph} (h : Fills g g') {t : NodeId} {s : Shape}
    (ht : g.shape t = s) (hs : s ≠ .intersection none) : g'.shape t = s := by
  rcases h t with hsame | ⟨hnone, -⟩
  · rw [hsame, ht]
  · exact absurd (ht.symm.trans hnone) hs

theorem Fills.trans {g h k : Graph} (hgh : Fills g h) (hhk : Fills h k) : Fills g k := by
  intro t
  rcases hgh t with hsame | ⟨hnone, members, hsome⟩
  · rcases hhk t with hsame' | ⟨hnone', hsome'⟩
    · exact .inl (hsame'.trans hsame)
    · exact .inr ⟨hsame.symm.trans hnone', hsome'⟩
  · exact .inr ⟨hnone, members, hhk.shape_eq hsome nofun⟩

theorem Fills.primitive? {g g' : Graph} (h : Fills g g') (t : NodeId) :
    g'.primitive? t = g.primitive? t := by
  unfold Graph.primitive?
  rcases h t with hsame | ⟨hnone, members, hsome⟩
  · rw [hsame]
  · rw [hnone, hsome]
    rfl

theorem Fills.nullableInner? {g g' : Graph} (h : Fills g g') {t u : NodeId}
    (ht : g.nullableInner? t = some u) : g'.nullableInner? t = some u := by
  obtain ⟨members, hshape⟩ := shape_of_nullableInner? ht
  have hshape' := h.shape_eq hshape nofun
  unfold Graph.nullableInner? at ht ⊢
  rw [hshape] at ht
  rw [hshape']
  simpa only [h.primitive?] using ht

theorem Fills.step {g g' : Graph} (h : Fills g g') {t u : NodeId} {segment : String}
    (ht : Inference.step g t segment = .ok u) : Inference.step g' t segment = .ok u := by
  rcases h t with hsame | ⟨hnone, -⟩
  · unfold Inference.step at ht ⊢
    rw [hsame]
    exact ht
  · exact absurd ht (step_of_intersection hnone segment u)

theorem Leads.mono {g g' : Graph} (h : Fills g g') {t r : NodeId} {path : List String}
    (ht : g.Leads t path r) : g'.Leads t path r := by
  induction ht with
  | here => exact .here
  | nullable hinner _ ih => exact .nullable (h.nullableInner? hinner) ih
  | only hshape honly _ ih => exact .only (h.shape_eq hshape nofun) honly ih
  | into hstep _ ih => exact .into (h.step hstep) ih

theorem RefersTo.mono {g g' : Graph} (h : Fills g g') {top t : NodeId} {reference : String}
    (ht : g.RefersTo top reference t) : g'.RefersTo top reference t := by
  obtain ⟨segments, hsegments, hleads⟩ := ht
  exact ⟨segments, hsegments, hleads.mono h⟩

/-- The second type is reached from the first one through nullable types and intersections of one
member. -/
inductive Through (g : Graph) : NodeId → NodeId → Prop
  | here {t : NodeId} : Through g t t
  | nullable {t u r : NodeId} : g.nullableInner? t = some u → Through g u r → Through g t r
  | only {t u r : NodeId} {members : SortedSet NodeId} :
    g.shape t = .intersection (some members) → members.toList = [u] → Through g u r →
      Through g t r

theorem Through.mono {g g' : Graph} (h : Fills g g') {t r : NodeId} (ht : g.Through t r) :
    g'.Through t r := by
  induction ht with
  | here => exact .here
  | nullable hinner _ ih => exact .nullable (h.nullableInner? hinner) ih
  | only hshape honly _ ih => exact .only (h.shape_eq hshape nofun) honly ih

theorem Through.leads {g : Graph} {t u r : NodeId} {segment : String} {rest : List String}
    (h : g.Through t u) (hr : g.Leads u (segment :: rest) r) : g.Leads t (segment :: rest) r := by
  induction h with
  | here => exact hr
  | nullable hinner _ ih => exact .nullable hinner (ih hr)
  | only hshape honly _ ih => exact .only hshape honly (ih hr)

end Graph

namespace Inference

/-- The node has its members, and each reference refers to one of them. -/
def Filled (top : NodeId) (g : Graph) (t : NodeId) (targets : SortedSet String) : Prop :=
  ∃ members, g.shape t = .intersection (some members) ∧
    ∀ reference ∈ targets, ∃ r ∈ members, g.RefersTo top reference r

theorem Filled.mono {top t : NodeId} {g g' : Graph} {targets : SortedSet String}
    (hfills : g.Fills g') (h : Filled top g t targets) : Filled top g' t targets := by
  obtain ⟨members, hshape, hmembers⟩ := h
  refine ⟨members, hfills.shape_eq hshape nofun, fun reference href => ?_⟩
  obtain ⟨r, hr, hrefers⟩ := hmembers reference href
  exact ⟨r, hr, hrefers.mono hfills⟩

/-- Nothing new is pending, and what is pending no more is filled. -/
structure Resolves (top : NodeId) (s s' : Inference) : Prop where
  graph : s.graph.Fills s'.graph
  pending : ∀ t targets, s'.pending.find? t = some targets → s.pending.find? t = some targets
  filled : ∀ t targets, s.pending.find? t = some targets →
    s'.pending.find? t = some targets ∨ Filled top s'.graph t targets

theorem Resolves.refl (top : NodeId) (s : Inference) : Resolves top s s :=
  ⟨.refl s.graph, fun _ _ h => h, fun _ _ h => .inl h⟩

theorem Resolves.trans {top : NodeId} {s s' s'' : Inference} (h : Resolves top s s')
    (h' : Resolves top s' s'') : Resolves top s s'' where
  graph := h.graph.trans h'.graph
  pending t targets ht := h.pending t targets (h'.pending t targets ht)
  filled t targets ht := by
    rcases h.filled t targets ht with hpending | hfilled
    · exact h'.filled t targets hpending
    · exact .inr (hfilled.mono h'.graph)

/-! ### Runs that resolve -/

/-- If the run from this state succeeds, it only resolves references, and `Q` holds of what it
gives. -/
def Resolving {α : Type} (top : NodeId) (m : ResolveM α) (Q : Inference → α → Prop)
    (s : Inference) : Prop :=
  s.Wf → ∀ a s', outcome m s = (.ok a, s') → s'.Wf ∧ Resolves top s s' ∧ Q s' a

section Rules

variable {α β : Type} {top : NodeId} {s : Inference}

theorem resolving_pure {a : α} {Q : Inference → α → Prop} (h : Q s a) :
    Resolving top (pure a) Q s := by
  intro hs b s' hrun
  rw [outcome_pure] at hrun
  cases hrun
  exact ⟨hs, .refl top s, h⟩

theorem resolving_refuse {reference : String} {problem : PathProblem}
    {Q : Inference → α → Prop} : Resolving top (refuse reference problem) Q s := by
  intro _ b s' hrun
  rw [refuse, outcome_throw] at hrun
  cases hrun

theorem resolving_get {f : Inference → ResolveM β} {Q : Inference → β → Prop}
    (h : Resolving top (f s) Q s) : Resolving top (get >>= f) Q s := by
  intro hs b s' hrun
  rw [outcome_bind_of_ok (outcome_get s)] at hrun
  exact h hs b s' hrun

theorem Resolving.bind {m : ResolveM α} {f : α → ResolveM β} {P : Inference → α → Prop}
    {Q : Inference → β → Prop} (hm : Resolving top m P s)
    (hf : ∀ a s', Resolves top s s' → P s' a → Resolving top (f a) Q s') :
    Resolving top (m >>= f) Q s := by
  intro hs b s'' hrun
  obtain ⟨a, s', hrun, hrun'⟩ := outcome_bind_ok.1 hrun
  obtain ⟨hwf, hresolves, hP⟩ := hm hs a s' hrun
  obtain ⟨hwf', hresolves', hQ⟩ := hf a s' hresolves hP hwf b s'' hrun'
  exact ⟨hwf', hresolves.trans hresolves', hQ⟩

theorem Resolving.imp {m : ResolveM α} {P Q : Inference → α → Prop} (hm : Resolving top m P s)
    (h : ∀ s' a, Resolves top s s' → P s' a → Q s' a) : Resolving top m Q s := by
  intro hs a s' hrun
  obtain ⟨hwf, hresolves, hP⟩ := hm hs a s' hrun
  exact ⟨hwf, hresolves, h s' a hresolves hP⟩

theorem Resolving.mapM {f : α → ResolveM β} {R : α → Graph → β → Prop}
    (hf : ∀ a s, Resolving top (f a) (fun s' b => R a s'.graph b) s)
    (hlasts : ∀ a g g' b, g.Fills g' → R a g b → R a g' b) (l : List α) :
    Resolving top (l.mapM f) (fun s' bs => List.Forall₂ (fun a b => R a s'.graph b) l bs) s := by
  induction l generalizing s with
  | nil =>
    rw [List.mapM_nil]
    exact resolving_pure .nil
  | cons a l ih =>
    rw [List.mapM_cons]
    refine (hf a s).bind fun b s' _ hb => ih.bind fun bs s'' hresolves hbs => resolving_pure ?_
    exact .cons (hlasts a _ _ b hresolves.graph hb) hbs

theorem Resolving.forM {f : α → ResolveM Unit} {R : α → Inference → Prop}
    (hf : ∀ a s, Resolving top (f a) (fun s' _ => R a s') s)
    (hlasts : ∀ a s s', Resolves top s s' → R a s → R a s') (l : List α) :
    Resolving top (l.forM f) (fun s' _ => ∀ a ∈ l, R a s') s := by
  induction l generalizing s with
  | nil => exact resolving_pure fun a ha => absurd ha List.not_mem_nil
  | cons a l ih =>
    refine (hf a s).bind fun _ s' _ ha => ih.imp fun s'' _ hresolves hl => ?_
    intro b hb
    rcases List.mem_cons.1 hb with rfl | hb
    · exact hlasts b s' s'' hresolves ha
    · exact hl b hb

end Rules

section Paths

variable {top : NodeId} {fill : NodeId → ResolveM Unit} {reference : String}

/-- Fills a pending intersection before its members are looked at. -/
def fillFirst (fill : NodeId → ResolveM Unit) (reference : String) (t : NodeId) :
    ResolveM Unit := do
  if (← get).graph.shape t = .intersection none then
    unless (← get).pending.contains t do refuse reference .cycle
    fill t

theorem seeThrough_succ (fuel : Nat) (seen : List NodeId) (t : NodeId) :
    seeThrough fill reference (fuel + 1) seen t = (do
      fillFirst fill reference t
      if seen.contains t then return t
      let graph := (← get).graph
      match graph.shape t with
      | .union _ =>
        match graph.nullableInner? t with
        | some inner => seeThrough fill reference fuel (t :: seen) inner
        | none => refuse reference .intoUnion
      | .intersection (some members) =>
        match members.toList with
        | [only] => seeThrough fill reference fuel (t :: seen) only
        | _ => return t
      | _ => return t) := by
  rw [seeThrough, fillFirst]
  simp only [bind_assoc]
  refine congrArg (get >>= ·) (funext fun s => ?_)
  split
  · simp only [bind_assoc]
    refine congrArg (get >>= ·) (funext fun s' => ?_)
    split
    · rfl
    · exact (bind_assoc _ _ _).symm
  · exact (pure_bind _ _).symm

section Filling

variable (hfill : ∀ t s, Resolving top (fill t) (fun _ _ => True) s)

include hfill

theorem resolving_fillFirst (t : NodeId) (s : Inference) :
    Resolving top (fillFirst fill reference t) (fun _ _ => True) s := by
  unfold fillFirst
  refine resolving_get ?_
  split
  · refine resolving_get ?_
    split
    · exact hfill t s
    · exact resolving_refuse.bind (P := fun _ _ => True) fun _ s' _ _ => hfill t s'
  · exact resolving_pure trivial

theorem resolving_seeThrough (fuel : Nat) (seen : List NodeId) (t : NodeId) (s : Inference) :
    Resolving top (seeThrough fill reference fuel seen t) (fun s' r => s'.graph.Through t r) s := by
  induction fuel generalizing seen t s with
  | zero => exact resolving_pure .here
  | succ fuel ih =>
    rw [seeThrough_succ]
    refine (resolving_fillFirst hfill t s).bind fun _ s' _ _ => ?_
    split
    · exact resolving_pure .here
    · refine resolving_get ?_
      dsimp only
      split
      · split
        · next inner hinner =>
          exact (ih _ inner s').imp fun s'' r hresolves hr =>
            .nullable (hresolves.graph.nullableInner? hinner) hr
        · exact resolving_refuse
      · next members hshape =>
        split
        · next only honly =>
          exact (ih _ only s').imp fun s'' r hresolves hr =>
            .only (hresolves.graph.shape_eq hshape (by simp)) honly hr
        · exact resolving_pure .here
      · exact resolving_pure .here

theorem resolving_descend (path : List String) (t : NodeId) (s : Inference) :
    Resolving top (descend fill reference t path) (fun s' r => s'.graph.Leads t path r) s := by
  induction path generalizing t s with
  | nil => exact resolving_pure .here
  | cons segment rest ih =>
    unfold descend
    refine resolving_get ?_
    refine (resolving_seeThrough hfill _ [] t s).bind fun container s' _ hthrough => ?_
    refine resolving_get ?_
    split
    · next u hstep =>
      refine (ih u s').imp fun s'' r hresolves hr => ?_
      exact (hthrough.mono hresolves.graph).leads (.into (hresolves.graph.step hstep) hr)
    · exact resolving_refuse

theorem resolving_follow (s : Inference) :
    Resolving top (follow fill top reference)
      (fun s' r => s'.graph.RefersTo top reference r) s := by
  unfold follow
  split
  · next segments hsegments =>
    exact (resolving_descend hfill segments top s).imp fun s' r _ hr => ⟨segments, hsegments, hr⟩
  · exact resolving_refuse

end Filling

end Paths

/-- Between taking a node off the pending ones and giving it its members, only other nodes are
resolved. -/
theorem resolves_of_erased {top t : NodeId} {s s₁ : Inference} {g : Graph}
    {targets : SortedSet String} {members : List NodeId} (hs : s.Wf)
    (ht : s.pending.find? t = some targets) (hwf : s₁.Wf)
    (hresolves : Resolves top { s with pending := s.pending.erase t } s₁)
    (hmembers : List.Forall₂ (fun reference r => s₁.graph.RefersTo top reference r)
      targets.toList members)
    (hset : s₁.graph.setMembers t (.ofList members) = .ok g) :
    Wf ⟨g, s₁.pending⟩ ∧ Resolves top s ⟨g, s₁.pending⟩ ∧ s₁.pending.find? t = none := by
  have herased : s₁.pending.find? t = none := by
    cases hfound : s₁.pending.find? t with
    | none => rfl
    | some found =>
      have hold := hresolves.pending t found hfound
      rw [SortedMap.find?_erase, if_pos rfl] at hold
      cases hold
  obtain ⟨-, hother, hnew⟩ := Graph.setMembers_spec hset
  have hshape : s₁.graph.shape t = .intersection none ∧
      g.shape t = .intersection (some (.ofList members)) := by
    rcases hnew with ⟨hunion, -⟩ | hintersection
    · rcases hresolves.graph t with hsame | ⟨-, ms, hsome⟩
      · have hpending := hs t targets ht
        rw [hunion] at hsame
        exact absurd (hsame.trans hpending) nofun
      · rw [hunion] at hsome
        cases hsome
    · exact hintersection
  have hfills : s₁.graph.Fills g := by
    intro u
    by_cases hu : u = t
    · subst hu
      exact .inr ⟨hshape.1, _, hshape.2⟩
    · exact .inl (hother u hu)
  have hfilled : Filled top g t targets := by
    refine ⟨_, hshape.2, fun reference href => ?_⟩
    obtain ⟨r, hr, hrefers⟩ := exists_right_of_forall₂ hmembers (SortedSet.mem_iff.1 href)
    exact ⟨r, SortedSet.mem_ofList.2 hr, hrefers.mono hfills⟩
  refine ⟨fun u found hu => ?_, ⟨hresolves.graph.trans hfills, fun u found hu => ?_,
    fun u found hu => ?_⟩, herased⟩
  · have hne : u ≠ t := by
      rintro rfl
      exact absurd (hu.symm.trans herased) nofun
    exact (hother u hne).trans (hwf u found hu)
  · have hold := hresolves.pending u found hu
    rw [SortedMap.find?_erase] at hold
    split at hold
    · cases hold
    · exact hold
  · by_cases hne : u = t
    · subst hne
      rw [ht] at hu
      obtain rfl := Option.some.inj hu
      exact .inr hfilled
    · have herase : (s.pending.erase t).find? u = some found := by
        rw [SortedMap.find?_erase, if_neg hne, hu]
      rcases hresolves.filled u found herase with hpending | hdone
      · exact .inl hpending
      · exact .inr (hdone.mono hfills)

theorem resolving_fill (top : NodeId) (fuel : Nat) (t : NodeId) (s : Inference) :
    Resolving top (fill top fuel t) (fun s' _ => 0 < fuel → s'.pending.find? t = none) s := by
  induction fuel generalizing t s with
  | zero => exact resolving_pure fun h => absurd h (Nat.lt_irrefl 0)
  | succ fuel ih =>
    unfold fill
    refine resolving_get ?_
    split
    · next hnone => exact resolving_pure fun _ => hnone
    · next targets htargets =>
      -- The node is off the pending ones while its members are looked for, so the invariant is that
      -- of the state without it; `resolves_of_erased` puts it back.
      intro hs a s' hrun
      have hwf : Wf { s with pending := s.pending.erase t } := fun u found hu => by
        rw [SortedMap.find?_erase] at hu
        split at hu
        · cases hu
        · exact hs u found hu
      have hmembers := Resolving.mapM (s := { s with pending := s.pending.erase t })
        (f := follow (fill top fuel) top) (R := fun reference g r => g.RefersTo top reference r)
        (fun reference s => resolving_follow
          (fun t s => (ih t s).imp fun _ _ _ _ => trivial) s)
        (fun reference g g' r hfills hr => hr.mono hfills) targets.toList
      rw [outcome_bind_of_ok (outcome_modify _ s)] at hrun
      obtain ⟨members, s₁, hrun₁, hrun⟩ := outcome_bind_ok.1 hrun
      obtain ⟨hwf₁, hresolves, hrefer⟩ := hmembers hwf members s₁ hrun₁
      rw [outcome_bind_of_ok (outcome_get s₁)] at hrun
      split at hrun
      · next g hset =>
        rw [outcome_modify] at hrun
        cases hrun
        obtain ⟨hwf', hresolves', herased⟩ :=
          resolves_of_erased hs htargets hwf₁ hresolves hrefer hset
        exact ⟨hwf', hresolves', fun _ => herased⟩
      · rw [outcome_throw] at hrun
        cases hrun

/-- After all references are resolved, every pending node has been filled. -/
theorem resolving_resolvePending (top : NodeId) (s : Inference) :
    Resolving top (resolvePending top)
      (fun s' _ => ∀ t targets, s.pending.find? t = some targets → Filled top s'.graph t targets)
      s := by
  unfold resolvePending
  refine resolving_get ?_
  have hall := Resolving.forM (s := s) (R := fun t s' => 0 < s.pending.keys.length →
      s'.pending.find? t = none) (resolving_fill top s.pending.keys.length)
    (fun t s₁ s₂ hresolves h hpos => ?_) s.pending.keys
  · intro hs a s' hrun
    obtain ⟨hwf, hresolves, hnone⟩ := hall hs a s' hrun
    refine ⟨hwf, hresolves, fun t targets ht => ?_⟩
    rcases hresolves.filled t targets ht with hpending | hfilled
    · have hkey : t ∈ s.pending.keys := SortedMap.mem_keys.2 ⟨targets, ht⟩
      rw [hnone t hkey (List.length_pos_of_mem hkey)] at hpending
      cases hpending
    · exact hfilled
  · cases hfound : s₂.pending.find? t with
    | none => rfl
    | some found =>
      have hold := hresolves.pending t found hfound
      rw [h hpos] at hold
      cases hold

end Inference

/-! ### Soundness -/

namespace Collection

theorem start_wf (graph : Graph) : (Inference.start graph).Wf := fun _ _ h => nomatch h

/-- A run infers a type, resolves what is pending, and publishes the type. -/
theorem solve_of_runs {c : Collection} {graph : Graph} {name : String} {top : NodeId}
    {s s' : Inference} {result : Except SolveError Unit} (hroots : c.roots.isEmpty = false)
    (hinferred : (Inference.typeOf c.recorder.table c.roots (.givenName name)).run (.start graph) =
      (top, s))
    (hresolved : outcome (Inference.resolvePending top) s = (result, s')) :
    c.solve graph name = match result with
      | .error e => (s'.graph, .error e)
      | .ok _ => match s'.graph.publish? name top with
        | some g => (g, .ok top)
        | none => (s'.graph, .error (.duplicateTopLevel name)) := by
  have hinferred' : Inference.typeOf c.recorder.table c.roots (.givenName name) (.start graph) =
      (top, s) := hinferred
  have hresolved' : (Inference.resolvePending top).run s = (result, s') := hresolved
  simp only [solve, hroots, Bool.false_eq_true, if_false, hinferred', hresolved']
  cases result <;> rfl

/-- The runs that a solving with samples consists of. -/
theorem exists_runs (c : Collection) (graph : Graph) (name : String) :
    ∃ top s result s',
      (Inference.typeOf c.recorder.table c.roots (.givenName name)).run (.start graph) = (top, s) ∧
      outcome (Inference.resolvePending top) s = (result, s') :=
  ⟨_, _, _, _, rfl, rfl⟩

theorem solve_of_no_samples {c : Collection} (hroots : c.roots.isEmpty = true) (graph : Graph)
    (name : String) : c.solve graph name = (graph, .error (.noSamples name)) := by
  rw [solve, if_pos hroots]

/-- What a successful run consists of. -/
theorem solve_ok {c : Collection} {graph g : Graph} {name : String} {root : NodeId}
    (h : c.solve graph name = (g, .ok root)) :
    ∃ s s', (Inference.typeOf c.recorder.table c.roots (.givenName name)).run (.start graph) =
        (root, s) ∧
      outcome (Inference.resolvePending root) s = (.ok (), s') ∧
      s'.graph.publish? name root = some g := by
  cases hroots : c.roots.isEmpty with
  | true => cases (solve_of_no_samples hroots graph name).symm.trans h
  | false =>
    obtain ⟨top, s, result, s', hinferred, hresolved⟩ := exists_runs c graph name
    rw [solve_of_runs hroots hinferred hresolved] at h
    cases result with
    | error e => cases h
    | ok _ =>
      dsimp only at h
      split at h
      · next published hpublished =>
        cases h
        exact ⟨s, s', hinferred, hresolved, hpublished⟩
      · cases h

/-- Every observed sample is an instance of the type that is published for all of them. -/
theorem solve_sound {settings : Settings} {values : List Json} {c : Collection} {graph g : Graph}
    {name : String} {root : NodeId} (hobserved : Observed settings values c)
    (hsolve : c.solve graph name = (g, .ok root)) :
    ∀ v ∈ values, g.Instance
      (fun t reference => settings.handleRefs = true ∧ g.Targets root t reference) root v := by
  intro v hv
  obtain ⟨s, s', hinferred, hresolved, hpublished⟩ := solve_ok hsolve
  have hkeeps := hobserved.keeps
  rw [hkeeps.typeOf_eq] at hinferred
  obtain ⟨hwf, -, hfits⟩ := Inference.builds_ofSightings settings (c.recorder.table.rows + 1)
    (values.map (⟨false, ·⟩)) (.givenName name) (.start graph) (start_wf graph)
  rw [hinferred] at hwf hfits
  obtain ⟨-, hresolves, hfilled⟩ :=
    Inference.resolving_resolvePending root s hwf () s' hresolved
  have hfills : s.graph.Fills g := fun t => by
    rw [Graph.shape_publish? hpublished]
    exact hresolves.graph t
  have hpublish : s'.graph.Fills g := fun t => .inl (Graph.shape_publish? hpublished t)
  have hdepth : v.depth < c.recorder.table.rows + 1 := Nat.lt_succ_of_le (hkeeps.depth v hv)
  refine Graph.Instance.mono (fun t shape ht _ hne => hfills.shape_eq ht (hne none)) ?_
    (hfits ⟨false, v⟩ (List.mem_map_of_mem hv) hdepth)
  rintro t reference ⟨hrefs, targets, hpending, hmem⟩
  obtain ⟨members, hshape, hmembers⟩ := (hfilled t targets hpending).mono hpublish
  obtain ⟨r, hr, hrefers⟩ := hmembers reference hmem
  exact ⟨hrefs, members, r, hshape, hr, hrefers⟩

/-- A sample with a reference to another part of itself. -/
def referring : Json :=
  .object [("a", .number (.integer 1)), ("next", .object [("$ref", .string "#/a")])]

theorem solve_sound_referring :
    ∃ c g, Observed { handleRefs := true } [referring] c ∧ c.solve .empty "T" = (g, .ok 2) ∧
      ∀ v ∈ [referring], g.Instance
        (fun t reference => true = true ∧ g.Targets 2 t reference) 2 v := by
  have hrun : (match (Collection.empty { handleRefs := true }).observeDocument referring with
      | .ok c => (c.solve .empty "T").2.toOption
      | .error _ => none) = some 2 := by decide +kernel
  split at hrun
  · next c hc =>
    have hobserved : Observed { handleRefs := true } [referring] c := .document .empty hc
    rcases hsolve : c.solve .empty "T" with ⟨g, root | root⟩
    · rw [hsolve] at hrun
      cases hrun
    · rw [hsolve] at hrun
      obtain rfl : root = 2 := Option.some.inj hrun
      exact ⟨c, g, hobserved, hsolve, solve_sound hobserved hsolve⟩
  · cases hrun

end Collection

end JsonTyping
