import JsonTyping.Proofs.ReferenceRuns

/-!
# Runs succeed where references lead

If a reference leads somewhere in a graph that is known to be on the way, following it succeeds from
every state on the way to the same final graph, as long as the nodes that the known graph has filled
are filled or pending in that state and filling them succeeds (`Inference.FollowEnds.succeeds`). A
path runs through no type twice, so it is never mistaken for a cycle (`Graph.not_behind_self`).
-/

namespace JsonTyping

namespace Graph

theorem RefersTo.unique {g : Graph} {top r r' : NodeId} {reference : String}
    (h : g.RefersTo top reference r) (h' : g.RefersTo top reference r') : r = r' := by
  obtain ⟨segments, hsegments, hleads⟩ := h
  obtain ⟨segments', hsegments', hleads'⟩ := h'
  obtain rfl := Option.some.inj (hsegments.symm.trans hsegments')
  exact hleads.unique hleads'

theorem refersTo_unique {g : Graph} {top : NodeId} {references : List String} {rs rs' : List NodeId}
    (h : List.Forall₂ (g.RefersTo top) references rs)
    (h' : List.Forall₂ (g.RefersTo top) references rs') : rs = rs' :=
  List.right_unique_forall₂' (fun _ _ _ hr hr' => hr.unique hr') h h'

/-- The second type is right behind the first one. -/
def Behind (g : Graph) (t u : NodeId) : Prop := g.behind? t = some u

theorem behind?_of_step {g : Graph} {t u : NodeId} {segment : String}
    (h : Inference.step g t segment = .ok u) : g.behind? t = none := by
  unfold behind?
  split
  · next hshape => exact absurd h (step_of_union hshape segment u)
  · next hshape => exact absurd h (step_of_intersection hshape segment u)
  · rfl

/-- A path goes through some types to the container whose part it goes into. -/
theorem Leads.exists_container {g : Graph} {t r : NodeId} {segment : String} {rest : List String}
    (h : g.Leads t (segment :: rest) r) :
    ∃ container u, Relation.ReflTransGen g.Behind t container ∧
      Inference.step g container segment = .ok u ∧ g.Leads u rest r := by
  generalize hpath : segment :: rest = path at h
  induction h with
  | here => cases hpath
  | @nullable t inner _ _ _ hinner _ ih =>
    obtain ⟨container, u, hchain, hstep⟩ := ih hpath
    obtain ⟨members, hshape⟩ := shape_of_nullableInner? hinner
    have hbehind : g.Behind t inner := by simpa only [Behind, behind?, hshape] using hinner
    exact ⟨container, u, .head hbehind hchain, hstep⟩
  | @only t only _ _ _ _ hshape honly _ ih =>
    obtain ⟨container, u, hchain, hstep⟩ := ih hpath
    have hbehind : g.Behind t only := by simp only [Behind, behind?, hshape, honly]
    exact ⟨container, u, .head hbehind hchain, hstep⟩
  | @into t u _ _ _ hstep hrest _ =>
    cases hpath
    exact ⟨t, u, .refl, hstep, hrest⟩

/-- Of types behind one another that come to an end, none is behind itself. -/
theorem not_behind_self {g : Graph} {t u : NodeId} (hchain : Relation.ReflTransGen g.Behind t u)
    (hu : g.behind? u = none) : ¬ Relation.TransGen g.Behind t t := by
  intro hcycle
  induction hchain using Relation.ReflTransGen.head_induction_on with
  | refl =>
    obtain ⟨x, hx, -⟩ := Relation.TransGen.head'_iff.1 hcycle
    exact absurd (hx.symm.trans hu) nofun
  | @head t t' ht _ ih =>
    obtain ⟨x, hx, hback⟩ := Relation.TransGen.head'_iff.1 hcycle
    obtain rfl : t' = x := Option.some.inj (ht.symm.trans hx)
    exact ih (.tail' hback ht)

theorem Fills.intersection {g g' : Graph} (h : Fills g g') {t : NodeId}
    (ht : g.shape t = .intersection none) : ∃ members, g'.shape t = .intersection members := by
  rcases h t with hsame | ⟨-, members, hsome⟩
  · exact ⟨none, hsame.trans ht⟩
  · exact ⟨some members, hsome⟩

/-- What two graphs have that are filled to become the same one is the same, where neither of them
lacks members. -/
theorem Fills.shape_eq_of_fills {g h k : Graph} (hg : Fills g k) (hh : Fills h k) {t : NodeId}
    (hgt : g.shape t ≠ .intersection none) (hht : h.shape t ≠ .intersection none) :
    g.shape t = h.shape t :=
  (hg.shape_eq rfl hgt).symm.trans (hh.shape_eq rfl hht)

theorem behind?_congr {g h k : Graph} (hg : Fills g k) (hh : Fills h k) {t : NodeId}
    (ht : g.shape t = h.shape t) : g.behind? t = h.behind? t := by
  have hprimitive : ∀ m, g.primitive? m = h.primitive? m := fun m =>
    (hg.primitive? m).symm.trans (hh.primitive? m)
  simp only [behind?, nullableInner?, ht, hprimitive]

end Graph

namespace Inference

/-- The state is on the way from the first state to the final graph, and what the known graph has
filled is filled or pending. -/
structure OnTheWay (start : Inference) (known final : Graph) (s : Inference) : Prop where
  wf : s.Wf
  fills : s.graph.Fills final
  pending : ∀ t targets, s.pending.find? t = some targets → start.pending.find? t = some targets
  ready : ∀ t members, known.shape t = .intersection (some members) →
    s.graph.shape t = .intersection none → ∃ targets, s.pending.find? t = some targets

/-- In the final graph, what is pending at the start has the types that its references refer to. -/
def Solves (top : NodeId) (start : Inference) (final : Graph) : Prop :=
  ∀ t targets, start.pending.find? t = some targets → SettledAt top final t targets

theorem Settled.solves {top : NodeId} {s s' : Inference} (h : Settled top s s') (hs : s.Wf)
    (hnone : s'.pending = .empty) : Solves top s s'.graph := by
  intro t targets ht
  rcases h.settledAt hs ht with hpending | hsettled
  · rw [hnone] at hpending
    cases hpending
  · exact hsettled

section OnTheWay

variable {top : NodeId} {start s s' : Inference} {known final : Graph}

/-- A node is filled with the types that it has in the end. -/
theorem OnTheWay.fillsOne (h : OnTheWay start known final s) (hsolves : Solves top start final)
    {t : NodeId} (hstep : FillsOne top t s s') : OnTheWay start known final s' where
  wf := hstep.wf h.wf
  fills := by
    have hfills := hstep.fills h.wf
    obtain ⟨targets, members, ht, hrefer, hset, -⟩ := hstep
    obtain ⟨members', hfinal, hrefer'⟩ := hsolves t targets (h.pending t targets ht)
    have hmono := hrefer.imp fun reference r (hr : s.graph.RefersTo top reference r) =>
      hr.mono h.fills
    obtain rfl := Graph.refersTo_unique hmono hrefer'
    obtain ⟨-, hother, hnew⟩ := Graph.setMembers_spec hset
    intro u
    by_cases hu : u = t
    · subst hu
      rcases hnew with ⟨hunion, -⟩ | ⟨-, hsome⟩
      · exact absurd (hunion.symm.trans (h.wf u targets ht)) nofun
      · exact .inl (hfinal.trans hsome.symm)
    · rw [hother u hu]
      exact h.fills u
  pending u targets hu := by
    rw [hstep.find?_pending] at hu
    split at hu
    · cases hu
    · exact h.pending u targets hu
  ready u members hknown hempty := by
    have hne : u ≠ t := by
      rintro rfl
      obtain ⟨-, members', hsome⟩ := hstep.shape_self h.wf
      exact absurd (hsome.symm.trans hempty) nofun
    rw [hstep.shape u hne] at hempty
    obtain ⟨targets, hu⟩ := h.ready u members hknown hempty
    exact ⟨targets, by rw [hstep.find?_pending, if_neg hne, hu]⟩

theorem OnTheWay.settled (h : OnTheWay start known final s) (hsolves : Solves top start final)
    (hsettled : Settled top s s') : OnTheWay start known final s' := by
  induction hsettled with
  | refl => exact h
  | tail _ hstep ih =>
    obtain ⟨t, hstep⟩ := hstep
    exact ih.fillsOne hsolves hstep

/-- If a node is just being filled, less may be known. -/
theorem OnTheWay.erase (h : OnTheWay start known final s) (t : NodeId) {less : Graph}
    (hless : less.Fills known) (ht : less.shape t = .intersection none) :
    OnTheWay start less final { s with pending := s.pending.erase t } where
  wf := h.wf.erase t
  fills := h.fills
  pending u targets hu := by
    rw [SortedMap.find?_erase] at hu
    split at hu
    · cases hu
    · exact h.pending u targets hu
  ready u members hknown hempty := by
    have hne : u ≠ t := by
      rintro rfl
      exact absurd (ht.symm.trans hknown) nofun
    obtain ⟨targets, hu⟩ := h.ready u members (hless.shape_eq hknown nofun) hempty
    exact ⟨targets, by rw [SortedMap.find?_erase, if_neg hne, hu]⟩

end OnTheWay

/-! ### Progress -/

section Progress

variable {top : NodeId} {start : Inference} {known final : Graph}
  (hsolves : Solves top start final) (hknown : known.Fills final)
  (hfill : ∀ s t members o, OnTheWay start known final s →
    known.shape t = .intersection (some members) → FillEnds top t s o →
      ∃ s', o = (.ok (), s'))

include hsolves hknown hfill

/-- A node with a shape in the known graph gets this shape, unless it has it already. -/
theorem FillFirstEnds.succeeds {reference : String} {t : NodeId} {s : Inference} {o : Ending Unit}
    (h : FillFirstEnds top reference t s o) (hs : OnTheWay start known final s)
    (ht : known.shape t ≠ .intersection none) :
    ∃ s', o = (.ok (), s') ∧ OnTheWay start known final s' ∧
      s'.graph.shape t = known.shape t := by
  have hshape : ∀ s', s'.graph.shape t ≠ .intersection none → OnTheWay start known final s' →
      s'.graph.shape t = known.shape t := fun s' hne hway =>
    hway.fills.shape_eq_of_fills hknown hne ht
  have hmembers : s.graph.shape t = .intersection none →
      ∃ members, known.shape t = .intersection (some members) := fun hempty => by
    obtain ⟨members, hfinal⟩ := hs.fills.intersection hempty
    rw [hknown.shape_eq rfl ht] at hfinal
    cases members with
    | none => exact absurd hfinal ht
    | some members => exact ⟨members, hfinal⟩
  cases h with
  | ready hready => exact ⟨s, rfl, hs, hshape s hready hs⟩
  | cycle hempty hnone =>
    obtain ⟨members, hsome⟩ := hmembers hempty
    obtain ⟨targets, hpending⟩ := hs.ready t members hsome hempty
    cases hpending.symm.trans hnone
  | fills hempty hpending hfills =>
    obtain ⟨members, hsome⟩ := hmembers hempty
    obtain ⟨s', rfl⟩ := hfill s t members _ hs hsome hfills
    have hfirst : FillFirstEnds top reference t s (.ok (), s') := .fills hempty hpending hfills
    obtain ⟨hsettled, hne⟩ := hfirst.settled hs.wf rfl
    have hs' := hs.settled hsolves hsettled
    exact ⟨s', rfl, hs', hshape s' hne hs'⟩

/-- What is searched through ends at the container of the next step. -/
theorem SeeThroughEnds.succeeds_here {reference segment : String} {seen : List NodeId}
    {container u : NodeId} {s : Inference} {o : Ending NodeId}
    (h : SeeThroughEnds top reference seen container s o) (hs : OnTheWay start known final s)
    (hstep : step known container segment = .ok u) :
    ∃ s', o = (.ok container, s') ∧ OnTheWay start known final s' ∧
      s'.graph.shape container = known.shape container := by
  have hne : known.shape container ≠ .intersection none := fun hempty =>
    absurd hstep (Graph.step_of_intersection hempty segment u)
  have hfirst : ∀ o', FillFirstEnds top reference container s o' →
      ∃ s', o' = (.ok (), s') ∧ OnTheWay start known final s' ∧
        s'.graph.shape container = known.shape container := fun o' hfirst =>
    hfirst.succeeds hsolves hknown hfill hs hne
  cases h with
  | stops hfirst' =>
    obtain ⟨s', hs', -⟩ := hfirst _ hfirst'
    cases hs'
  | again hfirst' _ =>
    obtain ⟨s', hs', hway, hshape⟩ := hfirst _ hfirst'
    cases hs'
    exact ⟨_, rfl, hway, hshape⟩
  | behind hfirst' _ hbehind _ =>
    obtain ⟨s', hs', hway, hshape⟩ := hfirst _ hfirst'
    cases hs'
    rw [Graph.behind?_congr hway.fills hknown hshape, Graph.behind?_of_step hstep] at hbehind
    cases hbehind
  | intoUnion hfirst' _ _ hunion =>
    obtain ⟨s', hs', hway, hshape⟩ := hfirst _ hfirst'
    cases hs'
    exact absurd hstep (Graph.step_of_union (hshape.symm.trans hunion) segment u)
  | stays hfirst' _ _ _ =>
    obtain ⟨s', hs', hway, hshape⟩ := hfirst _ hfirst'
    cases hs'
    exact ⟨_, rfl, hway, hshape⟩

/-- A node with another one behind it is passed, unless it was passed before. -/
theorem SeeThroughEnds.passes {reference : String} {seen : List NodeId} {t t' : NodeId}
    {s : Inference} {o : Ending NodeId} (h : SeeThroughEnds top reference seen t s o)
    (hs : OnTheWay start known final s) (hbehind : known.Behind t t') (hnew : t ∉ seen) :
    ∃ s', OnTheWay start known final s' ∧
      SeeThroughEnds top reference (t :: seen) t' s' o := by
  have hne : known.shape t ≠ .intersection none := fun hempty => by
    rcases Graph.behind?_eq_some hbehind with hinner | ⟨members, hshape, -⟩
    · obtain ⟨members, hshape⟩ := Graph.shape_of_nullableInner? hinner
      cases hempty.symm.trans hshape
    · cases hempty.symm.trans hshape
  have hfirst : ∀ o', FillFirstEnds top reference t s o' →
      ∃ s', o' = (.ok (), s') ∧ OnTheWay start known final s' ∧
        s'.graph.behind? t = some t' := fun o' hfirst => by
    obtain ⟨s', hs', hway, hshape⟩ := hfirst.succeeds hsolves hknown hfill hs hne
    exact ⟨s', hs', hway, (Graph.behind?_congr hway.fills hknown hshape).trans hbehind⟩
  cases h with
  | stops hfirst' =>
    obtain ⟨s', hs', -⟩ := hfirst _ hfirst'
    cases hs'
  | again hfirst' hmem => exact absurd hmem hnew
  | behind hfirst' _ hbehind' hrest =>
    obtain ⟨s', hs', hway, hsome⟩ := hfirst _ hfirst'
    cases hs'
    obtain rfl := Option.some.inj (hbehind'.symm.trans hsome)
    exact ⟨_, hway, hrest⟩
  | intoUnion hfirst' _ hnone _ | stays hfirst' _ hnone _ =>
    obtain ⟨s', hs', hway, hsome⟩ := hfirst _ hfirst'
    cases hs'
    cases hsome.symm.trans hnone

theorem SeeThroughEnds.succeeds {reference segment : String} {seen : List NodeId}
    {t container u : NodeId} {s : Inference} {o : Ending NodeId}
    (h : SeeThroughEnds top reference seen t s o) (hs : OnTheWay start known final s)
    (hchain : Relation.ReflTransGen known.Behind t container)
    (hstep : step known container segment = .ok u)
    (hseen : ∀ x ∈ seen, Relation.TransGen known.Behind x t) :
    ∃ s', o = (.ok container, s') ∧ OnTheWay start known final s' ∧
      s'.graph.shape container = known.shape container := by
  induction hchain using Relation.ReflTransGen.head_induction_on generalizing seen s o with
  | refl => exact h.succeeds_here hsolves hknown hfill hs hstep
  | @head t t' ht hchain ih =>
    have hnew : t ∉ seen := fun hmem =>
      Graph.not_behind_self (.head ht hchain) (Graph.behind?_of_step hstep) (hseen t hmem)
    obtain ⟨s', hway, hrest⟩ := h.passes hsolves hknown hfill hs ht hnew
    refine ih hrest hway fun x hx => ?_
    rcases List.mem_cons.1 hx with rfl | hx
    · exact .single ht
    · exact .tail (hseen x hx) ht

theorem DescendEnds.succeeds {reference : String} {path : List String} {t r : NodeId}
    {s : Inference} {o : Ending NodeId} (h : DescendEnds top reference path t s o)
    (hs : OnTheWay start known final s) (hleads : known.Leads t path r) :
    ∃ s', o = (.ok r, s') ∧ OnTheWay start known final s' := by
  induction path generalizing t s with
  | nil =>
    cases hleads
    cases h
    exact ⟨s, rfl, hs⟩
  | cons segment rest ih =>
    obtain ⟨container, u, hchain, hstep, hrest⟩ := hleads.exists_container
    have hsees : ∀ o', SeeThroughEnds top reference [] t s o' →
        ∃ s', o' = (.ok container, s') ∧ OnTheWay start known final s' ∧
          step s'.graph container segment = .ok u := fun o' hsees => by
      obtain ⟨s', hs', hway, hshape⟩ := hsees.succeeds hsolves hknown hfill hs hchain hstep
        fun x hx => absurd hx List.not_mem_nil
      refine ⟨s', hs', hway, ?_⟩
      rw [← hstep]
      simp only [step, hshape]
    cases h with
    | stops hsees' =>
      obtain ⟨s', hs', -⟩ := hsees _ hsees'
      cases hs'
    | noWay hsees' hproblem =>
      obtain ⟨s', hs', -, hstep'⟩ := hsees _ hsees'
      cases hs'
      cases hproblem.symm.trans hstep'
    | into hsees' hinto hdescends =>
      obtain ⟨s', hs', hway, hstep'⟩ := hsees _ hsees'
      cases hs'
      obtain rfl := Except.ok.inj (hinto.symm.trans hstep')
      exact ih hdescends hway hrest

/-- Following a reference succeeds that leads somewhere in the known graph. -/
theorem FollowEnds.succeeds {reference : String} {r : NodeId} {s : Inference} {o : Ending NodeId}
    (h : FollowEnds top reference s o) (hs : OnTheWay start known final s)
    (hrefers : known.RefersTo top reference r) :
    ∃ s', o = (.ok r, s') ∧ OnTheWay start known final s' := by
  obtain ⟨segments, hsegments, hleads⟩ := hrefers
  cases h with
  | notRooted hnone => exact absurd (hsegments.symm.trans hnone) nofun
  | rooted hsegments' hdescends =>
    obtain rfl := Option.some.inj (hsegments.symm.trans hsegments')
    exact hdescends.succeeds hsolves hknown hfill hs hleads

theorem FollowAllEnds.succeeds {references : List String} {rs : List NodeId} {s : Inference}
    {o : Ending (List NodeId)} (h : FollowAllEnds top references s o)
    (hs : OnTheWay start known final s)
    (hrefer : List.Forall₂ (known.RefersTo top) references rs) :
    ∃ s', o = (.ok rs, s') ∧ OnTheWay start known final s' := by
  induction hrefer generalizing s o with
  | nil =>
    cases h
    exact ⟨s, rfl, hs⟩
  | cons hr _ ih =>
    cases h with
    | stops hfirst =>
      obtain ⟨s', hs', -⟩ := hfirst.succeeds hsolves hknown hfill hs hr
      cases hs'
    | stopsLater hfirst hrest =>
      obtain ⟨s', hs', hway⟩ := hfirst.succeeds hsolves hknown hfill hs hr
      cases hs'
      obtain ⟨s'', hs'', -⟩ := ih hrest hway
      cases hs''
    | more hfirst hrest =>
      obtain ⟨s', hs', hway⟩ := hfirst.succeeds hsolves hknown hfill hs hr
      cases hs'
      obtain ⟨s'', hs'', hway'⟩ := ih hrest hway
      cases hs''
      exact ⟨_, rfl, hway'⟩

end Progress

end Inference

end JsonTyping
