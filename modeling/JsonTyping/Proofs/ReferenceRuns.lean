import JsonTyping.Proofs.ReferenceSteps

/-!
# Runs of the resolution, without bounds

`Inference.FillEnds` and the relations next to it say how the resolution of references ends, with
success or with a refusal, one rule for each way; nothing in them bounds how long a run may get.
The resolution has bounds, but it always ends as these relations say (`fillEnds_fill`,
`resolveEnds_resolvePending`): the pending nodes and the nodes of the graph are enough for every
run. A successful run fills pending nodes one at a time (`FillEnds.settled`).
-/

namespace JsonTyping

namespace SortedMap

theorem size_erase_lt {α β : Type} [Ord α] [Std.LawfulEqOrd α] [DecidableEq α] {m : SortedMap α β}
    {a : α} {b : β} (h : m.find? a = some b) : (m.erase a).size < m.size :=
  List.length_filter_lt_length_iff_exists.2 ⟨(a, b), find?_eq_some_iff.1 h, by simp⟩

end SortedMap

namespace Graph

/-- The type right behind a nullable union or an intersection of one member. -/
def behind? (g : Graph) (t : NodeId) : Option NodeId :=
  match g.shape t with
  | .union _ => g.nullableInner? t
  | .intersection (some members) =>
    match members.toList with
    | [only] => some only
    | _ => none
  | _ => none

theorem behind?_eq_some {g : Graph} {t u : NodeId} (h : g.behind? t = some u) :
    g.nullableInner? t = some u ∨
      ∃ members, g.shape t = .intersection (some members) ∧ members.toList = [u] := by
  unfold behind? at h
  split at h
  · exact .inl h
  · next members hshape =>
    split at h
    · next only honly =>
      obtain rfl := Option.some.inj h
      exact .inr ⟨members, hshape, honly⟩
    · cases h
  · cases h

theorem lt_size_of_behind? {g : Graph} {t u : NodeId} (h : g.behind? t = some u) :
    t < g.size := by
  rcases behind?_eq_some h with hinner | ⟨members, hshape, -⟩
  · obtain ⟨members, hshape⟩ := shape_of_nullableInner? hinner
    exact lt_size_of_shape hshape nofun
  · exact lt_size_of_shape hshape nofun

theorem Through.of_behind? {g : Graph} {t u r : NodeId} (h : g.behind? t = some u)
    (hr : g.Through u r) : g.Through t r := by
  rcases behind?_eq_some h with hinner | ⟨members, hshape, honly⟩
  · exact .nullable hinner hr
  · exact .only hshape honly hr

theorem Fills.behind? {g g' : Graph} (h : Fills g g') {t u : NodeId} (ht : g.behind? t = some u) :
    g'.behind? t = some u := by
  rcases behind?_eq_some ht with hinner | ⟨members, hshape, honly⟩
  · have hinner' := h.nullableInner? hinner
    obtain ⟨members, hshape⟩ := shape_of_nullableInner? hinner'
    simp only [Graph.behind?, hshape, hinner']
  · simp only [Graph.behind?, h.shape_eq hshape nofun, honly]

end Graph

namespace Inference

/-! ### How runs end -/

/-- What a run ends with, and in which state. -/
abbrev Ending (α : Type) := Except SolveError α × Inference

mutual

/-- How it ends to fill a node: one that is not pending is left alone; a pending one is taken off
the pending ones, and gets the types that its references lead to as its members. -/
inductive FillEnds (top : NodeId) : NodeId → Inference → Ending Unit → Prop
  | done {t : NodeId} {s : Inference} :
    s.pending.find? t = none → FillEnds top t s (.ok (), s)
  | stops {t : NodeId} {s s' : Inference} {targets : SortedSet String} {e : SolveError} :
    s.pending.find? t = some targets →
      FollowAllEnds top targets.toList { s with pending := s.pending.erase t } (.error e, s') →
        FillEnds top t s (.error e, s')
  | fills {t : NodeId} {s s' : Inference} {targets : SortedSet String} {members : List NodeId}
    {g : Graph} :
    s.pending.find? t = some targets →
      FollowAllEnds top targets.toList { s with pending := s.pending.erase t } (.ok members, s') →
        s'.graph.setMembers t (.ofList members) = .ok g →
          FillEnds top t s (.ok (), { s' with graph := g })

/-- How it ends to follow references one after the other, up to the first that is refused. -/
inductive FollowAllEnds (top : NodeId) : List String → Inference → Ending (List NodeId) → Prop
  | finished {s : Inference} : FollowAllEnds top [] s (.ok [], s)
  | stops {reference : String} {rest : List String} {s s' : Inference} {e : SolveError} :
    FollowEnds top reference s (.error e, s') →
      FollowAllEnds top (reference :: rest) s (.error e, s')
  | stopsLater {reference : String} {rest : List String} {r : NodeId} {s s₁ s' : Inference}
    {e : SolveError} :
    FollowEnds top reference s (.ok r, s₁) → FollowAllEnds top rest s₁ (.error e, s') →
      FollowAllEnds top (reference :: rest) s (.error e, s')
  | more {reference : String} {rest : List String} {r : NodeId} {rs : List NodeId}
    {s s₁ s' : Inference} :
    FollowEnds top reference s (.ok r, s₁) → FollowAllEnds top rest s₁ (.ok rs, s') →
      FollowAllEnds top (reference :: rest) s (.ok (r :: rs), s')

/-- How it ends to follow one reference. -/
inductive FollowEnds (top : NodeId) : String → Inference → Ending NodeId → Prop
  | notRooted {reference : String} {s : Inference} :
    segments? reference = none →
      FollowEnds top reference s (.error (.badReference reference .notRooted), s)
  | rooted {reference : String} {segments : List String} {s : Inference} {o : Ending NodeId} :
    segments? reference = some segments → DescendEnds top reference segments top s o →
      FollowEnds top reference s o

/-- How it ends to go down a path. -/
inductive DescendEnds (top : NodeId) :
    String → List String → NodeId → Inference → Ending NodeId → Prop
  | here {reference : String} {t : NodeId} {s : Inference} :
    DescendEnds top reference [] t s (.ok t, s)
  | stops {reference segment : String} {rest : List String} {t : NodeId} {s s' : Inference}
    {e : SolveError} :
    SeeThroughEnds top reference [] t s (.error e, s') →
      DescendEnds top reference (segment :: rest) t s (.error e, s')
  | noWay {reference segment : String} {rest : List String} {t container : NodeId}
    {s s' : Inference} {problem : PathProblem} :
    SeeThroughEnds top reference [] t s (.ok container, s') →
      step s'.graph container segment = .error problem →
        DescendEnds top reference (segment :: rest) t s
          (.error (.badReference reference problem), s')
  | into {reference segment : String} {rest : List String} {t container u : NodeId}
    {s s' : Inference} {o : Ending NodeId} :
    SeeThroughEnds top reference [] t s (.ok container, s') →
      step s'.graph container segment = .ok u → DescendEnds top reference rest u s' o →
        DescendEnds top reference (segment :: rest) t s o

/-- How it ends to see through nullable unions and single members, having passed other types. -/
inductive SeeThroughEnds (top : NodeId) :
    String → List NodeId → NodeId → Inference → Ending NodeId → Prop
  | stops {reference : String} {seen : List NodeId} {t : NodeId} {s s' : Inference}
    {e : SolveError} :
    FillFirstEnds top reference t s (.error e, s') →
      SeeThroughEnds top reference seen t s (.error e, s')
  | again {reference : String} {seen : List NodeId} {t : NodeId} {s s' : Inference} :
    FillFirstEnds top reference t s (.ok (), s') → t ∈ seen →
      SeeThroughEnds top reference seen t s (.ok t, s')
  | behind {reference : String} {seen : List NodeId} {t u : NodeId} {s s' : Inference}
    {o : Ending NodeId} :
    FillFirstEnds top reference t s (.ok (), s') → t ∉ seen → s'.graph.behind? t = some u →
      SeeThroughEnds top reference (t :: seen) u s' o → SeeThroughEnds top reference seen t s o
  | intoUnion {reference : String} {seen : List NodeId} {t : NodeId} {s s' : Inference}
    {members : Option (SortedSet NodeId)} :
    FillFirstEnds top reference t s (.ok (), s') → t ∉ seen → s'.graph.behind? t = none →
      s'.graph.shape t = .union members →
        SeeThroughEnds top reference seen t s (.error (.badReference reference .intoUnion), s')
  | stays {reference : String} {seen : List NodeId} {t : NodeId} {s s' : Inference} :
    FillFirstEnds top reference t s (.ok (), s') → t ∉ seen → s'.graph.behind? t = none →
      (∀ members, s'.graph.shape t ≠ .union members) →
        SeeThroughEnds top reference seen t s (.ok t, s')

/-- How it ends to have an intersection filled that has no members yet. One that is no more pending
is just being filled. -/
inductive FillFirstEnds (top : NodeId) : String → NodeId → Inference → Ending Unit → Prop
  | ready {reference : String} {t : NodeId} {s : Inference} :
    s.graph.shape t ≠ .intersection none → FillFirstEnds top reference t s (.ok (), s)
  | cycle {reference : String} {t : NodeId} {s : Inference} :
    s.graph.shape t = .intersection none → s.pending.find? t = none →
      FillFirstEnds top reference t s (.error (.badReference reference .cycle), s)
  | fills {reference : String} {t : NodeId} {targets : SortedSet String} {s : Inference}
    {o : Ending Unit} :
    s.graph.shape t = .intersection none → s.pending.find? t = some targets →
      FillEnds top t s o → FillFirstEnds top reference t s o

end

/-- How it ends to fill nodes one after the other, up to the first that is refused. -/
inductive FillAllEnds (top : NodeId) : List NodeId → Inference → Ending Unit → Prop
  | finished {s : Inference} : FillAllEnds top [] s (.ok (), s)
  | stops {t : NodeId} {rest : List NodeId} {s s' : Inference} {e : SolveError} :
    FillEnds top t s (.error e, s') → FillAllEnds top (t :: rest) s (.error e, s')
  | more {t : NodeId} {rest : List NodeId} {s s' : Inference} {o : Ending Unit} :
    FillEnds top t s (.ok (), s') → FillAllEnds top rest s' o → FillAllEnds top (t :: rest) s o

/-- How it ends to resolve all references: the pending nodes are filled in their order. -/
def ResolveEnds (top : NodeId) (s : Inference) (o : Ending Unit) : Prop :=
  FillAllEnds top s.pending.keys s o

theorem Wf.erase {s : Inference} (hs : s.Wf) (t : NodeId) :
    Wf { s with pending := s.pending.erase t } := by
  intro u targets hu
  rw [SortedMap.find?_erase] at hu
  split at hu
  · cases hu
  · exact hs u targets hu

mutual

theorem FillEnds.settled {top t : NodeId} {s s' : Inference} {o : Ending Unit}
    (h : FillEnds top t s o) (hs : s.Wf) (ho : o = (.ok (), s')) :
    Settled top s s' ∧ s'.pending.find? t = none :=
  match h, ho with
  | .done hnone, rfl => ⟨.refl s, hnone⟩
  | @FillEnds.fills _ _ _ s₁ _ members _ ht hfollows hset, rfl => by
    obtain ⟨hsettled, hrefer⟩ := hfollows.settled (hs.erase t) rfl
    obtain ⟨pending, hfound, hpending, hsteps⟩ := Settled.of_erased ht hsettled
    refine ⟨hsteps.trans (.single (t := t) ⟨_, members, hfound, hrefer, hset, hpending⟩), ?_⟩
    change s₁.pending.find? t = none
    rw [hpending, SortedMap.find?_erase, if_pos rfl]

theorem FollowAllEnds.settled {top : NodeId} {references : List String} {s s' : Inference}
    {rs : List NodeId} {o : Ending (List NodeId)} (h : FollowAllEnds top references s o)
    (hs : s.Wf) (ho : o = (.ok rs, s')) :
    Settled top s s' ∧ List.Forall₂ (s'.graph.RefersTo top) references rs :=
  match h, ho with
  | .finished, rfl => ⟨.refl s, .nil⟩
  | .more hfirst hrest, rfl => by
    obtain ⟨hsettled, hrefers⟩ := hfirst.settled hs rfl
    have hwf := hsettled.wf hs
    obtain ⟨hsettled', hall⟩ := hrest.settled hwf rfl
    exact ⟨hsettled.trans hsettled', .cons (hrefers.mono (hsettled'.fills hwf)) hall⟩

theorem FollowEnds.settled {top : NodeId} {reference : String} {s s' : Inference} {r : NodeId}
    {o : Ending NodeId} (h : FollowEnds top reference s o) (hs : s.Wf) (ho : o = (.ok r, s')) :
    Settled top s s' ∧ s'.graph.RefersTo top reference r :=
  match h, ho with
  | .rooted hsegments hdescends, ho => by
    obtain ⟨hsettled, hleads⟩ := hdescends.settled hs ho
    exact ⟨hsettled, _, hsegments, hleads⟩

theorem DescendEnds.settled {top : NodeId} {reference : String} {path : List String} {t r : NodeId}
    {s s' : Inference} {o : Ending NodeId} (h : DescendEnds top reference path t s o) (hs : s.Wf)
    (ho : o = (.ok r, s')) : Settled top s s' ∧ s'.graph.Leads t path r :=
  match h, ho with
  | .here, rfl => ⟨.refl s, .here⟩
  | .into hsees hstep hrest, ho => by
    obtain ⟨hsettled, hthrough⟩ := hsees.settled hs rfl
    have hwf := hsettled.wf hs
    obtain ⟨hsettled', hleads⟩ := hrest.settled hwf ho
    have hfills := hsettled'.fills hwf
    exact ⟨hsettled.trans hsettled',
      (hthrough.mono hfills).leads (.into (hfills.step hstep) hleads)⟩

theorem SeeThroughEnds.settled {top : NodeId} {reference : String} {seen : List NodeId}
    {t r : NodeId} {s s' : Inference} {o : Ending NodeId}
    (h : SeeThroughEnds top reference seen t s o) (hs : s.Wf) (ho : o = (.ok r, s')) :
    Settled top s s' ∧ s'.graph.Through t r :=
  match h, ho with
  | .again hfirst _, rfl => ⟨(hfirst.settled hs rfl).1, .here⟩
  | .behind hfirst _ hbehind hsees, ho => by
    obtain ⟨hsettled, -⟩ := hfirst.settled hs rfl
    have hwf := hsettled.wf hs
    obtain ⟨hsettled', hthrough⟩ := hsees.settled hwf ho
    exact ⟨hsettled.trans hsettled',
      .of_behind? ((hsettled'.fills hwf).behind? hbehind) hthrough⟩
  | .stays hfirst _ _ _, rfl => ⟨(hfirst.settled hs rfl).1, .here⟩

theorem FillFirstEnds.settled {top : NodeId} {reference : String} {t : NodeId} {s s' : Inference}
    {o : Ending Unit} (h : FillFirstEnds top reference t s o) (hs : s.Wf)
    (ho : o = (.ok (), s')) : Settled top s s' ∧ s'.graph.shape t ≠ .intersection none :=
  match h, ho with
  | .ready hready, rfl => ⟨.refl s, hready⟩
  | .fills _ ht hfills, ho => by
    obtain ⟨hsettled, hnone⟩ := hfills.settled hs ho
    refine ⟨hsettled, ?_⟩
    rcases hsettled.settledAt hs ht with hpending | ⟨members, hshape, -⟩
    · exact absurd (hpending.symm.trans hnone) nofun
    · rw [hshape]
      exact nofun

end

theorem FillAllEnds.settled {top : NodeId} {order : List NodeId} {s s' : Inference}
    (h : FillAllEnds top order s (.ok (), s')) (hs : s.Wf) :
    Settled top s s' ∧ ∀ t ∈ order, s'.pending.find? t = none := by
  induction order generalizing s with
  | nil =>
    cases h
    exact ⟨.refl _, fun t ht => absurd ht List.not_mem_nil⟩
  | cons t rest ih =>
    cases h with
    | more hfirst hrest =>
      obtain ⟨hsettled, hnone⟩ := hfirst.settled hs rfl
      obtain ⟨hsettled', hall⟩ := ih hrest (hsettled.wf hs)
      refine ⟨hsettled.trans hsettled', fun u hu => ?_⟩
      rcases List.mem_cons.1 hu with rfl | hu
      · exact hsettled'.find?_eq_none hnone
      · exact hall u hu

/-- A resolution that succeeds leaves nothing pending. -/
theorem ResolveEnds.settled {top : NodeId} {s s' : Inference} (h : ResolveEnds top s (.ok (), s'))
    (hs : s.Wf) : Settled top s s' ∧ s'.pending = .empty := by
  obtain ⟨hsettled, hall⟩ := FillAllEnds.settled h hs
  exact ⟨hsettled, hsettled.pending_eq_empty hall⟩

/-! ### The resolution ends -/

section Bounded

variable {top : NodeId} {bound : Nat} {filling : NodeId → ResolveM Unit}
  (hfilling : ∀ (t : NodeId) (s : Inference), s.Wf → s.pending.size ≤ bound →
    FillEnds top t s (outcome (filling t) s))

include hfilling

theorem fillFirstEnds_fillFirst (reference : String) (t : NodeId) {s : Inference} (hs : s.Wf)
    (hbound : s.pending.size ≤ bound) :
    FillFirstEnds top reference t s (outcome (fillFirst filling reference t) s) := by
  unfold fillFirst
  rw [outcome_bind_of_ok (outcome_get s)]
  split
  · next hempty =>
    rw [outcome_bind_of_ok (outcome_get s)]
    cases hpending : s.pending.find? t with
    | none =>
      rw [if_neg (by simp [SortedMap.contains, hpending]), refuse, outcome_bind, outcome_throw]
      exact .cycle hempty hpending
    | some targets =>
      rw [if_pos (by simp [SortedMap.contains, hpending])]
      exact .fills hempty hpending (hfilling t s hs hbound)
  · next hready => exact .ready hready

/-- The types passed are different nodes of the graph, so there is fuel left for the next one. -/
theorem seeThroughEnds_seeThrough (reference : String) {fuel : Nat} {seen : List NodeId}
    {t : NodeId} {s : Inference} (hs : s.Wf) (hbound : s.pending.size ≤ bound)
    (hnodup : seen.Nodup) (hseen : ∀ u ∈ seen, u < s.graph.size)
    (hfuel : s.graph.size < fuel + seen.length) :
    SeeThroughEnds top reference seen t s
      (outcome (seeThrough filling reference fuel seen t) s) := by
  induction fuel generalizing seen t s with
  | zero =>
    have hle : seen.length ≤ (List.range s.graph.size).length :=
      hnodup.length_le_of_subset fun u hu => List.mem_range.2 (hseen u hu)
    rw [List.length_range] at hle
    omega
  | succ fuel ih =>
    have hfirst := fillFirstEnds_fillFirst hfilling reference t hs hbound
    rw [seeThrough_succ, outcome_bind]
    rcases hrun : outcome (fillFirst filling reference t) s with ⟨e | _, s'⟩
    · rw [hrun] at hfirst
      exact .stops hfirst
    rw [hrun] at hfirst
    dsimp only
    split
    · next hcontains => exact .again hfirst (List.contains_iff_mem.1 hcontains)
    next hcontains =>
    have hnew : t ∉ seen := fun h => hcontains (List.contains_iff_mem.2 h)
    rw [outcome_bind_of_ok (outcome_get s')]
    obtain ⟨hsettled, -⟩ := hfirst.settled hs rfl
    have hsize := hsettled.sameFrame.size
    have hgoOn : ∀ u, s'.graph.behind? t = some u → SeeThroughEnds top reference seen t s
        (outcome (seeThrough filling reference fuel (t :: seen) u) s') := fun u hbehind => by
      refine .behind hfirst hnew hbehind (ih (hsettled.wf hs)
        (Nat.le_trans hsettled.size_pending hbound) (List.nodup_cons.2 ⟨hnew, hnodup⟩)
        (fun x hx => ?_) ?_)
      · rcases List.mem_cons.1 hx with rfl | hx
        · exact Graph.lt_size_of_behind? hbehind
        · exact hsize ▸ hseen x hx
      · rw [hsize, List.length_cons]
        omega
    split
    · next members hshape =>
      split
      · next inner hinner => exact hgoOn inner (by simp only [Graph.behind?, hshape, hinner])
      · next hinner =>
        exact .intoUnion hfirst hnew (by simp only [Graph.behind?, hshape, hinner]) hshape
    · next members hshape =>
      split
      · next only honly => exact hgoOn only (by simp only [Graph.behind?, hshape, honly])
      · next hmany =>
        refine .stays hfirst hnew (by simp only [Graph.behind?, hshape]) fun ms hms => ?_
        cases hshape.symm.trans hms
    · next hunion hintersection =>
      refine .stays hfirst hnew ?_ hunion
      unfold Graph.behind?
      split
      · next ms hms => exact absurd hms (hunion ms)
      · next ms hms => exact absurd hms (hintersection ms)
      · rfl

theorem descendEnds_descend (reference : String) {path : List String} {t : NodeId} {s : Inference}
    (hs : s.Wf) (hbound : s.pending.size ≤ bound) :
    DescendEnds top reference path t s (outcome (descend filling reference t path) s) := by
  induction path generalizing t s with
  | nil => exact .here
  | cons segment rest ih =>
    unfold descend
    rw [outcome_bind_of_ok (outcome_get s), outcome_bind]
    have hsees := seeThroughEnds_seeThrough hfilling reference (t := t) hs hbound List.nodup_nil
      (fun u hu => absurd hu List.not_mem_nil) (Nat.lt_succ_self s.graph.size)
    rcases hrun : outcome (seeThrough filling reference (s.graph.size + 1) [] t) s with
      ⟨e | container, s'⟩
    · rw [hrun] at hsees
      exact .stops hsees
    rw [hrun] at hsees
    obtain ⟨hsettled, -⟩ := hsees.settled hs rfl
    dsimp only
    rw [outcome_bind_of_ok (outcome_get s')]
    split
    · next u hstep =>
      exact .into hsees hstep
        (ih (hsettled.wf hs) (Nat.le_trans hsettled.size_pending hbound))
    · next problem hstep => exact .noWay hsees hstep

theorem followEnds_follow (reference : String) {s : Inference} (hs : s.Wf)
    (hbound : s.pending.size ≤ bound) :
    FollowEnds top reference s (outcome (follow filling top reference) s) := by
  unfold follow
  split
  · next segments hsegments =>
    exact .rooted hsegments (descendEnds_descend hfilling reference hs hbound)
  · next hsegments => exact .notRooted hsegments

theorem followAllEnds_mapM (references : List String) {s : Inference} (hs : s.Wf)
    (hbound : s.pending.size ≤ bound) :
    FollowAllEnds top references s (outcome (references.mapM (follow filling top)) s) := by
  induction references generalizing s with
  | nil => exact .finished
  | cons reference rest ih =>
    have hfollow := followEnds_follow hfilling reference hs hbound
    rw [List.mapM_cons, outcome_bind]
    rcases hrun : outcome (follow filling top reference) s with ⟨e | r, s'⟩
    · rw [hrun] at hfollow
      exact .stops hfollow
    rw [hrun] at hfollow
    obtain ⟨hsettled, -⟩ := hfollow.settled hs rfl
    have hrest := ih (hsettled.wf hs) (Nat.le_trans hsettled.size_pending hbound)
    dsimp only
    rw [outcome_bind]
    rcases hrun' : outcome (rest.mapM (follow filling top)) s' with ⟨e | rs, s''⟩
    · rw [hrun'] at hrest
      exact .stopsLater hfollow hrest
    · rw [hrun'] at hrest
      exact .more hfollow hrest

end Bounded

/-- Filling a node ends as it does without a bound, if the bound is not below the number of pending
nodes: each node that is filled on the way is taken off the pending ones first. -/
theorem fillEnds_fill (top : NodeId) {fuel : Nat} (t : NodeId) {s : Inference} (hs : s.Wf)
    (hfuel : s.pending.size ≤ fuel) : FillEnds top t s (outcome (fill top fuel t) s) := by
  induction fuel generalizing t s with
  | zero =>
    refine .done ?_
    have hnil : s.pending.entries = [] := List.eq_nil_of_length_eq_zero (Nat.le_zero.1 hfuel)
    simp only [SortedMap.find?, hnil, List.lookup_nil]
  | succ fuel ih =>
    unfold fill
    rw [outcome_bind_of_ok (outcome_get s)]
    split
    · next hnone => exact .done hnone
    · next targets ht =>
      have hless := SortedMap.size_erase_lt ht
      have hfill : ∀ t (s : Inference), s.Wf → s.pending.size ≤ fuel →
          FillEnds top t s (outcome (fill top fuel t) s) := fun t s hs => ih t hs
      have hfollows := followAllEnds_mapM hfill targets.toList (hs.erase t)
        (Nat.le_of_lt_succ (Nat.lt_of_lt_of_le hless hfuel))
      rw [outcome_bind_of_ok (outcome_modify _ s), outcome_bind]
      rcases hrun : outcome (targets.toList.mapM (follow (fill top fuel) top))
          { s with pending := s.pending.erase t } with ⟨e | members, s'⟩
      · rw [hrun] at hfollows
        exact .stops ht hfollows
      rw [hrun] at hfollows
      obtain ⟨hsettled, -⟩ := hfollows.settled (hs.erase t) rfl
      -- The node is not pending while its references are followed, so it has no members yet.
      have hempty : s'.graph.shape t = .intersection none := by
        rw [hsettled.shape_of_not_pending (by rw [SortedMap.find?_erase, if_pos rfl])]
        exact hs t targets ht
      obtain ⟨g, hset⟩ := Graph.exists_setMembers (.ofList members) (.inr hempty)
      dsimp only
      rw [outcome_bind_of_ok (outcome_get s'), hset]
      exact .fills ht hfollows hset

theorem fillAllEnds_forM (top : NodeId) {fuel : Nat} (order : List NodeId) {s : Inference}
    (hs : s.Wf) (hfuel : s.pending.size ≤ fuel) :
    FillAllEnds top order s (outcome (order.forM (fill top fuel)) s) := by
  induction order generalizing s with
  | nil => exact .finished
  | cons t rest ih =>
    have hfill := fillEnds_fill top t hs hfuel
    rw [List.forM, outcome_bind]
    rcases hrun : outcome (fill top fuel t) s with ⟨e | _, s'⟩
    · rw [hrun] at hfill
      exact .stops hfill
    · rw [hrun] at hfill
      obtain ⟨hsettled, -⟩ := hfill.settled hs rfl
      exact .more hfill (ih (hsettled.wf hs) (Nat.le_trans hsettled.size_pending hfuel))

/-- The resolution ends as it does without bounds. -/
theorem resolveEnds_resolvePending (top : NodeId) {s : Inference} (hs : s.Wf) :
    ResolveEnds top s (outcome (resolvePending top) s) := by
  have hfuel : s.pending.size ≤ s.pending.keys.length := by
    rw [SortedMap.keys, List.length_map]
    exact Nat.le_refl _
  unfold resolvePending
  rw [outcome_bind_of_ok (outcome_get s)]
  exact fillAllEnds_forM top s.pending.keys hs hfuel

end Inference

end JsonTyping
