import JsonTyping.Proofs.ReferenceConsistency
import JsonTyping.Proofs.SamplePositions

/-!
# References as pointers

A reference in a sample is followed in the type of all samples, but it is meant for the sample that
it was found in. This module shows that the two agree: where the reference, read as a pointer,
reaches a value of some sample, following it can fail in one way only, at a union that is not
nullable; and the type that it refers to has that value (`Collection.solve_follows_pointers`).
-/

namespace JsonTyping

namespace Pointer

/-- The index of an item is written in digits. -/
theorem isIndex_of_index? {key : String} {i : Nat} (h : index? key = some i) :
    ¬ (key.isEmpty = true ∨ (!key.toList.all Text.isAsciiDigit) = true) := by
  have hdigits : key.toList ≠ [] ∧ key.toList.all Text.isAsciiDigit = true := by
    unfold index? at h
    dsimp only at h
    split at h
    · next hzero => exact ⟨hzero ▸ nofun, hzero ▸ rfl⟩
    · next hrest =>
      split at h
      · next hcanonical =>
        obtain ⟨hcanonical, -⟩ := Bool.and_eq_true_iff.1 hcanonical
        exact ⟨hrest ▸ nofun, hrest ▸ (Bool.and_eq_true_iff.1 hcanonical).2⟩
      · cases h
    · cases h
  rw [hdigits.2]
  rintro (hempty | hother)
  · exact hdigits.1 (by rw [String.isEmpty_iff.1 hempty]; rfl)
  · cases hother

theorem mem_of_child? {items : List Json} {key : String} {v : Json}
    (h : child? (.array items) key = some v) : v ∈ items ∧ ∃ i, index? key = some i := by
  obtain ⟨i, hi, hv⟩ := Option.bind_eq_some_iff.1 h
  exact ⟨List.mem_of_getElem? hv, i, hi⟩

end Pointer

namespace Graph

/-- A container next to at most `null` is what is behind the union. -/
theorem eq_of_nullableInner? {g : Graph} {t u r : NodeId} {members : SortedSet NodeId}
    (ht : g.shape t = .union (some members)) (hu : u ∈ members)
    (hnull : g.primitive? u ≠ some .null) (hr : g.nullableInner? t = some r) : r = u := by
  unfold nullableInner? at hr
  rw [ht] at hr
  dsimp only at hr
  split at hr
  · next hmembers hothers =>
    obtain rfl := Option.some.inj hr
    have hmem : u ∈ members.toList.filter fun m => g.primitive? m != some .null :=
      List.mem_filter.2 ⟨SortedSet.mem_iff.1 hu, bne_iff_ne.2 hnull⟩
    rw [hothers, List.mem_singleton] at hmem
    exact hmem.symm
  · cases hr

theorem ne_none_of_step {g : Graph} {t u : NodeId} {key : String}
    (h : Inference.step g t key = .ok u) : g.shape t ≠ .intersection none ∧
      (∀ members, g.shape t ≠ .union members) ∧ g.primitive? t = none := by
  unfold Inference.step at h
  unfold primitive?
  split at h <;> simp_all [Shape.primitive?]

end Graph

namespace Inference

open Sighting

variable {settings : Settings} {s s₁ : Inference} {top t u r : NodeId} {reference : String}

theorem FillFirstEnds.of_ready {o : Ending Unit} (h : FillFirstEnds top reference t s o)
    (hready : s.graph.shape t ≠ .intersection none) : o = (.ok (), s) := by
  cases h with
  | ready _ => rfl
  | cycle hempty _ => exact absurd hempty hready
  | fills hempty _ _ => exact absurd hempty hready

theorem SeeThroughEnds.of_container {seen : List NodeId} {o : Ending NodeId} {key : String}
    (h : SeeThroughEnds top reference seen u s o) (hstep : step s.graph u key = .ok r) :
    o = (.ok u, s) := by
  obtain ⟨hready, hunion, -⟩ := Graph.ne_none_of_step hstep
  cases h with
  | stops hfirst => cases hfirst.of_ready hready
  | again hfirst _ =>
    cases hfirst.of_ready hready
    rfl
  | behind hfirst _ hbehind _ =>
    cases hfirst.of_ready hready
    exact absurd ((Graph.behind?_of_step hstep).symm.trans hbehind) nofun
  | intoUnion hfirst _ _ hshape =>
    cases hfirst.of_ready hready
    exact absurd hshape (hunion _)
  | stays hfirst _ _ _ =>
    cases hfirst.of_ready hready
    rfl

/-- A container that the type offers is seen, unless it stands in a union that is not nullable. -/
theorem SeeThroughEnds.of_offers {o : Ending NodeId} {key : String}
    (h : SeeThroughEnds top reference [] t s₁ o) (hoffers : s.Offers t u)
    (hfills : s.graph.Fills s₁.graph) (hstep : step s₁.graph u key = .ok r) :
    o = (.ok u, s₁) ∨ o = (.error (.badReference reference .intoUnion), s₁) := by
  rcases hoffers with rfl | ⟨types, hshape, hu⟩
  · exact .inl (h.of_container hstep)
  have hunion : s₁.graph.shape t = .union (some types) := hfills.shape_eq hshape.2 nofun
  have hready : s₁.graph.shape t ≠ .intersection none := by
    rw [hunion]
    exact nofun
  cases h with
  | stops hfirst => cases hfirst.of_ready hready
  | again _ hmem => cases hmem
  | @behind _ _ _ inner _ _ _ hfirst _ hbehind hsees =>
    cases hfirst.of_ready hready
    have hinner : s₁.graph.nullableInner? t = some inner := by
      rwa [Graph.behind?, hunion] at hbehind
    -- A container is not `null`, so it is the type that the union makes nullable.
    have hnull : s₁.graph.primitive? u ≠ some .null := by
      rw [(Graph.ne_none_of_step hstep).2.2]
      exact (Option.some_ne_none _).symm
    obtain rfl := Graph.eq_of_nullableInner? hunion hu hnull hinner
    exact .inl (hsees.of_container hstep)
  | intoUnion hfirst _ _ _ =>
    cases hfirst.of_ready hready
    exact .inr rfl
  | stays hfirst _ _ hnot =>
    cases hfirst.of_ready hready
    exact absurd hunion (hnot _)

theorem DescendEnds.of_offers {o : Ending NodeId} {key : String} {rest : List String}
    (h : DescendEnds top reference (key :: rest) t s₁ o) (hoffers : s.Offers t u)
    (hfills : s.graph.Fills s₁.graph) (hstep : step s₁.graph u key = .ok r) :
    DescendEnds top reference rest r s₁ o ∨
      o = (.error (.badReference reference .intoUnion), s₁) := by
  cases h with
  | stops hsees =>
    rcases hsees.of_offers hoffers hfills hstep with hok | hunion
    · cases hok
    · cases hunion
      exact .inr rfl
  | noWay hsees hnone =>
    rcases hsees.of_offers hoffers hfills hstep with hok | hunion
    · cases hok
      exact absurd (hstep.symm.trans hnone) nofun
    · cases hunion
  | into hsees hinto hrest =>
    rcases hsees.of_offers hoffers hfills hstep with hok | hunion
    · cases hok
      obtain rfl := Except.ok.inj (hstep.symm.trans hinto)
      exact .inl hrest
    · cases hunion

theorem Shows.fits {fuel : Nat} {xs : List Sighting} (h : s.Shows settings fuel xs t)
    {x : Sighting} (hx : x ∈ xs) (hdepth : x.value.depth < fuel) : s.Fits settings t x.value := by
  cases fuel with
  | zero => exact absurd hdepth (Nat.not_lt_zero _)
  | succ fuel => exact h.1 x hx hdepth

/-- Where a pointer reaches a value of some sample, the walk leads to a type that has it, unless it
goes through a union that is not nullable. -/
theorem descends_of_reaches {fuel : Nat} {xs ys : List Sighting} {v w : Json} {path : List String}
    {o : Ending NodeId} (h : Reaches settings xs v path ys w) (hshows : s.Shows settings fuel xs t)
    (hv : ∃ x ∈ xs, x.value = v) (hdepth : v.depth < fuel) (hfills : s.graph.Fills s₁.graph)
    (hends : DescendEnds top reference path t s₁ o) :
    (∃ u, o = (.ok u, s₁) ∧ s.Fits settings u w) ∨
      o = (.error (.badReference reference .intoUnion), s₁) := by
  induction h generalizing fuel t with
  | here =>
    cases hends with
    | here =>
      obtain ⟨x, hx, rfl⟩ := hv
      exact .inl ⟨t, rfl, hshows.fits hx hdepth⟩
  | @item xs ys items key rest v w hchild _ ih =>
    obtain ⟨x, hx, hvalue⟩ := hv
    obtain ⟨hmem, i, hindex⟩ := Pointer.mem_of_child? hchild
    have hitems : items ∈ arrays xs :=
      List.mem_filterMap.2 ⟨x, hx, by rw [items?, hvalue]; rfl⟩
    cases fuel with
    | zero => exact absurd hdepth (Nat.not_lt_zero _)
    | succ fuel =>
      obtain ⟨u, hoffers, r, hshape, hr⟩ := hshows.2.2 (List.ne_nil_of_mem hitems)
      have hstep : step s₁.graph u key = .ok r := by
        have hshape' : s₁.graph.shape u = .array r := hfills.shape_eq hshape.2 (by simp)
        simp only [step, hshape', if_neg (Pointer.isIndex_of_index? hindex)]
      have hinner : v.depth < fuel := by
        rw [Json.depth] at hdepth
        exact Nat.lt_of_le_of_lt (Json.depthItems_le_iff.1 (Nat.le_refl _) v hmem)
          (Nat.lt_of_succ_lt_succ hdepth)
      have hposition : ∃ y ∈ Sighting.ofArrays (arrays xs), y.value = v :=
        ⟨⟨false, v⟩, List.mem_map_of_mem (List.mem_flatten.2 ⟨items, hitems, hmem⟩), rfl⟩
      rcases hends.of_offers hoffers hfills hstep with hrest | hunion
      · exact ih hr hposition hinner hrest
      · exact .inr hunion
  | @member xs ys members key rest v w htargets hmem _ ih =>
    obtain ⟨x, hx, hvalue⟩ := hv
    have hmembers : members ∈ objects xs :=
      List.mem_filterMap.2 ⟨x, hx, by rw [members?, hvalue]⟩
    cases fuel with
    | zero => exact absurd hdepth (Nat.not_lt_zero _)
    | succ fuel =>
      obtain ⟨u, hoffers, hu⟩ := hshows.2.1 (List.ne_nil_of_mem hmembers)
      rw [ShowsObjects, htargets] at hu
      obtain ⟨r, hstep, hr⟩ := hu key (mem_keys hmembers hmem)
      have hinner : v.depth < fuel := by
        rw [Json.depth] at hdepth
        exact Nat.lt_of_le_of_lt (Json.depthMembers_le_iff.1 (Nat.le_refl _) (key, v) hmem)
          (Nat.lt_of_succ_lt_succ hdepth)
      have hposition : ∃ y ∈ inside settings (objects xs) key, y.value = v :=
        ⟨_, mem_inside hmembers hmem, rfl⟩
      rcases hends.of_offers hoffers hfills (hfills.step hstep) with hrest | hunion
      · exact ih hr hposition hinner hrest
      · exact .inr hunion

theorem exists_shows_of_position {fuel : Nat} {values : List Json}
    (hshows : s.Shows settings fuel (whole values) t) (hdepth : ∀ v ∈ values, v.depth < fuel)
    {xs : List Sighting} (hxs : Position settings values xs) :
    ∃ fuel u, s.Shows settings fuel xs u ∧ ∀ x ∈ xs, x.value.depth < fuel := by
  induction hxs with
  | whole => exact ⟨fuel, t, hshows, List.forall_mem_map.2 hdepth⟩
  | @items xs _ hne ih =>
    obtain ⟨fuel, u, hu, hbelow⟩ := ih
    obtain ⟨items, hitems⟩ := List.exists_mem_of_ne_nil _ hne
    obtain ⟨x, hx, -⟩ := List.mem_filterMap.1 hitems
    cases fuel with
    | zero => exact absurd (hbelow x hx) (Nat.not_lt_zero _)
    | succ fuel =>
      obtain ⟨-, -, r, -, hr⟩ := hu.2.2 hne
      refine ⟨fuel, r, hr, List.forall_mem_map.2 fun v hv => ?_⟩
      obtain ⟨items, hitems, hv⟩ := List.mem_flatten.1 hv
      exact depth_lt_of_mem_arrays hbelow items hitems v hv
  | @inside xs key _ htargets hkey ih =>
    obtain ⟨fuel, u, hu, hbelow⟩ := ih
    obtain ⟨members, hmembers, -⟩ := List.mem_flatMap.1 (SortedSet.mem_ofList.1 hkey)
    obtain ⟨x, hx, -⟩ := List.mem_filterMap.1 hmembers
    cases fuel with
    | zero => exact absurd (hbelow x hx) (Nat.not_lt_zero _)
    | succ fuel =>
      obtain ⟨u, -, hparts⟩ := hu.2.1 (List.ne_nil_of_mem hmembers)
      rw [ShowsObjects, htargets] at hparts
      obtain ⟨r, -, hr⟩ := hparts key hkey
      refine ⟨fuel, r, hr, fun y hy => ?_⟩
      obtain ⟨members, hmembers, m, hm, rfl⟩ := exists_of_mem_inside hy
      exact depth_lt_of_mem_objects hbelow members hmembers m hm

/-- Where all objects are references, a type waits for them. -/
theorem exists_pending_of_position {fuel : Nat} {values : List Json}
    (hshows : s.Shows settings fuel (whole values) t) (hdepth : ∀ v ∈ values, v.depth < fuel)
    {xs : List Sighting} (hxs : Position settings values xs) {targets : SortedSet String}
    (htargets : targets? settings (objects xs) = some targets) :
    ∃ u, s.pending.find? u = some targets := by
  obtain ⟨fuel, t, ht, hbelow⟩ := exists_shows_of_position hshows hdepth hxs
  have hne := Sighting.ne_nil_of_targets? htargets
  obtain ⟨members, hmembers⟩ := List.exists_mem_of_ne_nil _ hne
  obtain ⟨x, hx, -⟩ := List.mem_filterMap.1 hmembers
  cases fuel with
  | zero => exact absurd (hbelow x hx) (Nat.not_lt_zero _)
  | succ fuel =>
    obtain ⟨u, -, hu⟩ := ht.2.1 hne
    rw [ShowsObjects, htargets] at hu
    exact ⟨u, hu⟩

/-- Wherever the reference is followed from now on, it is refused at a union only. -/
def OnlyIntoUnion (top : NodeId) (reference : String) (s : Inference) : Prop :=
  ∀ s₁ o, s.graph.Fills s₁.graph → FollowEnds top reference s₁ o →
    (∃ u, o = (.ok u, s₁)) ∨ o = (.error (.badReference reference .intoUnion), s₁)

theorem OnlyIntoUnion.mono (h : OnlyIntoUnion top reference s) (hfills : s.graph.Fills s₁.graph) :
    OnlyIntoUnion top reference s₁ :=
  fun s₂ o hfills' hends => h s₂ o (hfills.trans hfills') hends

mutual

theorem FillEnds.problem_eq {top t : NodeId} {reference : String} {problem : PathProblem}
    {s s' : Inference} {o : Ending Unit} (h : FillEnds top t s o) (hs : s.Wf)
    (honly : OnlyIntoUnion top reference s)
    (ho : o = (.error (.badReference reference problem), s')) : problem = .intoUnion :=
  match h, ho with
  | .stops _ hfollows, rfl =>
    hfollows.problem_eq (hs.erase t) honly rfl

theorem FollowAllEnds.problem_eq {top : NodeId} {reference : String} {problem : PathProblem}
    {others : List String} {s s' : Inference} {o : Ending (List NodeId)}
    (h : FollowAllEnds top others s o) (hs : s.Wf) (honly : OnlyIntoUnion top reference s)
    (ho : o = (.error (.badReference reference problem), s')) : problem = .intoUnion :=
  match h, ho with
  | .stops hfirst, rfl => hfirst.problem_eq hs honly rfl
  | .stopsLater hfirst hrest, rfl =>
    have hsettled := (hfirst.settled hs rfl).1
    hrest.problem_eq (hsettled.wf hs) (honly.mono (hsettled.fills hs)) rfl

/-- The reference itself is refused at a union only, and where another one is followed, this one is
refused only if it is followed on the way. -/
theorem FollowEnds.problem_eq {top : NodeId} {reference other : String} {problem : PathProblem}
    {s s' : Inference} {o : Ending NodeId} (h : FollowEnds top other s o) (hs : s.Wf)
    (honly : OnlyIntoUnion top reference s)
    (ho : o = (.error (.badReference reference problem), s')) : problem = .intoUnion := by
  by_cases hsame : other = reference
  · subst hsame
    rcases honly s o (.refl _) h with ⟨u, hok⟩ | hunion
    · cases ho.symm.trans hok
    · cases ho.symm.trans hunion
      rfl
  · exact match h, ho with
    | .notRooted _, rfl => absurd rfl hsame
    | .rooted _ hdescends, ho => hdescends.problem_eq hsame hs honly ho

theorem DescendEnds.problem_eq {top t : NodeId} {reference other : String} {problem : PathProblem}
    {path : List String} {s s' : Inference} {o : Ending NodeId}
    (h : DescendEnds top other path t s o) (hother : other ≠ reference) (hs : s.Wf)
    (honly : OnlyIntoUnion top reference s)
    (ho : o = (.error (.badReference reference problem), s')) : problem = .intoUnion :=
  match h, ho with
  | .stops hsees, rfl => hsees.problem_eq hother hs honly rfl
  | .noWay _ _, rfl => absurd rfl hother
  | .into hsees _ hrest, ho =>
    have hsettled := (hsees.settled hs rfl).1
    hrest.problem_eq hother (hsettled.wf hs) (honly.mono (hsettled.fills hs)) ho

theorem SeeThroughEnds.problem_eq {top t : NodeId} {reference other : String}
    {problem : PathProblem} {seen : List NodeId} {s s' : Inference} {o : Ending NodeId}
    (h : SeeThroughEnds top other seen t s o) (hother : other ≠ reference) (hs : s.Wf)
    (honly : OnlyIntoUnion top reference s)
    (ho : o = (.error (.badReference reference problem), s')) : problem = .intoUnion :=
  match h, ho with
  | .stops hfirst, rfl => hfirst.problem_eq hother hs honly rfl
  | .behind hfirst _ _ hsees, ho =>
    have hsettled := (hfirst.settled hs rfl).1
    hsees.problem_eq hother (hsettled.wf hs) (honly.mono (hsettled.fills hs)) ho
  | .intoUnion _ _ _ _, rfl => rfl

theorem FillFirstEnds.problem_eq {top t : NodeId} {reference other : String}
    {problem : PathProblem} {s s' : Inference} {o : Ending Unit}
    (h : FillFirstEnds top other t s o) (hother : other ≠ reference) (hs : s.Wf)
    (honly : OnlyIntoUnion top reference s)
    (ho : o = (.error (.badReference reference problem), s')) : problem = .intoUnion :=
  match h, ho with
  | .cycle _ _, rfl => absurd rfl hother
  | .fills _ _ hfills, ho => hfills.problem_eq hs honly ho

end

theorem ResolveEnds.problem_eq {problem : PathProblem} {s' : Inference}
    (h : ResolveEnds top s (.error (.badReference reference problem), s'))
    (hs : s.Wf) (honly : OnlyIntoUnion top reference s) : problem = .intoUnion := by
  have hall : ∀ (order : List NodeId) (s : Inference), s.Wf → OnlyIntoUnion top reference s →
      FillAllEnds top order s (.error (.badReference reference problem), s') →
        problem = .intoUnion := by
    intro order
    induction order with
    | nil => intro s _ _ h; cases h
    | cons t rest ih =>
      intro s hs honly h
      cases h with
      | stops hfirst => exact hfirst.problem_eq hs honly rfl
      | more hfirst hrest =>
        have hsettled := (hfirst.settled hs rfl).1
        exact ih _ (hsettled.wf hs) (honly.mono (hsettled.fills hs)) hrest
  exact hall _ s hs honly h

/-! ### Final graphs -/

/-- What has a value while references wait has it when they are resolved. -/
theorem Fits.resolved {v : Json} {g : Graph} (h : s.Fits settings t v) (hfills : s.graph.Fills g)
    (hsolves : Solves top s g) : g.Instance (g.Targets top) t v := by
  refine Graph.Instance.mono (fun t shape ht _ hne => hfills.shape_eq ht (hne none)) ?_ h
  rintro t reference ⟨-, targets, hpending, hmem⟩
  obtain ⟨members, hshape, -, -, hright⟩ := (hsolves t targets hpending).mem_iff
  obtain ⟨r, hr, hrefers⟩ := hright reference hmem
  exact ⟨members, r, hshape, hr, hrefers⟩

theorem followEnds_of_wf {fuel : Nat} (top : NodeId) (reference : String) (hs : s.Wf)
    (hfuel : s.pending.size ≤ fuel) :
    FollowEnds top reference s (outcome (follow (fill top fuel) top reference) s) :=
  followEnds_follow (fun t _ ht => fillEnds_fill top t ht) reference hs hfuel

end Inference

namespace Collection

open Sighting

/-- A solving that fails at a reference fails while references are resolved. -/
theorem solve_bad {c : Collection} {graph g : Graph} {name reference : String}
    {problem : PathProblem}
    (h : c.solve graph name = (g, .error (.badReference reference problem))) :
    ∃ top s s', (Inference.typeOf c.recorder.table c.roots (.givenName name)).run (.start graph) =
        (top, s) ∧ outcome (Inference.resolvePending top) s =
          (.error (.badReference reference problem), s') := by
  cases hroots : c.roots.isEmpty with
  | true => cases (solve_of_no_samples hroots graph name).symm.trans h
  | false =>
    obtain ⟨top, s, result, s', hinferred, hresolved⟩ := exists_runs c graph name
    rw [solve_of_runs hroots hinferred hresolved] at h
    cases result with
    | error e =>
      cases h
      exact ⟨top, s, s', hinferred, hresolved⟩
    | ok _ =>
      dsimp only at h
      split at h <;> cases h

/-- A reference stands at a position whose objects are all references, and as a pointer it reaches a
value of some sample without going into such an object. When the samples are solved, the type that
it refers to has this value, and is a member of an intersection. Following the reference, at any
time while references are resolved, leads to a type without anything being filled, or fails at a
union that is not nullable; solving fails for the reference in no other way. -/
theorem solve_follows_pointers {settings : Settings} {values : List Json} {c : Collection}
    (hobserved : Observed settings values c) (graph : Graph) (name : String)
    {xs ys : List Sighting} {targets : SortedSet String} {reference : String}
    {path : List String} {sample v : Json} (hposition : Position settings values xs)
    (htargets : targets? settings (objects xs) = some targets) (href : reference ∈ targets)
    (hpath : Inference.segments? reference = some path) (hsample : sample ∈ values)
    (hreaches : Reaches settings (whole values) sample path ys v) :
    (∀ g top, c.solve graph name = (g, .ok top) →
      ∃ u members t, g.shape u = .intersection (some members) ∧ t ∈ members ∧
        g.RefersTo top reference t ∧ g.Instance (g.Targets top) t v) ∧
    (∀ g problem, c.solve graph name = (g, .error (.badReference reference problem)) →
      problem = .intoUnion) ∧
    ∀ top s s', (Inference.typeOf c.recorder.table c.roots (.givenName name)).run (.start graph) =
        (top, s) → Inference.Settled top s s' → ∀ fuel, s'.pending.size ≤ fuel →
      (∃ t, outcome (Inference.follow (Inference.fill top fuel) top reference) s' = (.ok t, s')) ∨
        outcome (Inference.follow (Inference.fill top fuel) top reference) s' =
          (.error (.badReference reference .intoUnion), s') := by
  have hdepth : ∀ v ∈ values, v.depth < c.recorder.table.rows + 1 := fun v hv =>
    Nat.lt_succ_of_le (hobserved.keeps.depth v hv)
  have hinfer : ∀ top s, (Inference.typeOf c.recorder.table c.roots (.givenName name)).run
        (.start graph) = (top, s) →
      s.Wf ∧ s.Shows settings (c.recorder.table.rows + 1) (whole values) top := by
    intro top s hinferred
    rw [hobserved.keeps.typeOf_eq] at hinferred
    obtain ⟨hwf, -, hshows⟩ := Inference.builds_shows settings (c.recorder.table.rows + 1)
      (whole values) (.givenName name) (.start graph) (start_wf graph)
    rw [whole, hinferred] at hwf hshows
    exact ⟨hwf, hshows⟩
  have hfollow : ∀ {top : NodeId} {s s₁ : Inference} {o : Inference.Ending NodeId},
      s.Shows settings (c.recorder.table.rows + 1) (whole values) top →
      s.graph.Fills s₁.graph → Inference.FollowEnds top reference s₁ o →
        (∃ t, o = (.ok t, s₁) ∧ s.Fits settings t v) ∨
          o = (.error (.badReference reference .intoUnion), s₁) := by
    intro top s s₁ o hshows hfills hends
    cases hends with
    | notRooted hnone => exact absurd (hpath.symm.trans hnone) nofun
    | rooted hsegments hdescends =>
      obtain rfl := Option.some.inj (hpath.symm.trans hsegments)
      exact Inference.descends_of_reaches hreaches hshows
        ⟨⟨false, sample⟩, List.mem_map_of_mem hsample, rfl⟩ (hdepth sample hsample) hfills hdescends
  refine ⟨fun g top hsolve => ?_, fun g problem hsolve => ?_, ?_⟩
  · obtain ⟨s, s', hinferred, hresolved, hpublished⟩ := solve_ok hsolve
    obtain ⟨hwf, hshows⟩ := hinfer top s hinferred
    have hends := Inference.resolveEnds_resolvePending top hwf
    rw [hresolved] at hends
    obtain ⟨hsettled, hnone⟩ := hends.settled hwf
    have hpublish : s'.graph.Fills g := fun t => .inl (Graph.shape_publish? hpublished t)
    have hsolves := hsettled.solves hwf hnone
    obtain ⟨u, hu⟩ := Inference.exists_pending_of_position hshows hdepth hposition htargets
    obtain ⟨members, hshape, -, -, hright⟩ := (hsolves u targets hu).mem_iff
    obtain ⟨t, ht, hrefers⟩ := hright reference href
    have hwalk := Inference.followEnds_of_wf top reference (hsettled.wf hwf)
      (Nat.le_refl s'.pending.size)
    rw [Inference.outcome_follow_of_refersTo (hsettled.wf hwf) hnone hrefers] at hwalk
    rcases hfollow hshows (hsettled.fills hwf) hwalk with ⟨t', hok, hfits⟩ | hunion
    · cases hok
      refine ⟨u, members, t, hpublish.shape_eq hshape nofun, ht, hrefers.mono hpublish, ?_⟩
      exact hfits.resolved ((hsettled.fills hwf).trans hpublish) fun u targets hu =>
        (hsolves u targets hu).mono hpublish
    · cases hunion
  · obtain ⟨top, s, s', hinferred, hresolved⟩ := solve_bad hsolve
    obtain ⟨hwf, hshows⟩ := hinfer top s hinferred
    have hends := Inference.resolveEnds_resolvePending top hwf
    rw [hresolved] at hends
    refine hends.problem_eq hwf fun s₁ o hfills hwalk => ?_
    rcases hfollow hshows hfills hwalk with ⟨t, hok, -⟩ | hunion
    · exact .inl ⟨t, hok⟩
    · exact .inr hunion
  · intro top s s' hinferred hsettled fuel hfuel
    obtain ⟨hwf, hshows⟩ := hinfer top s hinferred
    have hwalk := Inference.followEnds_of_wf top reference (hsettled.wf hwf) hfuel
    rcases hfollow hshows (hsettled.fills hwf) hwalk with ⟨t, hok, -⟩ | hunion
    · exact .inl ⟨t, hok⟩
    · exact .inr hunion

/-- An item that refers to itself. -/
def looping : Json :=
  .object [("v", .number (.integer 1)), ("next", .object [("$ref", .string "#/items/0")])]

/-- A sample with this item. -/
def looped : Json := .object [("items", .array [looping])]

theorem solve_follows_pointers_looped :
    ∃ c g top, Observed { handleRefs := true } [looped] c ∧ c.solve .empty "T" = (g, .ok top) ∧
      ∃ u members t, g.shape u = .intersection (some members) ∧ t ∈ members ∧
        g.RefersTo top "#/items/0" t ∧ g.Instance (g.Targets top) t looping := by
  have hrun : (match (Collection.empty { handleRefs := true }).observeDocument looped with
      | .ok c => (c.solve .empty "T").2.toOption.isSome
      | .error _ => false) = true := by decide +kernel
  split at hrun
  · next c hc =>
    have hobserved : Observed { handleRefs := true } [looped] c := .document .empty hc
    have hitems : Position { handleRefs := true } [looped]
        (inside { handleRefs := true } (objects (whole [looped])) "items") :=
      Position.whole.inside rfl (mem_keys List.mem_cons_self List.mem_cons_self)
    have hitem : Position { handleRefs := true } [looped] [⟨false, looping⟩] :=
      hitems.items (List.cons_ne_nil _ _)
    have hnext : Position { handleRefs := true } [looped]
        (inside { handleRefs := true } (objects [⟨false, looping⟩]) "next") :=
      hitem.inside rfl (mem_keys List.mem_cons_self (List.mem_cons_of_mem _ List.mem_cons_self))
    have hreaches : Reaches { handleRefs := true } (whole [looped]) looped ["items", "0"]
        [⟨false, looping⟩] looping :=
      .member rfl List.mem_cons_self (.item rfl .here)
    have hall := solve_follows_pointers hobserved .empty "T" hnext rfl
      (SortedSet.mem_ofList.2 List.mem_cons_self) (by decide) List.mem_cons_self hreaches
    rcases hsolve : c.solve .empty "T" with ⟨g, e | top⟩
    · rw [hsolve] at hrun
      cases hrun
    · exact ⟨c, g, top, hobserved, hsolve, hall.1 g top hsolve⟩
  · cases hrun

end Collection

end JsonTyping
