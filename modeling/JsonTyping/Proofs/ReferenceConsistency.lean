import JsonTyping.Proofs.InferenceInvariants
import JsonTyping.Proofs.ReferenceProgress

/-!
# What resolved references end in

Resolving the references that an inference leaves pending ends, and if it succeeds every
intersection that was made for references has as its members exactly the types that its references
refer to in the final graph. Following any of them again gives its member
(`Collection.resolvePending_consistent`).
-/

namespace JsonTyping

namespace Inference

/-- Without pending nodes nothing is left to do. -/
theorem Settled.eq_of_nothing {top : NodeId} {s s' : Inference} (h : Settled top s s')
    (hnone : s.pending = .empty) : s' = s := by
  rcases Relation.ReflTransGen.cases_head_iff.1 h with rfl | ⟨s₁, ⟨t, targets, -, ht, -⟩, -⟩
  · rfl
  · rw [hnone] at ht
    cases ht

/-- Where nothing is pending any more, following a reference gives the type that it refers to, and
changes nothing. -/
theorem outcome_follow_of_refersTo {top r : NodeId} {reference : String} {s : Inference}
    (hs : s.Wf) (hnone : s.pending = .empty) (hrefers : s.graph.RefersTo top reference r)
    (fuel : Nat) : outcome (follow (fill top fuel) top reference) s = (.ok r, s) := by
  have hsolves : Solves top s s.graph := fun t targets ht => by
    rw [hnone] at ht
    cases ht
  have hway : OnTheWay s s.graph s.graph s :=
    ⟨hs, .refl _, fun t targets ht => ht, fun t members hsome hempty => by
      cases hsome.symm.trans hempty⟩
  have hempty : s.pending.size ≤ fuel := by
    rw [hnone]
    exact Nat.zero_le fuel
  have hfill : ∀ t (s : Inference), s.Wf → s.pending.size ≤ fuel →
      FillEnds top t s (outcome (fill top fuel t) s) := fun t s hs => fillEnds_fill top t hs
  have hends := followEnds_follow hfill reference hs hempty
  obtain ⟨s', hs', -⟩ := hends.succeeds hsolves (.refl _) (fun s' t members o hs' _ hfill => by
    have hnone' : s'.pending.find? t = none := by
      cases hfound : s'.pending.find? t with
      | none => rfl
      | some targets =>
        have hstart := hs'.pending t targets hfound
        rw [hnone] at hstart
        cases hstart
    cases hfill with
    | done _ => exact ⟨s', rfl⟩
    | stops hfound _ => cases hfound.symm.trans hnone'
    | fills hfound _ _ => cases hfound.symm.trans hnone') hway hrefers
  obtain ⟨hsettled, -⟩ := hends.settled hs hs'
  rw [hs', hsettled.eq_of_nothing hnone]

/-- The members of a settled node are the types that its references refer to. -/
theorem SettledAt.mem_iff {top t : NodeId} {g : Graph} {targets : SortedSet String}
    (h : SettledAt top g t targets) :
    ∃ members, g.shape t = .intersection (some members) ∧
      (targets.toList ≠ [] → members.toList ≠ []) ∧
      (∀ r, r ∈ members ↔ ∃ reference ∈ targets, g.RefersTo top reference r) ∧
      ∀ reference ∈ targets, ∃ r ∈ members, g.RefersTo top reference r := by
  obtain ⟨rs, hshape, hrefer⟩ := h
  have hright : ∀ reference ∈ targets, ∃ r ∈ SortedSet.ofList rs, g.RefersTo top reference r := by
    intro reference href
    obtain ⟨r, hr, hrefers⟩ := exists_right_of_forall₂ hrefer (SortedSet.mem_iff.1 href)
    exact ⟨r, SortedSet.mem_ofList.2 hr, hrefers⟩
  refine ⟨.ofList rs, hshape, fun htargets => ?_, fun r => ⟨fun hr => ?_, ?_⟩, hright⟩
  · obtain ⟨reference, href⟩ := List.exists_mem_of_ne_nil _ htargets
    obtain ⟨r, hr, -⟩ := hright reference href
    exact List.ne_nil_of_mem (SortedSet.mem_iff.1 hr)
  · obtain ⟨reference, href, hrefers⟩ :=
      exists_left_of_forall₂ hrefer (SortedSet.mem_ofList.1 hr)
    exact ⟨reference, href, hrefers⟩
  · rintro ⟨reference, href, hrefers⟩
    obtain ⟨r', hr', hrefers'⟩ := hright reference href
    rwa [hrefers.unique hrefers']

end Inference

namespace Collection

theorem pendingFrom_of_typeOf {settings : Settings} {values : List Json} {c : Collection}
    (hobserved : Observed settings values c) {graph : Graph} {a : Attributes} {top : NodeId}
    {s : Inference}
    (hinferred : (Inference.typeOf c.recorder.table c.roots a).run (.start graph) = (top, s)) :
    Inference.PendingFrom graph.size s := by
  rw [hobserved.keeps.typeOf_eq] at hinferred
  have hpending := Inference.pendingFrom_ofSightings settings (c.recorder.table.rows + 1)
    (values.map (⟨false, ·⟩)) a (.start graph) (Inference.pendingFrom_start graph)
  rwa [hinferred] at hpending

/-- Resolving the references of any samples ends as it would without bounds. If it succeeds, nothing
is pending any more, and every intersection that the inference made has members: exactly the types
that its references refer to in the final graph. Following one of them again gives its member, and
changes nothing. -/
theorem resolvePending_consistent {settings : Settings} {values : List Json} {c : Collection}
    (hobserved : Observed settings values c) (graph : Graph) (a : Attributes) {top : NodeId}
    {s : Inference}
    (hinferred : (Inference.typeOf c.recorder.table c.roots a).run (.start graph) = (top, s)) :
    Inference.ResolveEnds top s (outcome (Inference.resolvePending top) s) ∧
    ∀ s', outcome (Inference.resolvePending top) s = (.ok (), s') →
      s'.pending = .empty ∧
      ∀ t, graph.size ≤ t → s.graph.shape t = .intersection none →
        ∃ targets members, s.pending.find? t = some targets ∧
          s'.graph.shape t = .intersection (some members) ∧ members.toList ≠ [] ∧
          (∀ r, r ∈ members ↔ ∃ reference ∈ targets, s'.graph.RefersTo top reference r) ∧
          ∀ reference ∈ targets, ∃ r ∈ members, ∀ fuel,
            outcome (Inference.follow (Inference.fill top fuel) top reference) s' =
              (.ok r, s') := by
  have hs := wf_of_typeOf hobserved hinferred
  have hpending := pendingFrom_of_typeOf hobserved hinferred
  have hends := Inference.resolveEnds_resolvePending top hs
  refine ⟨hends, fun s' hrun => ?_⟩
  rw [hrun] at hends
  obtain ⟨hsettled, hnone⟩ := hends.settled hs
  refine ⟨hnone, fun t hle ht => ?_⟩
  obtain ⟨targets, hfound⟩ := hpending.pending t none hle ht
  obtain ⟨members, hshape, hne, hmem, hright⟩ :=
    (hsettled.solves hs hnone t targets hfound).mem_iff
  refine ⟨targets, members, hfound, hshape, hne (hpending.references t targets hfound).2, hmem,
    fun reference href => ?_⟩
  obtain ⟨r, hr, hrefers⟩ := hright reference href
  exact ⟨r, hr, Inference.outcome_follow_of_refersTo (hsettled.wf hs) hnone hrefers⟩

/-- A list whose items refer to the first one of them. -/
def backward : Json :=
  .object [("items", .array
    [.object [("v", .number (.integer 1)), ("next", .object [("$ref", .string "#/items/0")])]])]

theorem resolvePending_consistent_backward :
    ∃ c top s s', Observed { handleRefs := true } [backward] c ∧
      (Inference.typeOf c.recorder.table c.roots .empty).run (.start .empty) = (top, s) ∧
      outcome (Inference.resolvePending top) s = (.ok (), s') ∧
      s.pending.keys = [0] ∧ s'.pending = .empty ∧
      ∃ members, s'.graph.shape 0 = .intersection (some members) ∧ members.toList ≠ [] := by
  have hrun : ((Collection.empty { handleRefs := true }).observeDocument backward).toOption.map
      (fun c =>
        let inferred := (Inference.typeOf c.recorder.table c.roots .empty).run (.start .empty)
        (inferred.2.pending.keys, decide (inferred.2.graph.shape 0 = .intersection none),
          (outcome (Inference.resolvePending inferred.1) inferred.2).1.toOption)) =
      some ([0], true, some ()) := by decide +kernel
  rcases hc : (Collection.empty { handleRefs := true }).observeDocument backward with e | c
  · rw [hc] at hrun
    cases hrun
  · rw [hc] at hrun
    replace hrun := Option.some.inj hrun
    dsimp only at hrun
    have hobserved : Observed { handleRefs := true } [backward] c := .document .empty hc
    rcases hinferred : (Inference.typeOf c.recorder.table c.roots .empty).run (.start .empty)
      with ⟨top, s⟩
    rw [hinferred] at hrun
    simp only [Prod.mk.injEq, decide_eq_true_eq] at hrun
    obtain ⟨hkeys, hshape, hok⟩ := hrun
    rcases hresolved : outcome (Inference.resolvePending top) s with ⟨e | _, s'⟩
    · rw [hresolved] at hok
      cases hok
    · obtain ⟨hnone, hall⟩ :=
        (resolvePending_consistent hobserved .empty .empty hinferred).2 s' hresolved
      obtain ⟨-, members, -, hmembers, hne, -⟩ := hall 0 (Nat.le_refl 0) hshape
      exact ⟨c, top, s, s', hobserved, hinferred, hresolved, hkeys, hnone, members, hmembers, hne⟩

end Collection

end JsonTyping
