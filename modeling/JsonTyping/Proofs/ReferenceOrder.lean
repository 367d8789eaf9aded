import JsonTyping.Proofs.ReferenceProgress

/-!
# The order in which references are resolved

The pending intersections can be filled in any order (`Inference.resolveInOrder`): in all orders the
resolution succeeds or in none, and when it succeeds it gives the same graph
(`Collection.resolveInOrder_agree`). What one order has filled up to some point is enough to fill
the next node in any other order, where the nodes on the way are filled when they are met
(`Inference.FillEnds.succeeds`).
-/

namespace JsonTyping

namespace Inference

/-- Fills these nodes one after the other. -/
def resolveInOrder (top : NodeId) (order : List NodeId) : ResolveM Unit :=
  order.forM (fill top order.length)

theorem outcome_resolvePending (top : NodeId) (s : Inference) :
    outcome (resolvePending top) s = outcome (resolveInOrder top s.pending.keys) s := by
  unfold resolvePending
  exact outcome_bind_of_ok (outcome_get s) _

theorem fillAllEnds_resolveInOrder (top : NodeId) {order : List NodeId} {s : Inference}
    (hs : s.Wf) (horder : order.Perm s.pending.keys) :
    FillAllEnds top order s (outcome (resolveInOrder top order) s) := by
  refine fillAllEnds_forM top order hs ?_
  rw [horder.length_eq, SortedMap.keys, List.length_map]
  exact Nat.le_refl _

section AnotherOrder

variable {top : NodeId} {start : Inference}

/-- Filling a node succeeds on the way to a final graph if some steps from the start fill it. -/
theorem FillEnds.succeeds {known s : Inference} {final : Graph} {t : NodeId}
    {members : SortedSet NodeId} {o : Ending Unit} (h : FillEnds top t s o) (hstart : start.Wf)
    (hsolves : Solves top start final) (hsettled : Settled top start known)
    (hknown : known.graph.Fills final) (hs : OnTheWay start known.graph final s)
    (ht : known.graph.shape t = .intersection (some members)) : ∃ s', o = (.ok (), s') := by
  -- By induction on the steps: the references of the node that is filled last lead through nodes
  -- only that were filled before.
  induction hsettled generalizing s t members o with
  | refl =>
    cases h with
    | done _ => exact ⟨s, rfl⟩
    | stops hfound _ =>
      have hempty := hstart t _ (hs.pending t _ hfound)
      exact absurd (hempty.symm.trans ht) nofun
    | fills _ _ _ => exact ⟨_, rfl⟩
  | @tail before after hbefore hstep ih =>
    obtain ⟨u, hstep⟩ := hstep
    have hwf := Settled.wf hbefore hstart
    have hfills := hstep.fills hwf
    by_cases htu : t = u
    · subst htu
      obtain ⟨hempty, -⟩ := hstep.shape_self hwf
      obtain ⟨targets, rs, hpending, hrefer, -, -⟩ := hstep
      cases h with
      | done _ => exact ⟨s, rfl⟩
      | stops hfound hfollows =>
        have hsame := (hs.pending t _ hfound).symm.trans (Settled.pending hbefore hpending)
        obtain rfl := Option.some.inj hsame
        obtain ⟨s', hs', -⟩ := hfollows.succeeds hsolves (hfills.trans hknown)
          (fun s t members o hs ht h => ih h (hfills.trans hknown) hs ht)
          (hs.erase t hfills hempty) hrefer
        cases hs'
      | fills _ _ _ => exact ⟨_, rfl⟩
    · rw [hstep.shape t htu] at ht
      refine ih h (hfills.trans hknown) ⟨hs.wf, hs.fills, hs.pending, fun x ms hx hempty => ?_⟩ ht
      exact hs.ready x ms (hfills.shape_eq hx nofun) hempty

variable {s' : Inference} (hstart : start.Wf) (hsettled : Settled top start s')

include hstart hsettled

/-- Between two nodes that are filled none is just being filled: what has no members is pending. -/
theorem onTheWay_of_settled {s : Inference} (hs : Settled top start s)
    (hfills : s.graph.Fills s'.graph) : OnTheWay start s'.graph s'.graph s where
  wf := hs.wf hstart
  fills := hfills
  pending t targets ht := hs.pending ht
  ready t members hknown hempty := by
    cases hfound : s.pending.find? t with
    | some targets => exact ⟨targets, rfl⟩
    | none =>
      cases hfirst : start.pending.find? t with
      | none =>
        have hsame := hsettled.shape_of_not_pending hfirst
        rw [hknown, ← hs.shape_of_not_pending hfirst, hempty] at hsame
        cases hsame
      | some targets =>
        rcases hs.settledAt hstart hfirst with hpending | ⟨ms, hshape, -⟩
        · exact absurd (hfound.symm.trans hpending) nofun
        · exact absurd (hempty.symm.trans hshape) nofun

variable (hnone : s'.pending = .empty)

include hnone

/-- If some steps from the start fill all that is pending, then filling it in any order succeeds. -/
theorem FillAllEnds.succeeds {order : List NodeId} {s : Inference} {o : Ending Unit}
    (h : FillAllEnds top order s o) (horder : ∀ t ∈ order, t ∈ start.pending.keys)
    (hs : Settled top start s) (hfills : s.graph.Fills s'.graph) :
    ∃ s'', o = (.ok (), s'') ∧ Settled top start s'' ∧ s''.graph.Fills s'.graph := by
  have hsolves := hsettled.solves hstart hnone
  induction order generalizing s with
  | nil =>
    cases h
    exact ⟨s, rfl, hs, hfills⟩
  | cons t rest ih =>
    have hway := onTheWay_of_settled hstart hsettled hs hfills
    obtain ⟨targets, ht⟩ := SortedMap.mem_keys.1 (horder t List.mem_cons_self)
    obtain ⟨members, hshape, -⟩ := hsolves t targets ht
    have hfirst : ∀ o', FillEnds top t s o' → ∃ s'', o' = (.ok (), s'') := fun o' hfill =>
      hfill.succeeds hstart hsolves hsettled (.refl _) hway hshape
    cases h with
    | stops hfill =>
      obtain ⟨s'', hs''⟩ := hfirst _ hfill
      cases hs''
    | more hfill hrest =>
      obtain ⟨hsteps, -⟩ := hfill.settled hway.wf rfl
      exact ih hrest (fun u hu => horder u (List.mem_cons_of_mem t hu)) (hs.trans hsteps)
        (hway.settled hsolves hsteps).fills

/-- Steps from the start that leave nothing pending lead to one state only. -/
theorem Settled.eq_of_fills {s'' : Inference} (h : Settled top start s'')
    (hnone' : s''.pending = .empty) (hfills : s''.graph.Fills s'.graph) : s'' = s' := by
  have hshape : ∀ t, s''.graph.shape t = s'.graph.shape t := by
    intro t
    rcases hfills t with hsame | ⟨hempty, members, hsome⟩
    · exact hsame.symm
    · have hready := (onTheWay_of_settled hstart hsettled h hfills).ready t members hsome
      obtain ⟨targets, hpending⟩ := hready hempty
      rw [hnone'] at hpending
      cases hpending
  have hgraph : s''.graph = s'.graph :=
    (hsettled.sameFrame.symm.trans h.sameFrame).eq hshape
  obtain ⟨graph, pending⟩ := s'
  obtain ⟨graph', pending'⟩ := s''
  obtain rfl : graph' = graph := hgraph
  obtain rfl : pending = .empty := hnone
  obtain rfl : pending' = .empty := hnone'
  rfl

end AnotherOrder

/-- If filling what is pending succeeds in one order, it does in any other, and ends in the same
state. -/
theorem outcome_resolveInOrder_of_perm {top : NodeId} {order order' : List NodeId}
    {s s' : Inference} (hs : s.Wf) (horder : order.Perm s.pending.keys)
    (horder' : order'.Perm s.pending.keys)
    (hrun : outcome (resolveInOrder top order) s = (.ok (), s')) :
    outcome (resolveInOrder top order') s = (.ok (), s') := by
  have hends := fillAllEnds_resolveInOrder top hs horder
  rw [hrun] at hends
  obtain ⟨hsettled, hall⟩ := hends.settled hs
  have hnone := hsettled.pending_eq_empty fun t ht => hall t (horder.mem_iff.2 ht)
  have hends' := fillAllEnds_resolveInOrder top hs horder'
  obtain ⟨s'', hs'', hsettled', hfills⟩ := hends'.succeeds hs hsettled hnone
    (fun t ht => horder'.mem_iff.1 ht) (.refl s) (hsettled.fills hs)
  rw [hs''] at hends' ⊢
  obtain ⟨-, hall'⟩ := hends'.settled hs
  have hnone' := hsettled'.pending_eq_empty fun t ht => hall' t (horder'.mem_iff.2 ht)
  rw [Settled.eq_of_fills hs hsettled hnone hsettled' hnone' hfills]

end Inference

namespace Collection

/-- The references of any samples can be resolved in any order: either all orders succeed or none
does, and the graph in the end is the same. -/
theorem resolveInOrder_agree {settings : Settings} {values : List Json} {c : Collection}
    (hobserved : Observed settings values c) (graph : Graph) (a : Attributes) {top : NodeId}
    {s : Inference}
    (hinferred : (Inference.typeOf c.recorder.table c.roots a).run (.start graph) = (top, s))
    {order order' : List NodeId} (horder : order.Perm s.pending.keys)
    (horder' : order'.Perm s.pending.keys) :
    ((∃ s₁, outcome (Inference.resolveInOrder top order) s = (.ok (), s₁)) ↔
      ∃ s₂, outcome (Inference.resolveInOrder top order') s = (.ok (), s₂)) ∧
    ∀ s₁ s₂, outcome (Inference.resolveInOrder top order) s = (.ok (), s₁) →
      outcome (Inference.resolveInOrder top order') s = (.ok (), s₂) → s₁.graph = s₂.graph := by
  have hs := wf_of_typeOf hobserved hinferred
  refine ⟨⟨?_, ?_⟩, fun s₁ s₂ h₁ h₂ => ?_⟩
  · rintro ⟨s₁, h₁⟩
    exact ⟨s₁, Inference.outcome_resolveInOrder_of_perm hs horder horder' h₁⟩
  · rintro ⟨s₂, h₂⟩
    exact ⟨s₂, Inference.outcome_resolveInOrder_of_perm hs horder' horder h₂⟩
  · have h₁' := Inference.outcome_resolveInOrder_of_perm hs horder horder' h₁
    rw [h₁'] at h₂
    cases h₂
    rfl

/-- A reference that goes through another one, which is met first in one order and last in the
other. -/
def chained : Json :=
  .object [("a", .object [("$ref", .string "#/b/c")]),
    ("b", .object [("$ref", .string "#/d")]),
    ("d", .object [("c", .number (.integer 1))])]

theorem resolveInOrder_agree_chained :
    ∃ c top s s₁ s₂, Observed { handleRefs := true } [chained] c ∧
      (Inference.typeOf c.recorder.table c.roots .empty).run (.start .empty) = (top, s) ∧
      s.pending.keys = [0, 1] ∧
      outcome (Inference.resolveInOrder top [0, 1]) s = (.ok (), s₁) ∧
      outcome (Inference.resolveInOrder top [1, 0]) s = (.ok (), s₂) ∧ s₁.graph = s₂.graph := by
  have hrun : ((Collection.empty { handleRefs := true }).observeDocument chained).toOption.map
      (fun c =>
        let inferred := (Inference.typeOf c.recorder.table c.roots .empty).run (.start .empty)
        (inferred.2.pending.keys,
          (outcome (Inference.resolveInOrder inferred.1 [0, 1]) inferred.2).1.toOption)) =
      some ([0, 1], some ()) := by decide +kernel
  rcases hc : (Collection.empty { handleRefs := true }).observeDocument chained with e | c
  · rw [hc] at hrun
    cases hrun
  · rw [hc] at hrun
    replace hrun := Option.some.inj hrun
    dsimp only at hrun
    have hobserved : Observed { handleRefs := true } [chained] c := .document .empty hc
    rcases hinferred : (Inference.typeOf c.recorder.table c.roots .empty).run (.start .empty)
      with ⟨top, s⟩
    rw [hinferred] at hrun
    obtain ⟨hkeys, hok⟩ := Prod.mk.inj hrun
    rcases hfirst : outcome (Inference.resolveInOrder top [0, 1]) s with ⟨e | _, s₁⟩
    · rw [hfirst] at hok
      cases hok
    · have horder : [0, 1].Perm s.pending.keys := hkeys ▸ .refl _
      have horder' : [1, 0].Perm s.pending.keys := hkeys ▸ .swap 0 1 []
      obtain ⟨hiff, hsame⟩ :=
        resolveInOrder_agree hobserved .empty .empty hinferred horder horder'
      obtain ⟨s₂, hsecond⟩ := hiff.1 ⟨s₁, hfirst⟩
      exact ⟨c, top, s, s₁, s₂, hobserved, hinferred, hkeys, hfirst, hsecond,
        hsame s₁ s₂ hfirst hsecond⟩

end Collection

end JsonTyping
