import JsonTyping.Proofs.DescribedTrees
import JsonTyping.Proofs.ReferenceConsistency
import JsonTyping.Proofs.ResolutionMirrors
import JsonTyping.Proofs.Sessions

/-!
# Graphs with a history

A graph holds what earlier uses of it left behind, intersections that were never given their members
among it. Samples are solved in such a graph as they are in the empty one: with the same error, or
with isomorphic types (`Collection.solve_alike_empty`).
-/

namespace JsonTyping

namespace Inference

variable {R : NodeId → NodeId → Prop} {top top' : NodeId} {s s' s₁ s₁' : Inference}

/-- When all references are resolved, and the second run started from nothing, related nodes
correspond: what waited for its members there was pending, and has them now. -/
theorem Alongside.corresponds (h : Alongside R s₁ s₁') (hwf : s'.Wf) (hpending : PendingFrom 0 s')
    (hsettled : Settled top' s' s₁') (hnone : s₁'.pending = .empty) {t u : NodeId} (htu : R t u) :
    Graph.Corresponds R (s₁.graph.shape t) (s₁'.graph.shape u) := by
  rcases h.shapes t u htu with ⟨-, hempty⟩ | hcorresponds
  · rcases hsettled.fills hwf u with hsame | ⟨-, members, hsome⟩
    · obtain ⟨targets, hfound⟩ :=
        hpending.pending u none (Nat.zero_le u) (hsame.symm.trans hempty)
      obtain ⟨members, hshape, -⟩ := hsettled.solves hwf hnone u targets hfound
      cases hempty.symm.trans hshape
    · cases hempty.symm.trans hsome
  · exact hcorresponds

end Inference

namespace Collection

variable {settings : Settings} {values : List Json} {c : Collection}

/-- A free name stays free while types are inferred and resolved, so the type is published. -/
theorem exists_publish (hobserved : Observed settings values c) {graph : Graph} {name : String}
    (hfree : graph.topLevel? name = none) {top : NodeId} {s s' : Inference}
    (hinferred : (Inference.typeOf c.recorder.table c.roots (.givenName name)).run (.start graph) =
      (top, s))
    (hsettled : Inference.Settled top s s') : ∃ g, s'.graph.publish? name top = some g := by
  rw [hobserved.keeps.typeOf_eq] at hinferred
  have htopLevels := Inference.topLevels_ofSightings settings (c.recorder.table.rows + 1)
    (values.map (⟨false, ·⟩)) (.givenName name) (.start graph)
  rw [hinferred] at htopLevels
  have hfree' : s'.graph.topLevel? name = none := by
    rw [Graph.topLevel?, hsettled.sameFrame.topLevels, htopLevels]
    exact hfree
  rw [Graph.publish?, hfree']
  exact ⟨_, rfl⟩

/-- What is in a graph already makes no difference to the type of samples, whatever was done with
the graph and however that ended. Under a name that is free, solving fails as it does in the empty
graph, or it succeeds as it does there and gives an isomorphic type; where references are not
handled, the two types have the same description. -/
theorem solve_alike_empty (hobserved : Observed settings values c) {graph : Graph} {name : String}
    (hfree : graph.topLevel? name = none) :
    (∃ e, (c.solve graph name).2 = .error e ∧ (c.solve .empty name).2 = .error e) ∨
      ∃ g root g' root', c.solve graph name = (g, .ok root) ∧
        c.solve .empty name = (g', .ok root') ∧ g.Isomorphic root g' root' ∧
        (settings.handleRefs = false → g.describe root = g'.describe root') := by
  cases hroots : c.roots.isEmpty with
  | true =>
    left
    rw [solve_of_no_samples hroots, solve_of_no_samples hroots]
    exact ⟨_, rfl, rfl⟩
  | false =>
    obtain ⟨top, s, result, s₁, hinferred, hresolved⟩ := exists_runs c graph name
    obtain ⟨top', s', result', s₁', hinferred', hresolved'⟩ := exists_runs c .empty name
    have hwf := wf_of_typeOf hobserved hinferred
    have hwf' := wf_of_typeOf hobserved hinferred'
    have hpending' : Inference.PendingFrom 0 s' := pendingFrom_of_typeOf hobserved hinferred'
    -- The types that are inferred are related, and their references are resolved alike.
    obtain ⟨R, htop, hmirrored⟩ : ∃ R, R top top' ∧ Inference.Mirrored R s s' := by
      obtain ⟨R, -, hmirrored, htop⟩ := Inference.inStep_ofSightings settings
        (c.recorder.table.rows + 1) (fun _ _ => False) (values.map (⟨false, ·⟩)) (.givenName name)
        _ _ (Inference.mirrored_start graph .empty)
      rw [← hobserved.keeps.typeOf_eq, hinferred, hinferred'] at hmirrored htop
      exact ⟨R, htop, hmirrored⟩
    have hends := Inference.resolveEnds_resolvePending top hwf
    have hends' := Inference.resolveEnds_resolvePending top' hwf'
    rw [hresolved] at hends
    rw [hresolved'] at hends'
    rw [solve_of_runs hroots hinferred hresolved, solve_of_runs hroots hinferred' hresolved']
    cases hends.alike htop hends' hmirrored.alongside with
    | error => exact .inl ⟨_, rfl, rfl⟩
    | ok _ halongside =>
      right
      obtain ⟨hsettled, -⟩ := hends.settled hwf
      obtain ⟨hsettled', hnone'⟩ := hends'.settled hwf'
      obtain ⟨g, hg⟩ := exists_publish hobserved hfree hinferred hsettled
      obtain ⟨g', hg'⟩ := exists_publish hobserved rfl hinferred' hsettled'
      -- In the end nothing waits for members that a run from nothing made, so related nodes
      -- correspond in the graphs that are published.
      have hshape : ∀ t u, R t u → Graph.Corresponds R (g.shape t) (g'.shape u) := by
        intro t u htu
        rw [Graph.shape_publish? hg, Graph.shape_publish? hg']
        exact halongside.corresponds hwf' hpending' hsettled' hnone' htu
      have hsolve : c.solve graph name = (g, .ok top) := by
        rw [solve_of_runs hroots hinferred hresolved]
        simp only [hg]
      refine ⟨g, top, g', top', by simp only [hg], by simp only [hg'], ?_, fun hrefs => ?_⟩
      · exact Graph.isomorphic_of_corresponds halongside.unique hshape htop
      · have hany : values ≠ [] := by
          rintro rfl
          rw [Table.isEmpty_eq_of_forall₂ hobserved.keeps.roots] at hroots
          cases hroots
        have hunfolds := (solve_unfolds hrefs hany hobserved graph name).2 g top hsolve
        exact Graph.describe_eq_of_corresponds halongside.unique hshape htop hunfolds.grounded

/-- A sample whose reference leads nowhere. -/
def broken : Json := .object [("a", .object [("$ref", .string "#/b")])]

/-- A solving that fails leaves a node behind that waits for members. What is solved after it has
other numbers than in the empty graph. -/
theorem solve_alike_empty_abandoned :
    ∃ c d graph e, Observed { handleRefs := true } [broken] c ∧
      Observed {} [.array [.null], .null] d ∧ c.solve .empty "Old" = (graph, .error e) ∧
      graph.shape 0 = .intersection none ∧ graph.topLevel? "New" = none ∧
      ∃ g g', d.solve graph "New" = (g, .ok 4) ∧ d.solve .empty "New" = (g', .ok 2) ∧
        g.Isomorphic 4 g' 2 ∧ g.describe 4 = g'.describe 2 := by
  have hrun : (do
      let c ← (Collection.empty { handleRefs := true }).observeDocument broken
      let d ← (Collection.empty {}).observeDocument (.array [.null])
      let d ← d.observeDocument .null
      let graph := (c.solve .empty "Old").1
      return ((c.solve .empty "Old").2.toOption, decide (graph.shape 0 = .intersection none),
        decide (graph.topLevel? "New" = none), (d.solve graph "New").2.toOption,
        (d.solve .empty "New").2.toOption) : Except Misuse _).toOption =
      some (none, true, true, some 4, some 2) := by decide +kernel
  obtain ⟨c, hc, hobserved⟩ := Observed.empty.observeDocument broken
  obtain ⟨d', hd', hobserved'⟩ := Observed.empty.observeDocument (.array [.null])
  obtain ⟨d, hd, hobserved''⟩ := hobserved'.observeDocument .null
  rw [hc, ok_bind, hd', ok_bind, hd, ok_bind] at hrun
  obtain ⟨hold, hempty, hfree, hnew, hclean⟩ := by
    simpa only [Prod.mk.injEq, decide_eq_true_eq] using Option.some.inj hrun
  rcases hsolve : c.solve .empty "Old" with ⟨graph, e | root⟩
  · rw [hsolve] at hempty hfree hnew
    refine ⟨c, d, graph, e, hobserved, hobserved'', hsolve, hempty, hfree, ?_⟩
    rcases solve_alike_empty hobserved'' hfree with ⟨e, he, -⟩ | ⟨g, root, g', root', h, h', hall⟩
    · rw [he] at hnew
      cases hnew
    · rw [h] at hnew
      rw [h'] at hclean
      obtain rfl : root = 4 := Option.some.inj hnew
      obtain rfl : root' = 2 := Option.some.inj hclean
      exact ⟨g, g', h, h', hall.1, hall.2 rfl⟩
  · rw [hsolve] at hold
    cases hold

end Collection

end JsonTyping
