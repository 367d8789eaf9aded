import JsonTyping.Proofs.ReferenceResolution
import Mathlib.Logic.Relation

/-!
# Filling one intersection at a time

A successful resolution gives pending intersections their members one after the other, each from the
graph as it stands (`Inference.FillsOne`). Whatever such steps do in a row (`Inference.Settled`)
changes nothing but the shapes of intersections that were pending (`Graph.SameFrame`), and what is
pending no more has as its members exactly the types that its references refer to
(`Inference.Settled.settledAt`).
-/

namespace JsonTyping

namespace Graph

/-- All of a node but its shape. -/
def frameOf (node : Node) : Attributes × Bool := (node.attributes, node.shared)

/-- The graphs have the same top-levels, and the same nodes but for their shapes. -/
structure SameFrame (g g' : Graph) : Prop where
  nodes : g'.nodes.map frameOf = g.nodes.map frameOf
  topLevels : g'.topLevels = g.topLevels

theorem SameFrame.refl (g : Graph) : SameFrame g g := ⟨rfl, rfl⟩

theorem SameFrame.trans {g h k : Graph} (hgh : SameFrame g h) (hhk : SameFrame h k) :
    SameFrame g k :=
  ⟨hhk.nodes.trans hgh.nodes, hhk.topLevels.trans hgh.topLevels⟩

theorem SameFrame.symm {g h : Graph} (hgh : SameFrame g h) : SameFrame h g :=
  ⟨hgh.nodes.symm, hgh.topLevels.symm⟩

theorem SameFrame.size {g g' : Graph} (h : SameFrame g g') : g'.size = g.size := by
  have hsize := congrArg Array.size h.nodes
  rwa [Array.size_map, Array.size_map] at hsize

/-- Graphs with the same shapes on the same frame are the same. -/
theorem SameFrame.eq {g g' : Graph} (h : SameFrame g g') (hshape : ∀ t, g'.shape t = g.shape t) :
    g' = g := by
  have hnodes : g'.nodes = g.nodes := by
    refine Array.ext h.size fun t ht' ht => ?_
    have hframe : frameOf g'.nodes[t] = frameOf g.nodes[t] := by
      have hget := congrArg (·[t]?) h.nodes
      simpa only [Array.getElem?_map, Array.getElem?_eq_getElem ht, Array.getElem?_eq_getElem ht',
        Option.map_some, Option.some.injEq] using hget
    have hsame : g'.nodes[t].shape = g.nodes[t].shape := by
      simpa only [shape, Array.getElem?_eq_getElem ht, Array.getElem?_eq_getElem ht']
        using hshape t
    obtain ⟨hattributes, hshared⟩ := Prod.mk.inj hframe
    revert hattributes hshared hsame
    cases g'.nodes[t]
    cases g.nodes[t]
    rintro rfl rfl rfl
    rfl
  obtain ⟨nodes, topLevels⟩ := g
  obtain ⟨nodes', topLevels'⟩ := g'
  obtain rfl : nodes' = nodes := hnodes
  obtain rfl : topLevels' = topLevels := h.topLevels
  rfl

theorem sameFrame_setMembers {g g' : Graph} {t : NodeId} {members : SortedSet NodeId}
    (h : g.setMembers t members = .ok g') : SameFrame g g' := by
  obtain ⟨s, rfl⟩ := exists_of_setMembers h
  refine ⟨Array.ext (by simp) fun u hu hu' => ?_, rfl⟩
  simp only [Array.getElem_map, Array.getElem_modify]
  split <;> rfl

end Graph

namespace Inference

/-- The pending node `t` is given the types that its references refer to, and is pending no more. -/
def FillsOne (top t : NodeId) (s s' : Inference) : Prop :=
  ∃ targets members, s.pending.find? t = some targets ∧
    List.Forall₂ (s.graph.RefersTo top) targets.toList members ∧
    s.graph.setMembers t (.ofList members) = .ok s'.graph ∧ s'.pending = s.pending.erase t

namespace FillsOne

variable {top t : NodeId} {s s' : Inference}

theorem shape (h : FillsOne top t s s') : ∀ u, u ≠ t → s'.graph.shape u = s.graph.shape u := by
  obtain ⟨targets, members, -, -, hset, -⟩ := h
  exact (Graph.setMembers_spec hset).2.1

theorem find?_pending (h : FillsOne top t s s') (u : NodeId) :
    s'.pending.find? u = if u = t then none else s.pending.find? u := by
  obtain ⟨targets, members, -, -, -, hpending⟩ := h
  rw [hpending, SortedMap.find?_erase]

theorem sameFrame (h : FillsOne top t s s') : s.graph.SameFrame s'.graph := by
  obtain ⟨targets, members, -, -, hset, -⟩ := h
  exact Graph.sameFrame_setMembers hset

theorem shape_self (h : FillsOne top t s s') (hs : s.Wf) :
    s.graph.shape t = .intersection none ∧
      ∃ members, s'.graph.shape t = .intersection (some members) := by
  obtain ⟨targets, members, ht, -, hset, -⟩ := h
  obtain ⟨-, -, ⟨hunion, -⟩ | ⟨hnone, hsome⟩⟩ := Graph.setMembers_spec hset
  · exact absurd (hunion.symm.trans (hs t targets ht)) nofun
  · exact ⟨hnone, _, hsome⟩

theorem wf (h : FillsOne top t s s') (hs : s.Wf) : s'.Wf := by
  intro u targets hu
  rw [h.find?_pending] at hu
  split at hu
  · cases hu
  · next hne => exact (h.shape u hne).trans (hs u targets hu)

theorem fills (h : FillsOne top t s s') (hs : s.Wf) : s.graph.Fills s'.graph := by
  intro u
  by_cases hu : u = t
  · subst hu
    exact .inr (h.shape_self hs)
  · exact .inl (h.shape u hu)

end FillsOne

/-- Some pending nodes are filled one after the other. -/
def Settled (top : NodeId) : Inference → Inference → Prop :=
  Relation.ReflTransGen fun s s' => ∃ t, FillsOne top t s s'

/-- The intersection has exactly the types that these references refer to. -/
def SettledAt (top : NodeId) (g : Graph) (t : NodeId) (targets : SortedSet String) : Prop :=
  ∃ members, g.shape t = .intersection (some (.ofList members)) ∧
    List.Forall₂ (g.RefersTo top) targets.toList members

theorem SettledAt.mono {top t : NodeId} {g g' : Graph} {targets : SortedSet String}
    (h : SettledAt top g t targets) (hfills : g.Fills g') : SettledAt top g' t targets := by
  obtain ⟨members, hshape, hrefer⟩ := h
  exact ⟨members, hfills.shape_eq hshape nofun,
    hrefer.imp fun reference r hr => hr.mono hfills⟩

theorem FillsOne.settledAt {top t : NodeId} {s s' : Inference} (h : FillsOne top t s s')
    (hs : s.Wf) {targets : SortedSet String} (ht : s.pending.find? t = some targets) :
    SettledAt top s'.graph t targets := by
  have hfills := h.fills hs
  have hself := h.shape_self hs
  obtain ⟨targets', members, ht', hrefer, hset, -⟩ := h
  obtain rfl := Option.some.inj (ht.symm.trans ht')
  obtain ⟨-, -, ⟨hunion, -⟩ | ⟨-, hsome⟩⟩ := Graph.setMembers_spec hset
  · exact absurd (hunion.symm.trans hself.1) nofun
  · exact ⟨members, hsome, hrefer.imp fun reference r hr => hr.mono hfills⟩

namespace Settled

variable {top : NodeId} {s s' s'' : Inference}

theorem refl (s : Inference) : Settled top s s := Relation.ReflTransGen.refl

theorem trans (h : Settled top s s') (h' : Settled top s' s'') : Settled top s s'' :=
  Relation.ReflTransGen.trans h h'

theorem single {t : NodeId} (h : FillsOne top t s s') : Settled top s s' :=
  Relation.ReflTransGen.single ⟨t, h⟩

theorem wf (h : Settled top s s') (hs : s.Wf) : s'.Wf := by
  induction h with
  | refl => exact hs
  | tail _ hstep ih =>
    obtain ⟨t, hstep⟩ := hstep
    exact hstep.wf ih

theorem fills (h : Settled top s s') (hs : s.Wf) : s.graph.Fills s'.graph := by
  induction h with
  | refl => exact .refl _
  | tail hsteps hstep ih =>
    obtain ⟨t, hstep⟩ := hstep
    exact ih.trans (hstep.fills (wf hsteps hs))

theorem sameFrame (h : Settled top s s') : s.graph.SameFrame s'.graph := by
  induction h with
  | refl => exact .refl _
  | tail _ hstep ih =>
    obtain ⟨t, hstep⟩ := hstep
    exact ih.trans hstep.sameFrame

theorem pending (h : Settled top s s') {t : NodeId} {targets : SortedSet String}
    (ht : s'.pending.find? t = some targets) : s.pending.find? t = some targets := by
  induction h with
  | refl => exact ht
  | tail _ hstep ih =>
    obtain ⟨u, hstep⟩ := hstep
    rw [hstep.find?_pending] at ht
    split at ht
    · cases ht
    · exact ih ht

theorem find?_eq_none (h : Settled top s s') {t : NodeId} (ht : s.pending.find? t = none) :
    s'.pending.find? t = none := by
  cases hfound : s'.pending.find? t with
  | none => rfl
  | some targets => exact absurd (ht.symm.trans (h.pending hfound)) nofun

theorem pending_eq_empty (h : Settled top s s')
    (hall : ∀ t ∈ s.pending.keys, s'.pending.find? t = none) : s'.pending = .empty := by
  refine SortedMap.ext_find? fun t => ?_
  change s'.pending.find? t = none
  cases hfound : s'.pending.find? t with
  | none => rfl
  | some targets =>
    have hnone := hall t (SortedMap.mem_keys.2 ⟨targets, h.pending hfound⟩)
    exact absurd (hnone.symm.trans hfound) nofun

theorem size_pending (h : Settled top s s') : s'.pending.size ≤ s.pending.size := by
  induction h with
  | refl => exact Nat.le_refl _
  | tail _ hstep ih =>
    obtain ⟨t, -, -, -, -, -, hpending⟩ := hstep
    rw [hpending]
    exact Nat.le_trans (List.length_filter_le _ _) ih

theorem shape_of_not_pending (h : Settled top s s') {t : NodeId}
    (ht : s.pending.find? t = none) : s'.graph.shape t = s.graph.shape t := by
  induction h with
  | refl => rfl
  | tail hsteps hstep ih =>
    obtain ⟨u, hstep⟩ := hstep
    have hne : t ≠ u := by
      rintro rfl
      obtain ⟨targets, -, hfound, -⟩ := hstep
      exact absurd ((pending hsteps hfound).symm.trans ht) nofun
    rw [hstep.shape t hne, ih]

/-- What was pending is pending still, or has the types that its references refer to. -/
theorem settledAt (h : Settled top s s') (hs : s.Wf) {t : NodeId} {targets : SortedSet String}
    (ht : s.pending.find? t = some targets) :
    s'.pending.find? t = some targets ∨ SettledAt top s'.graph t targets := by
  induction h with
  | refl => exact .inl ht
  | tail hsteps hstep ih =>
    obtain ⟨u, hstep⟩ := hstep
    have hwf := wf hsteps hs
    rcases ih with hpending | hsettled
    · by_cases htu : t = u
      · subst htu
        exact .inr (hstep.settledAt hwf hpending)
      · left
        rw [hstep.find?_pending, if_neg htu, hpending]
    · exact .inr (hsettled.mono (hstep.fills hwf))

/-- Steps that were made while a node was taken off the pending ones could be made as well while it
was pending. -/
theorem of_erased {t : NodeId} {targets : SortedSet String}
    (ht : s.pending.find? t = some targets)
    (h : Settled top { s with pending := s.pending.erase t } s') :
    ∃ pending, pending.find? t = some targets ∧ s'.pending = pending.erase t ∧
      Settled top s ⟨s'.graph, pending⟩ := by
  induction h with
  | refl => exact ⟨s.pending, ht, rfl, .refl s⟩
  | @tail s₁ s₂ _ hstep ih =>
    obtain ⟨u, hstep⟩ := hstep
    obtain ⟨pending, hfound, hpending, hsettled⟩ := ih
    obtain ⟨known, members, hknown, hrefer, hset, herased⟩ := hstep
    rw [hpending, SortedMap.find?_erase] at hknown
    split at hknown
    · cases hknown
    · next hut =>
      refine ⟨pending.erase u, ?_, ?_, hsettled.trans
        (single (t := u) ⟨known, members, hknown, hrefer, hset, rfl⟩)⟩
      · rw [SortedMap.find?_erase, if_neg (Ne.symm hut), hfound]
      · refine SortedMap.ext_find? fun x => ?_
        simp only [herased, hpending, SortedMap.find?_erase]
        split <;> split <;> rfl

end Settled

end Inference

namespace Collection

theorem wf_of_typeOf {settings : Settings} {values : List Json} {c : Collection}
    (hobserved : Observed settings values c) {graph : Graph} {a : Attributes} {top : NodeId}
    {s : Inference}
    (hinferred : (Inference.typeOf c.recorder.table c.roots a).run (.start graph) = (top, s)) :
    s.Wf := by
  rw [hobserved.keeps.typeOf_eq] at hinferred
  obtain ⟨hwf, -⟩ := Inference.builds_ofSightings settings (c.recorder.table.rows + 1)
    (values.map (⟨false, ·⟩)) a (.start graph) (start_wf graph)
  rwa [hinferred] at hwf

end Collection

end JsonTyping
