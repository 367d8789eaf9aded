import JsonTyping.Proofs.GraphGrowth
import JsonTyping.Proofs.SchemaParts
import Mathlib.Data.Set.Insert

/-!
# Filled types

A union or intersection may be handed out before its members are known. A type is *filled* when
every node that is reached from it has its members, but for nodes that are still *pending*
(`Graph.FilledBut`). Growth keeps types filled, and so does giving a pending node its members.
-/

namespace JsonTyping

/-- The nodes that a shape names. -/
def Shape.parts : Shape → List NodeId
  | .primitive _ => []
  | .enumeration _ => []
  | .array items => [items]
  | .record properties => properties.values.map Property.type
  | .object properties additional => properties.values.map Property.type ++ additional.toList
  | .map values => [values]
  | .union members => (members.map SortedSet.toList).getD []
  | .intersection members => (members.map SortedSet.toList).getD []

/-- The members are known, if the shape has any. -/
def Shape.IsFilled (s : Shape) : Prop := s ≠ .union none ∧ s ≠ .intersection none

namespace Graph

/-- The second node is the first one, or is named by the shape of one that is reached from it. -/
inductive Reaches (g : Graph) (t : NodeId) : NodeId → Prop
  | refl : Reaches g t t
  | part {u v : NodeId} (h : Reaches g t u) (hv : v ∈ (g.shape u).parts) : Reaches g t v

/-- The nodes that are reached from the node are there and have their members, when nothing is asked
of pending ones. -/
def FilledBut (g : Graph) (pending : Set NodeId) (t : NodeId) : Prop :=
  ∃ reached : Set NodeId, t ∈ reached ∧ ∀ u ∈ reached, u ∉ pending →
    u < g.size ∧ (g.shape u).IsFilled ∧ ∀ v ∈ (g.shape u).parts, v ∈ reached

variable {g g' : Graph} {pending : Set NodeId} {t u : NodeId}

theorem FilledBut.of_pending (ht : t ∈ pending) : g.FilledBut pending t :=
  ⟨pending, ht, fun _ hu hnot => absurd hu hnot⟩

theorem FilledBut.of_parts (ht : t < g.size) (hfilled : (g.shape t).IsFilled)
    (hparts : ∀ u ∈ (g.shape t).parts, g.FilledBut pending u) : g.FilledBut pending t := by
  have hclosed : ∀ u, g.FilledBut pending u → u ∉ pending →
      u < g.size ∧ (g.shape u).IsFilled ∧ ∀ v ∈ (g.shape u).parts, g.FilledBut pending v := by
    rintro u ⟨reached, hu, hreached⟩ hnot
    obtain ⟨hlt, hshape, hmem⟩ := hreached u hu hnot
    exact ⟨hlt, hshape, fun v hv => ⟨reached, hmem v hv, hreached⟩⟩
  refine ⟨{u | u = t ∨ g.FilledBut pending u}, .inl rfl, fun u hu hnot => ?_⟩
  rcases hu with rfl | hu
  · exact ⟨ht, hfilled, fun v hv => .inr (hparts v hv)⟩
  · obtain ⟨hlt, hshape, hmem⟩ := hclosed u hu hnot
    exact ⟨hlt, hshape, fun v hv => .inr (hmem v hv)⟩

/-- What holds of a filled node that is not pending. -/
theorem FilledBut.elim (h : g.FilledBut pending t) (ht : t ∉ pending) :
    t < g.size ∧ (g.shape t).IsFilled ∧ ∀ u ∈ (g.shape t).parts, g.FilledBut pending u := by
  obtain ⟨reached, hmem, hreached⟩ := h
  obtain ⟨hlt, hshape, hparts⟩ := hreached t hmem ht
  exact ⟨hlt, hshape, fun u hu => ⟨reached, hparts u hu, hreached⟩⟩

/-- Without pending nodes, everything that is reached from a filled node is filled. -/
theorem FilledBut.reaches (h : g.FilledBut ∅ t) (hu : g.Reaches t u) : g.FilledBut ∅ u := by
  induction hu with
  | refl => exact h
  | part _ hv ih =>
    obtain ⟨-, -, hparts⟩ := ih.elim (Set.notMem_empty _)
    exact hparts _ hv

theorem FilledBut.mono_pending {pending' : Set NodeId} (h : g.FilledBut pending t)
    (hsubset : pending ⊆ pending') : g.FilledBut pending' t := by
  obtain ⟨reached, ht, hreached⟩ := h
  exact ⟨reached, ht, fun u hu hnot => hreached u hu fun hmem => hnot (hsubset hmem)⟩

theorem FilledBut.extends (h : g.FilledBut pending t) (hext : g.Extends g') :
    g'.FilledBut pending t := by
  obtain ⟨reached, ht, hreached⟩ := h
  refine ⟨reached, ht, fun u hu hnot => ?_⟩
  obtain ⟨hlt, hshape, hparts⟩ := hreached u hu hnot
  have hsame : g'.shape u = g.shape u := hext.shape u hlt
  rw [hsame]
  exact ⟨Nat.lt_of_lt_of_le hlt hext.size, hshape, hparts⟩

theorem filledBut_share {s : Shape} (hfilled : s.IsFilled) (a : Attributes)
    (hparts : ∀ u ∈ s.parts, g.FilledBut pending u) :
    (g.share s a).1.FilledBut pending (g.share s a).2 := by
  obtain ⟨hext, hlt, hshape⟩ := share_spec g s a
  refine .of_parts hlt ?_ ?_
  · rw [hshape]
    exact hfilled
  · rw [hshape]
    exact fun u hu => (hparts u hu).extends hext

theorem filledBut_fresh {s : Shape} (hfilled : s.IsFilled) (a : Attributes)
    (hparts : ∀ u ∈ s.parts, g.FilledBut pending u) :
    (g.fresh s a).1.FilledBut pending g.size := by
  obtain ⟨hext, -, hsize, hshape⟩ := fresh_spec g s a
  have hlt : g.size < (g.fresh s a).1.size := by
    rw [hsize]
    exact Nat.lt_succ_self g.size
  refine .of_parts hlt ?_ ?_
  · rw [hshape]
    exact hfilled
  · rw [hshape]
    exact fun u hu => (hparts u hu).extends hext

theorem filledBut_union {members : SortedSet NodeId} {a : Attributes}
    (h : g.union members a = .ok (g', t)) (hparts : ∀ u ∈ members, g.FilledBut pending u) :
    g.Extends g' ∧ g'.FilledBut pending t := by
  have hne : members.toList ≠ [] := by
    intro hnil
    unfold union at h
    rw [hnil] at h
    cases h
  obtain ⟨k, v, hunion, hext, hnode⟩ := union_spec g hne a
  obtain ⟨rfl, rfl⟩ := Prod.mk.inj (Except.ok.inj (hunion.symm.trans h))
  refine ⟨hext, ?_⟩
  rcases hnode with honly | hshape
  · have hmem : v ∈ members := by
      rw [SortedSet.mem_iff, honly]
      exact List.mem_singleton_self v
    exact (hparts v hmem).extends hext
  · refine .of_parts (lt_size_of_shape hshape nofun) ?_ ?_
    · rw [hshape]
      exact ⟨nofun, nofun⟩
    · rw [hshape]
      exact fun u hu => (hparts u hu).extends hext

theorem filled_setMembers {members : SortedSet NodeId} (h : g.setMembers t members = .ok g') :
    t < g'.size ∧ (g'.shape t).IsFilled ∧ (g'.shape t).parts = members.toList := by
  obtain ⟨-, -, hnode⟩ := setMembers_spec h
  rcases hnode with ⟨-, hshape⟩ | ⟨-, hshape⟩
  · rw [hshape]
    exact ⟨lt_size_of_shape hshape nofun, ⟨nofun, nofun⟩, rfl⟩
  · rw [hshape]
    exact ⟨lt_size_of_shape hshape nofun, ⟨nofun, nofun⟩, rfl⟩

/-- When a pending node gets members that are filled, it is pending no more. -/
theorem FilledBut.setMembers {members : SortedSet NodeId}
    (hset : g.setMembers t members = .ok g')
    (hmembers : ∀ v ∈ members, g.FilledBut (insert t pending) v)
    (h : g.FilledBut (insert t pending) u) : g'.FilledBut pending u := by
  obtain ⟨hsize, hother, -⟩ := setMembers_spec hset
  obtain ⟨hlt, hfilled, hparts⟩ := filled_setMembers hset
  refine ⟨{v | g.FilledBut (insert t pending) v}, h, fun v hv hnot => ?_⟩
  by_cases hvt : v = t
  · subst hvt
    refine ⟨hlt, hfilled, fun w hw => ?_⟩
    rw [hparts] at hw
    exact hmembers w hw
  · have hpending : v ∉ insert t pending := by
      intro hmem
      rcases Set.mem_insert_iff.1 hmem with heq | hmem
      · exact hvt heq
      · exact hnot hmem
    obtain ⟨hvlt, hvfilled, hvparts⟩ := FilledBut.elim hv hpending
    rw [hother v hvt, hsize]
    exact ⟨hvlt, hvfilled, hvparts⟩

end Graph

end JsonTyping
