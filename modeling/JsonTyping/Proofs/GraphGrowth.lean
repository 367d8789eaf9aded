import JsonTyping.Graph.Basic

/-!
# Graphs that grow

What the operations on graphs do to shapes: a shared or fresh node has the shape that was asked for,
every node before it keeps its own (`Graph.Extends`), and setting members changes one node, which
had none.
-/

namespace JsonTyping

namespace Graph

/-- The second graph has the nodes of the first one, with the same shapes. -/
structure Extends (g g' : Graph) : Prop where
  size : g.size ≤ g'.size
  shape : ∀ t < g.size, g'.shape t = g.shape t

theorem Extends.refl (g : Graph) : Extends g g := ⟨Nat.le_refl _, fun _ _ => rfl⟩

theorem Extends.trans {g h k : Graph} (hgh : Extends g h) (hhk : Extends h k) : Extends g k where
  size := Nat.le_trans hgh.size hhk.size
  shape t ht := by
    rw [hhk.shape t (Nat.lt_of_lt_of_le ht hgh.size), hgh.shape t ht]

theorem shape_of_size_le {g : Graph} {t : NodeId} (h : g.size ≤ t) :
    g.shape t = .primitive .none := by
  have hnone : g.nodes[t]? = none := Array.getElem?_eq_none h
  simp only [shape, hnone]

/-- A node of any other shape than that of a missing one is there. -/
theorem lt_size_of_shape {g : Graph} {t : NodeId} {s : Shape} (h : g.shape t = s)
    (hs : s ≠ .primitive .none) : t < g.size := by
  rcases Nat.lt_or_ge t g.size with hlt | hge
  · exact hlt
  · exact absurd (h.symm.trans (shape_of_size_le hge)) hs

theorem Extends.shape_eq {g g' : Graph} (ext : Extends g g') {t : NodeId} {s : Shape}
    (h : g.shape t = s) (hs : s ≠ .primitive .none) : g'.shape t = s :=
  (ext.shape t (lt_size_of_shape h hs)).trans h

@[simp] theorem size_addAttributes (g : Graph) (t : NodeId) (a : Attributes) :
    (g.addAttributes t a).size = g.size := by
  unfold addAttributes
  split
  · rfl
  · exact Array.size_modify

@[simp] theorem shape_addAttributes (g : Graph) (t : NodeId) (a : Attributes) (u : NodeId) :
    (g.addAttributes t a).shape u = g.shape u := by
  unfold addAttributes
  split
  · rfl
  · simp only [shape, Array.getElem?_modify]
    by_cases htu : t = u
    · subst htu
      rw [if_pos rfl]
      cases g.nodes[t]? <;> rfl
    · rw [if_neg htu]

theorem extends_addAttributes (g : Graph) (t : NodeId) (a : Attributes) :
    Extends g (g.addAttributes t a) :=
  ⟨Nat.le_of_eq (size_addAttributes g t a).symm, fun u _ => shape_addAttributes g t a u⟩

theorem shape_push (g : Graph) (node : Node) (t : NodeId) :
    ({ g with nodes := g.nodes.push node } : Graph).shape t =
      if t = g.size then node.shape else g.shape t := by
  by_cases ht : t = g.size
  · rw [if_pos ht]
    simp only [shape, Array.getElem?_push, show t = g.nodes.size from ht, if_true]
  · rw [if_neg ht]
    simp only [shape, Array.getElem?_push, if_neg (show ¬t = g.nodes.size from ht)]

theorem extends_push (g : Graph) (node : Node) :
    Extends g { g with nodes := g.nodes.push node } where
  size := by
    simp only [size, Array.size_push]
    omega
  shape t ht := by rw [shape_push, if_neg (Nat.ne_of_lt ht)]

theorem fresh_spec (g : Graph) (s : Shape) (a : Attributes) :
    Extends g (g.fresh s a).1 ∧ (g.fresh s a).2 = g.size ∧
      (g.fresh s a).1.size = g.size + 1 ∧ (g.fresh s a).1.shape g.size = s := by
  refine ⟨extends_push g _, rfl, ?_, ?_⟩
  · simp only [fresh, size, Array.size_push]
  · simp only [fresh, shape_push, if_true]

/-- The shared node of a shape has that shape, and no other node changes its own. -/
theorem share_spec (g : Graph) (s : Shape) (a : Attributes) :
    Extends g (g.share s a).1 ∧ (g.share s a).2 < (g.share s a).1.size ∧
      (g.share s a).1.shape (g.share s a).2 = s := by
  unfold share
  split
  · next t ht =>
    obtain ⟨hlt, hp, -⟩ := Array.findIdx?_eq_some_iff_getElem.1 ht
    have hshape : g.shape t = s := by
      simp only [shape, Array.getElem?_eq_getElem hlt]
      exact of_decide_eq_true (Bool.and_eq_true_iff.1 hp).2
    refine ⟨extends_addAttributes g t a, ?_, ?_⟩
    · rw [size_addAttributes]
      exact hlt
    · rw [shape_addAttributes]
      exact hshape
  · refine ⟨extends_push g _, ?_, ?_⟩
    · simp only [size, Array.size_push]
      exact Nat.lt_succ_self _
    · rw [shape_push, if_pos rfl]

/-- A union of one member is that member; of several it is the shared union. -/
theorem union_spec (g : Graph) {members : SortedSet NodeId} (h : members.toList ≠ [])
    (a : Attributes) :
    ∃ g' t, g.union members a = .ok (g', t) ∧ Extends g g' ∧
      (members.toList = [t] ∨ g'.shape t = .union (some members)) := by
  unfold union
  split
  · next hnil => exact absurd hnil h
  · next only honly => exact ⟨_, only, rfl, extends_addAttributes g only a, .inl honly⟩
  · obtain ⟨hext, -, hshape⟩ := share_spec g (.union (some members)) a
    exact ⟨_, _, rfl, hext, .inr hshape⟩

/-- Setting members changes nothing but the shape of one node. -/
theorem exists_of_setMembers {g g' : Graph} {t : NodeId} {members : SortedSet NodeId}
    (h : g.setMembers t members = .ok g') :
    ∃ s, g' = { g with nodes := g.nodes.modify t fun node => { node with shape := s } } := by
  unfold setMembers at h
  split at h
  · exact ⟨_, (Except.ok.inj h).symm⟩
  · exact ⟨_, (Except.ok.inj h).symm⟩
  · cases h
  · cases h
  · cases h

/-- Setting members changes the shape of one node, which was a union or intersection without
members. -/
theorem setMembers_spec {g g' : Graph} {t : NodeId} {members : SortedSet NodeId}
    (h : g.setMembers t members = .ok g') :
    g'.size = g.size ∧ (∀ u, u ≠ t → g'.shape u = g.shape u) ∧
      (g.shape t = .union none ∧ g'.shape t = .union (some members) ∨
        g.shape t = .intersection none ∧ g'.shape t = .intersection (some members)) := by
  have hinstall : ∀ (s s' : Shape), g.shape t = s → s ≠ .primitive .none →
      g' = { g with nodes := g.nodes.modify t fun node => { node with shape := s' } } →
      g'.size = g.size ∧ (∀ u, u ≠ t → g'.shape u = g.shape u) ∧ g'.shape t = s' := by
    rintro s s' hs hne rfl
    have hlt := lt_size_of_shape hs hne
    refine ⟨Array.size_modify, fun u hu => ?_, ?_⟩
    · simp only [shape, Array.getElem?_modify, if_neg (Ne.symm hu)]
    · have hget : g.nodes[t]? = some g.nodes[t] := Array.getElem?_eq_getElem hlt
      simp only [shape, Array.getElem?_modify, if_true, hget, Option.map_some]
  unfold setMembers at h
  split at h
  · next hshape =>
    obtain ⟨hsize, hother, hnew⟩ := hinstall _ _ hshape nofun (Except.ok.inj h).symm
    exact ⟨hsize, hother, .inl ⟨hshape, hnew⟩⟩
  · next hshape =>
    obtain ⟨hsize, hother, hnew⟩ := hinstall _ _ hshape nofun (Except.ok.inj h).symm
    exact ⟨hsize, hother, .inr ⟨hshape, hnew⟩⟩
  · cases h
  · cases h
  · cases h

/-- A union or intersection without members can be given some. -/
theorem exists_setMembers {g : Graph} {t : NodeId} (members : SortedSet NodeId)
    (h : g.shape t = .union none ∨ g.shape t = .intersection none) :
    ∃ g', g.setMembers t members = .ok g' := by
  unfold setMembers
  rcases h with h | h
  · rw [h]
    exact ⟨_, rfl⟩
  · rw [h]
    exact ⟨_, rfl⟩

theorem Extends.setMembers {g h k : Graph} (hgh : Extends g h) {t : NodeId} (ht : g.size ≤ t)
    {members : SortedSet NodeId} (hk : h.setMembers t members = .ok k) : Extends g k where
  size := by
    rw [(setMembers_spec hk).1]
    exact hgh.size
  shape u hu := by
    have hne : u ≠ t := Nat.ne_of_lt (Nat.lt_of_lt_of_le hu ht)
    rw [(setMembers_spec hk).2.1 u hne, hgh.shape u hu]

theorem shape_publish? {g g' : Graph} {name : String} {t : NodeId}
    (h : g.publish? name t = some g') (u : NodeId) : g'.shape u = g.shape u := by
  unfold publish? at h
  split at h
  · cases h
  · obtain rfl := Option.some.inj h
    rfl

end Graph

end JsonTyping
