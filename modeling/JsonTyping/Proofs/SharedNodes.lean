import JsonTyping.Proofs.GraphGrowth

/-!
# Shared nodes

The shared node of a shape stays the shared node of that shape while a graph grows
(`Graph.KeepsShared.shared?`). A graph *develops* when old nodes keep their shapes and stay shared
or not, and when nothing is published.
-/

namespace JsonTyping.Graph

/-- Whether asking for the shape of a node may give that node. -/
def isShared (g : Graph) (t : NodeId) : Bool :=
  match g.nodes[t]? with
  | some node => node.shared
  | none => false

theorem lt_size_of_isShared {g : Graph} {t : NodeId} (h : g.isShared t = true) : t < g.size := by
  rcases Nat.lt_or_ge t g.size with hlt | hge
  · exact hlt
  · have hnone : g.nodes[t]? = none := Array.getElem?_eq_none hge
    simp only [isShared, hnone, Bool.false_eq_true] at h

/-- The shared node of a shape is the first one. -/
theorem shared?_eq_some_iff {g : Graph} {s : Shape} {t : NodeId} :
    g.shared? s = some t ↔ (g.isShared t = true ∧ g.shape t = s) ∧
      ∀ u < t, ¬ (g.isShared u = true ∧ g.shape u = s) := by
  have hnode : ∀ (u : NodeId) (hu : u < g.nodes.size),
      (g.nodes[u].shared && g.nodes[u].shape == s) = true ↔
        g.isShared u = true ∧ g.shape u = s := by
    intro u hu
    simp only [isShared, shape, Array.getElem?_eq_getElem hu, Bool.and_eq_true, beq_iff_eq]
  rw [shared?, Array.findIdx?_eq_some_iff_getElem]
  constructor
  · rintro ⟨hlt, hp, hbefore⟩
    refine ⟨(hnode t hlt).1 hp, fun u hu hshared => ?_⟩
    exact hbefore u hu ((hnode u (Nat.lt_trans hu hlt)).2 hshared)
  · rintro ⟨hshared, hbefore⟩
    have hlt := lt_size_of_isShared hshared.1
    refine ⟨hlt, (hnode t hlt).2 hshared, fun u hu hp => ?_⟩
    exact hbefore u hu ((hnode u (Nat.lt_trans hu hlt)).1 hp)

theorem shape_of_shared? {g : Graph} {s : Shape} {t : NodeId} (h : g.shared? s = some t) :
    g.shape t = s :=
  (shared?_eq_some_iff.1 h).1.2

theorem isShared_of_shared? {g : Graph} {s : Shape} {t : NodeId} (h : g.shared? s = some t) :
    g.isShared t = true :=
  (shared?_eq_some_iff.1 h).1.1

/-- The same nodes are shared as before, with the shapes they had. -/
structure KeepsShared (g g' : Graph) : Prop where
  size : g.size ≤ g'.size
  isShared : ∀ t < g.size, g'.isShared t = g.isShared t
  shape : ∀ t, g.isShared t = true → g'.shape t = g.shape t

theorem KeepsShared.refl (g : Graph) : KeepsShared g g :=
  ⟨Nat.le_refl _, fun _ _ => rfl, fun _ _ => rfl⟩

theorem KeepsShared.trans {g h k : Graph} (hgh : KeepsShared g h) (hhk : KeepsShared h k) :
    KeepsShared g k where
  size := Nat.le_trans hgh.size hhk.size
  isShared t ht := by
    rw [hhk.isShared t (Nat.lt_of_lt_of_le ht hgh.size), hgh.isShared t ht]
  shape t ht := by
    have hshared := (hgh.isShared t (lt_size_of_isShared ht)).trans ht
    rw [hhk.shape t hshared, hgh.shape t ht]

theorem KeepsShared.shared? {g g' : Graph} (h : KeepsShared g g') {s : Shape} {t : NodeId}
    (ht : g.shared? s = some t) : g'.shared? s = some t := by
  obtain ⟨⟨hshared, hshape⟩, hbefore⟩ := shared?_eq_some_iff.1 ht
  have hlt := lt_size_of_isShared hshared
  refine shared?_eq_some_iff.2 ⟨⟨(h.isShared t hlt).trans hshared,
    (h.shape t hshared).trans hshape⟩, fun u hu => ?_⟩
  rintro ⟨hshared', hshape'⟩
  rw [h.isShared u (Nat.lt_trans hu hlt)] at hshared'
  exact hbefore u hu ⟨hshared', (h.shape u hshared').symm.trans hshape'⟩

/-- The second graph has the nodes of the first one, with the same shapes and as shared as before,
and publishes the same types. -/
structure Develops (g g' : Graph) : Prop extends Extends g g' where
  isShared : ∀ t < g.size, g'.isShared t = g.isShared t
  topLevels : g'.topLevels = g.topLevels

theorem Develops.refl (g : Graph) : Develops g g := ⟨.refl g, fun _ _ => rfl, rfl⟩

theorem Develops.trans {g h k : Graph} (hgh : Develops g h) (hhk : Develops h k) :
    Develops g k where
  toExtends := hgh.toExtends.trans hhk.toExtends
  isShared t ht := by
    rw [hhk.isShared t (Nat.lt_of_lt_of_le ht hgh.size), hgh.isShared t ht]
  topLevels := hhk.topLevels.trans hgh.topLevels

theorem Develops.keepsShared {g g' : Graph} (h : Develops g g') : KeepsShared g g' :=
  ⟨h.size, h.isShared, fun t ht => h.shape t (lt_size_of_isShared ht)⟩

theorem isShared_addAttributes (g : Graph) (t : NodeId) (a : Attributes) (u : NodeId) :
    (g.addAttributes t a).isShared u = g.isShared u := by
  unfold addAttributes
  split
  · rfl
  · simp only [isShared, Array.getElem?_modify]
    by_cases htu : t = u
    · subst htu
      rw [if_pos rfl]
      cases g.nodes[t]? <;> rfl
    · rw [if_neg htu]

theorem develops_addAttributes (g : Graph) (t : NodeId) (a : Attributes) :
    Develops g (g.addAttributes t a) where
  toExtends := extends_addAttributes g t a
  isShared u _ := isShared_addAttributes g t a u
  topLevels := by
    unfold addAttributes
    split <;> rfl

theorem isShared_push (g : Graph) (node : Node) (t : NodeId) :
    ({ g with nodes := g.nodes.push node } : Graph).isShared t =
      if t = g.size then node.shared else g.isShared t := by
  by_cases ht : t = g.size
  · rw [if_pos ht]
    simp only [isShared, Array.getElem?_push, show t = g.nodes.size from ht, if_true]
  · rw [if_neg ht]
    simp only [isShared, Array.getElem?_push, if_neg (show ¬t = g.nodes.size from ht)]

theorem develops_push (g : Graph) (node : Node) :
    Develops g { g with nodes := g.nodes.push node } where
  toExtends := extends_push g node
  isShared t ht := by rw [isShared_push, if_neg (Nat.ne_of_lt ht)]
  topLevels := rfl

theorem develops_fresh (g : Graph) (s : Shape) (a : Attributes) : Develops g (g.fresh s a).1 :=
  develops_push g _

theorem isShared_fresh (g : Graph) (s : Shape) (a : Attributes) :
    (g.fresh s a).1.isShared g.size = false := by
  rw [fresh, isShared_push, if_pos rfl]

theorem develops_share (g : Graph) (s : Shape) (a : Attributes) : Develops g (g.share s a).1 := by
  unfold share
  split
  · exact develops_addAttributes g _ a
  · exact develops_push g _

/-- What is asked for is the shared node of its shape from then on. -/
theorem shared?_share (g : Graph) (s : Shape) (a : Attributes) :
    (g.share s a).1.shared? s = some (g.share s a).2 := by
  unfold share
  split
  · next t ht => exact (develops_addAttributes g t a).keepsShared.shared? ht
  · next hnone =>
    refine shared?_eq_some_iff.2 ⟨⟨?_, ?_⟩, fun u hu => ?_⟩
    · rw [isShared_push, if_pos rfl]
    · rw [shape_push, if_pos rfl]
    · rw [isShared_push, if_neg (Nat.ne_of_lt hu), shape_push, if_neg (Nat.ne_of_lt hu)]
      rintro ⟨hshared, hshape⟩
      have hlt := lt_size_of_isShared hshared
      rw [shared?, Array.findIdx?_eq_none_iff] at hnone
      have hmem := hnone g.nodes[u] (Array.getElem_mem hlt)
      simp only [isShared, Array.getElem?_eq_getElem hlt] at hshared
      simp only [shape, Array.getElem?_eq_getElem hlt] at hshape
      simp only [hshared, hshape, Bool.true_and, beq_self_eq_true, Bool.true_eq_false] at hmem

/-- A union of one member is that member, and one of several is the shared node of its shape. -/
theorem union_shared (g : Graph) {members : SortedSet NodeId} (h : members.toList ≠ [])
    (a : Attributes) :
    ∃ g' t, g.union members a = .ok (g', t) ∧ Develops g g' ∧
      (members.toList = [t] ∨
        members.toList.length ≠ 1 ∧ g'.shared? (.union (some members)) = some t) := by
  unfold union
  split
  · next hnil => exact absurd hnil h
  · next only honly => exact ⟨_, only, rfl, develops_addAttributes g only a, .inl honly⟩
  · next hmany =>
    refine ⟨_, _, rfl, develops_share g _ a, .inr ⟨fun hone => ?_, shared?_share g _ a⟩⟩
    obtain ⟨only, honly⟩ := List.length_eq_one_iff.1 hone
    exact hmany only honly

theorem isShared_setMembers {g g' : Graph} {t : NodeId} {members : SortedSet NodeId}
    (h : g.setMembers t members = .ok g') (u : NodeId) : g'.isShared u = g.isShared u := by
  obtain ⟨s, rfl⟩ := exists_of_setMembers h
  simp only [isShared, Array.getElem?_modify]
  by_cases htu : t = u
  · subst htu
    rw [if_pos rfl]
    cases g.nodes[t]? <;> rfl
  · rw [if_neg htu]

theorem topLevels_setMembers {g g' : Graph} {t : NodeId} {members : SortedSet NodeId}
    (h : g.setMembers t members = .ok g') : g'.topLevels = g.topLevels := by
  obtain ⟨s, rfl⟩ := exists_of_setMembers h
  rfl

/-- A node that is not shared can get its members without a change to the shared ones. -/
theorem keepsShared_setMembers {g g' : Graph} {t : NodeId} {members : SortedSet NodeId}
    (h : g.setMembers t members = .ok g') (ht : g.isShared t = false) : KeepsShared g g' where
  size := Nat.le_of_eq (setMembers_spec h).1.symm
  isShared u _ := isShared_setMembers h u
  shape u hu := by
    refine (setMembers_spec h).2.1 u ?_
    rintro rfl
    rw [ht] at hu
    cases hu

theorem Develops.setMembers {g h k : Graph} (hgh : Develops g h) {t : NodeId} (ht : g.size ≤ t)
    {members : SortedSet NodeId} (hk : h.setMembers t members = .ok k) : Develops g k where
  toExtends := hgh.toExtends.setMembers ht hk
  isShared u hu := by rw [isShared_setMembers hk, hgh.isShared u hu]
  topLevels := (topLevels_setMembers hk).trans hgh.topLevels

end JsonTyping.Graph
