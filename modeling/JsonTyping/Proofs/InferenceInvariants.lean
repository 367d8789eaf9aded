import JsonTyping.Proofs.InferenceSoundness

/-!
# What inference keeps

A property of states that every step of the inference keeps holds after all of it
(`Inference.preserves_ofSightings`). Two such properties say what becomes pending: the intersections
that an inference makes are the nodes it leaves pending, each with references
(`Inference.PendingFrom`), and where references are not handled nothing becomes pending.
-/

namespace JsonTyping

namespace Graph

/-- Sharing a shape gives it to one node and lets the others be. -/
theorem shape_share (g : Graph) (shape : Shape) (a : Attributes) (t : NodeId) :
    (g.share shape a).1.shape t = g.shape t ∨ (g.share shape a).1.shape t = shape := by
  unfold share
  split
  · exact .inl (shape_addAttributes g _ a t)
  · rw [shape_push]
    split
    · exact .inr rfl
    · exact .inl rfl

@[simp] theorem topLevels_addAttributes (g : Graph) (t : NodeId) (a : Attributes) :
    (g.addAttributes t a).topLevels = g.topLevels := by
  unfold addAttributes
  split <;> rfl

@[simp] theorem topLevels_share (g : Graph) (shape : Shape) (a : Attributes) :
    (g.share shape a).1.topLevels = g.topLevels := by
  unfold share
  split
  · exact topLevels_addAttributes g _ a
  · rfl

end Graph

namespace Inference

open Sighting

/-- Where the property holds before the run, it holds after it. -/
def Preserves {α : Type} (I : Inference → Prop) (m : StateM Inference α) : Prop :=
  ∀ s, I s → I (m.run s).2

section Rules

variable {α β : Type} {I : Inference → Prop}

theorem preserves_pure (a : α) : Preserves I (pure a) := fun _ hs => hs

theorem Preserves.bind {m : StateM Inference α} {f : α → StateM Inference β}
    (hm : Preserves I m) (hf : ∀ a, Preserves I (f a)) : Preserves I (m >>= f) :=
  fun s hs => hf (m.run s).1 (m.run s).2 (hm s hs)

theorem Preserves.map {m : StateM Inference α} {f : α → β} (hm : Preserves I m) :
    Preserves I (f <$> m) :=
  fun s hs => hm s hs

theorem Preserves.mapM {f : α → StateM Inference β} (hf : ∀ a, Preserves I (f a)) (l : List α) :
    Preserves I (l.mapM f) := by
  induction l with
  | nil =>
    rw [List.mapM_nil]
    exact preserves_pure []
  | cons a l ih =>
    rw [List.mapM_cons]
    exact (hf a).bind fun b => ih.bind fun bs => preserves_pure (b :: bs)

end Rules

theorem ne_nil_of_targets? {settings : Settings} {objects : List (List (String × Json))}
    {targets : SortedSet String} (h : targets? settings objects = some targets) :
    targets.toList ≠ [] := by
  unfold targets? at h
  split at h
  · split at h
    · cases h
    · next hany =>
      obtain ⟨found, hfound, rfl⟩ := Option.map_eq_some_iff.1 h
      refine SortedSet.toList_ofList_ne_nil fun hnil => hany ?_
      have hlength := (forall₂_of_mapM_eq_some hfound).length_eq
      rw [hnil] at hlength
      exact List.isEmpty_iff.2 (List.eq_nil_of_length_eq_zero hlength)
  · cases h

section Steps

variable (settings : Settings) {I : Inference → Prop}
  (hshare : ∀ shape a, (∀ members, shape ≠ .intersection members) →
    Preserves I (onGraph (·.share shape a)))
  (hdefer : ∀ targets a, settings.handleRefs = true → targets.toList ≠ [] →
    Preserves I (defer targets a))
  (hjoin : ∀ types a, Preserves I (joinTypes types a))

include hshare hdefer

theorem preserves_ofObjects {infer : List Sighting → Attributes → StateM Inference NodeId}
    (hinfer : ∀ xs a, Preserves I (infer xs a)) (objects : List (List (String × Json)))
    (a : Attributes) : Preserves I (ofObjects settings infer objects a) := by
  unfold ofObjects
  split
  · next targets htargets =>
    refine hdefer targets a ?_ (ne_nil_of_targets? htargets)
    unfold targets? at htargets
    split at htargets
    · next hrefs => exact hrefs
    · cases htargets
  · split
    · exact (hinfer _ _).bind fun values => hshare (.map values) a (by simp)
    · refine (Preserves.mapM (fun key => ?_) _).bind
        fun properties => hshare (.record (.ofList properties)) a (by simp)
      exact (hinfer _ _).bind fun _ => preserves_pure _

include hjoin

theorem preserves_ofSightings (fuel : Nat) (xs : List Sighting) (a : Attributes) :
    Preserves I (ofSightings settings fuel xs a) := by
  have hwhenAny : ∀ {α : Type} (containers : List α)
      (type : List α → Attributes → StateM Inference NodeId),
      (∀ a, Preserves I (type containers a)) →
        Preserves I (whenAny containers type) := fun containers type htype => by
    unfold whenAny
    split
    · exact preserves_pure []
    · exact (htype .empty).map
  induction fuel generalizing xs a with
  | zero => exact hshare (.primitive .none) .empty (by simp)
  | succ fuel ih =>
    unfold ofSightings ofEvidence ofArrays
    refine Preserves.bind ?_ fun scalars =>
      (hwhenAny _ _ (preserves_ofObjects settings hshare hdefer ih _)).bind fun os =>
        (hwhenAny _ _ fun a => ?_).bind fun as => hjoin _ a
    · refine (Preserves.mapM (fun p => hshare (.primitive p) _ (by simp)) _).bind fun ps => ?_
      exact (Preserves.mapM (fun cases => hshare (.enumeration cases) _ (by simp)) _).bind
        fun es => preserves_pure (ps ++ es)
    · exact (ih _ _).bind fun items => hshare (.array items) a (by simp)

end Steps

theorem preserves_onGraph {α : Type} {I : Inference → Prop} {f : Graph → Graph × α}
    (hf : ∀ s, I s → I { s with graph := (f s.graph).1 }) : Preserves I (onGraph f) :=
  hf

/-- From this number on, the intersections of the graph are the pending nodes, and each of them has
references. -/
structure PendingFrom (first : Nat) (s : Inference) : Prop where
  size : first ≤ s.graph.size
  pending : ∀ t members, first ≤ t → s.graph.shape t = .intersection members →
    ∃ targets, s.pending.find? t = some targets
  references : ∀ t targets, s.pending.find? t = some targets → first ≤ t ∧ targets.toList ≠ []

theorem pendingFrom_start (graph : Graph) : PendingFrom graph.size (.start graph) where
  size := Nat.le_refl _
  pending _ _ hle ht := absurd ((Graph.shape_of_size_le hle).symm.trans ht) nofun
  references _ _ ht := nomatch ht

section PendingFrom

variable {first : Nat} {s : Inference}

theorem PendingFrom.setGraph (h : PendingFrom first s) {g : Graph} (hsize : s.graph.size ≤ g.size)
    (hshape : ∀ t members, g.shape t = .intersection members →
      s.graph.shape t = .intersection members) : PendingFrom first { s with graph := g } where
  size := Nat.le_trans h.size hsize
  pending t members hle ht := h.pending t members hle (hshape t members ht)
  references := h.references

theorem PendingFrom.share (h : PendingFrom first s) (shape : Shape)
    (hshape : ∀ members, shape ≠ .intersection members) (a : Attributes) :
    PendingFrom first { s with graph := (s.graph.share shape a).1 } := by
  refine h.setGraph (s.graph.share_spec shape a).1.size fun t members ht => ?_
  rcases s.graph.shape_share shape a t with hsame | hnew
  · exact hsame.symm.trans ht
  · exact absurd (hnew.symm.trans ht) (hshape members)

theorem PendingFrom.defer (h : PendingFrom first s) {targets : SortedSet String}
    (htargets : targets.toList ≠ []) (a : Attributes) :
    PendingFrom first ((defer targets a).run s).2 := by
  obtain ⟨hext, -, hsize, -⟩ := s.graph.fresh_spec (.intersection none) a
  have hpending : ∀ t, ((Inference.defer targets a).run s).2.pending.find? t =
      if t = s.graph.size then some targets else s.pending.find? t := fun t =>
    SortedMap.find?_insert s.pending s.graph.size t targets
  refine ⟨Nat.le_trans h.size hext.size, fun t members hle ht => ?_, fun t known ht => ?_⟩
  · rw [hpending]
    split
    · exact ⟨targets, rfl⟩
    · next hne =>
      have hlt := Graph.lt_size_of_shape ht nofun
      have hold : t < s.graph.size :=
        Nat.lt_of_le_of_ne (Nat.le_of_lt_succ (Nat.lt_of_lt_of_eq hlt hsize)) hne
      exact h.pending t members hle ((hext.shape t hold).symm.trans ht)
  · rw [hpending] at ht
    split at ht
    · next heq =>
      obtain rfl := Option.some.inj ht
      exact ⟨heq ▸ h.size, htargets⟩
    · exact h.references t known ht

end PendingFrom

/-- An inference leaves pending the intersections that it makes, each with references. -/
theorem pendingFrom_ofSightings {first : Nat} (settings : Settings) (fuel : Nat)
    (xs : List Sighting) (a : Attributes) :
    Preserves (PendingFrom first) (ofSightings settings fuel xs a) := by
  refine preserves_ofSightings settings
    (fun shape a hshape => preserves_onGraph fun s hs => hs.share shape hshape a)
    (fun targets a _ htargets s hs => hs.defer htargets a) (fun types a => ?_) fuel xs a
  refine preserves_onGraph fun s hs => ?_
  split
  · exact hs.share (.primitive .none) nofun .empty
  · next only _ =>
    dsimp only
    split
    · exact hs
    · refine hs.setGraph (s.graph.extends_addAttributes only a).size fun t members ht => ?_
      rwa [Graph.shape_addAttributes] at ht
  · exact hs.share (.union (some types)) nofun a

/-- Where references are not handled, nothing becomes pending. -/
theorem pending_eq_of_no_refs {settings : Settings} (hrefs : settings.handleRefs = false)
    (fuel : Nat) (xs : List Sighting) (a : Attributes) (s : Inference) :
    ((ofSightings settings fuel xs a).run s).2.pending = s.pending := by
  refine preserves_ofSightings settings (I := fun s' => s'.pending = s.pending)
    (fun shape a _ => preserves_onGraph fun s' hs' => hs')
    (fun targets a htrue => absurd (hrefs.symm.trans htrue) nofun)
    (fun types a => preserves_onGraph fun s' hs' => hs') fuel xs a s rfl

/-- An inference publishes nothing. -/
theorem topLevels_ofSightings (settings : Settings) (fuel : Nat) (xs : List Sighting)
    (a : Attributes) (s : Inference) :
    ((ofSightings settings fuel xs a).run s).2.graph.topLevels = s.graph.topLevels := by
  refine preserves_ofSightings settings (I := fun s' => s'.graph.topLevels = s.graph.topLevels)
    (fun shape a _ => preserves_onGraph fun s' hs' => ?_) (fun targets a _ _ s' hs' => hs')
    (fun types a => preserves_onGraph fun s' hs' => ?_) fuel xs a s rfl
  · rwa [Graph.topLevels_share]
  · split
    · rwa [Graph.topLevels_share]
    · dsimp only
      split
      · exact hs'
      · rwa [Graph.topLevels_addAttributes]
    · rwa [Graph.topLevels_share]

end Inference

end JsonTyping
