import JsonTyping.Proofs.DescriptionsUpToNumbers
import JsonTyping.Proofs.FilledTypes
import Mathlib.Data.Set.Function

/-!
# Isomorphic types

Types of two graphs are isomorphic when the nodes that are reached from them are the same but for
their numbers and attributes (`Graph.Isomorphic`). A one-to-one relation between nodes of
corresponding shapes makes related types isomorphic (`Graph.isomorphic_of_corresponds`).
-/

namespace JsonTyping

theorem Paired.imp {α β : Type} {R S : α → β → Prop} {l : List α} {k : List β} (h : Paired R l k)
    (hRS : ∀ a b, R a b → S a b) : Paired S l k := by
  have hmap := h.map (f := id) (g := id) hRS
  rwa [List.map_id, List.map_id] at hmap

theorem Paired.append {α β : Type} {R : α → β → Prop} {l l' : List α} {k k' : List β}
    (h : Paired R l k) (h' : Paired R l' k') : Paired R (l ++ l') (k ++ k') := by
  constructor
  · intro a ha
    rcases List.mem_append.1 ha with ha | ha
    · obtain ⟨b, hb, hab⟩ := h.1 a ha
      exact ⟨b, List.mem_append_left k' hb, hab⟩
    · obtain ⟨b, hb, hab⟩ := h'.1 a ha
      exact ⟨b, List.mem_append_right k hb, hab⟩
  · intro b hb
    rcases List.mem_append.1 hb with hb | hb
    · obtain ⟨a, ha, hab⟩ := h.2 b hb
      exact ⟨a, List.mem_append_left l' ha, hab⟩
    · obtain ⟨a, ha, hab⟩ := h'.2 b hb
      exact ⟨a, List.mem_append_right l ha, hab⟩

theorem paired_of_forall₂ {α β : Type} {R : α → β → Prop} {l : List α} {k : List β}
    (h : List.Forall₂ R l k) : Paired R l k :=
  ⟨fun _ ha => exists_right_of_forall₂ h ha, fun _ hb => exists_left_of_forall₂ h hb⟩

namespace Graph

/-- One renumbering takes the nodes that are reached from the first type to those that are reached
from the second one, with the same shapes. -/
def Isomorphic (g : Graph) (t : NodeId) (g' : Graph) (t' : NodeId) : Prop :=
  ∃ f : NodeId → NodeId, f t = t' ∧ Set.BijOn f {u | g.Reaches t u} {u | g'.Reaches t' u} ∧
    ∀ u, g.Reaches t u → Corresponds (fun v w => f v = w) (g.shape u) (g'.shape (f u))

variable {R S : NodeId → NodeId → Prop} {s s' : Shape}

theorem SameProperties.types {p q : SortedMap String Property} (h : SameProperties R p q) :
    Paired R (p.values.map Property.type) (q.values.map Property.type) := by
  apply paired_of_forall₂
  unfold SortedMap.values
  rw [List.map_map, List.map_map]
  refine List.forall₂_map_left_iff.2 (List.forall₂_map_right_iff.2 ?_)
  exact List.Forall₂.imp (fun e f hef => hef.2.2) h

theorem Corresponds.imp (h : Corresponds R s s') (hRS : ∀ t u, R t u → S t u) :
    Corresponds S s s' := by
  have hproperties : ∀ {p q : SortedMap String Property}, SameProperties R p q →
      SameProperties S p q := fun hpq =>
    List.Forall₂.imp (fun e f hef => ⟨hef.1, hef.2.1, hRS _ _ hef.2.2⟩) hpq
  cases h with
  | primitive kind => exact .primitive kind
  | enumeration cases => exact .enumeration cases
  | array htu => exact .array (hRS _ _ htu)
  | record hpq => exact .record (hproperties hpq)
  | object hpq hadditional =>
    refine .object (hproperties hpq) ?_
    cases hadditional with
    | none => exact .none
    | some htu => exact .some (hRS _ _ htu)
  | map htu => exact .map (hRS _ _ htu)
  | union hlk => exact .union (hlk.imp hRS)
  | intersection hlk => exact .intersection (hlk.imp hRS)

/-- Corresponding shapes name related nodes. -/
theorem Corresponds.parts (h : Corresponds R s s') : Paired R s.parts s'.parts := by
  cases h with
  | primitive kind => exact ⟨nofun, nofun⟩
  | enumeration cases => exact ⟨nofun, nofun⟩
  | array htu => exact .singleton htu
  | record hpq => exact hpq.types
  | object hpq hadditional =>
    refine hpq.types.append ?_
    cases hadditional with
    | none => exact ⟨nofun, nofun⟩
    | some htu => exact .singleton htu
  | map htu => exact .singleton htu
  | union hlk => exact hlk
  | intersection hlk => exact hlk

variable {g g' : Graph} {t t' : NodeId}

/-- From related types, related nodes are reached. -/
theorem Reaches.exists_related
    (hparts : ∀ u u', R u u' → ∀ v ∈ (g.shape u).parts, ∃ v' ∈ (g'.shape u').parts, R v v')
    (ht : R t t') {u : NodeId} (hu : g.Reaches t u) : ∃ u', g'.Reaches t' u' ∧ R u u' := by
  induction hu with
  | refl => exact ⟨t', .refl, ht⟩
  | part _ hv ih =>
    obtain ⟨u', hu', hR⟩ := ih
    obtain ⟨v', hv', hR'⟩ := hparts _ u' hR _ hv
    exact ⟨v', hu'.part hv', hR'⟩

/-- A one-to-one relation between nodes whose parts are related renumbers what is reached. -/
theorem exists_renumbering (hR : Relator.BiUnique R)
    (hparts : ∀ u u', R u u' → Paired R (g.shape u).parts (g'.shape u').parts) (ht : R t t') :
    ∃ f : NodeId → NodeId, f t = t' ∧
      Set.BijOn f {u | g.Reaches t u} {u | g'.Reaches t' u} ∧
      (∀ u u', R u u' → f u = u') ∧ ∀ u, g.Reaches t u → R u (f u) := by
  classical
  -- The renumbering follows the relation, where there is a related node.
  obtain ⟨f, hf⟩ : ∃ f : NodeId → NodeId, ∀ u u', R u u' → f u = u' := by
    refine ⟨fun u => if h : ∃ u', R u u' then h.choose else u, fun u u' hu => ?_⟩
    have hex : ∃ u', R u u' := ⟨u', hu⟩
    simp only [dif_pos hex]
    exact hR.2 hex.choose_spec hu
  have hleft : ∀ u, g.Reaches t u → R u (f u) ∧ g'.Reaches t' (f u) := by
    intro u hu
    obtain ⟨u', hu', hrelated⟩ := hu.exists_related (fun v v' hv => (hparts v v' hv).1) ht
    rw [hf u u' hrelated]
    exact ⟨hrelated, hu'⟩
  have hright : ∀ u', g'.Reaches t' u' → ∃ u, g.Reaches t u ∧ R u u' := fun u' hu' =>
    Reaches.exists_related (R := fun v' v => R v v') (fun v' v hv => (hparts v v' hv).2) ht hu'
  refine ⟨f, hf t t' ht, ⟨fun u hu => (hleft u hu).2, ?_, ?_⟩, hf, fun u hu => (hleft u hu).1⟩
  · intro u hu v hv heq
    have hrelated := (hleft u hu).1
    rw [heq] at hrelated
    exact hR.1 hrelated (hleft v hv).1
  · intro u' hu'
    obtain ⟨u, hu, hrelated⟩ := hright u' hu'
    exact ⟨u, hu, hf u u' hrelated⟩

theorem isomorphic_of_corresponds (hR : Relator.BiUnique R)
    (hshape : ∀ u u', R u u' → Corresponds R (g.shape u) (g'.shape u')) (ht : R t t') :
    g.Isomorphic t g' t' := by
  obtain ⟨f, hstart, hbijective, hf, hrelated⟩ :=
    exists_renumbering hR (fun u u' hu => (hshape u u' hu).parts) ht
  exact ⟨f, hstart, hbijective, fun u hu => (hshape u (f u) (hrelated u hu)).imp hf⟩

end Graph

end JsonTyping
