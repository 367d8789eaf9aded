import JsonTyping.Proofs.CombinedAttributes
import JsonTyping.Proofs.GraphCalls
import JsonTyping.Proofs.SchemaConversion

/-!
# Attributes that include others

Attributes include others when combining the two adds nothing (`Attributes.Includes`), so they hold
for whatever the others were noted for: given names are there (`Attributes.Includes.given`), and a
range holds all values of the other one (`Attributes.Includes.allowsNumber`). A graph that is built
further keeps the shapes that are known, and the attributes of its nodes include what they were
before (`Graph.Gains`).
-/

namespace JsonTyping

namespace Bounds

variable {α : Type} [LinearOrder α] {x : α}

/-- The value lies within the range; a missing end is open. -/
structure Contains (b : Bounds α) (x : α) : Prop where
  low : ∀ low, b.low = some low → low ≤ x
  high : ∀ high, b.high = some high → x ≤ high

/-- A wider range holds the values of both. -/
theorem Contains.widen_right {c : Bounds α} (h : c.Contains x) (b : Bounds α) :
    (b.widen min max c).Contains x := by
  obtain ⟨bl, bh⟩ := b
  obtain ⟨cl, ch⟩ := c
  constructor
  · intro low hlow
    cases bl <;> cases cl <;> cases hlow
    exact (min_le_right _ _).trans (h.low _ rfl)
  · intro high hhigh
    cases bh <;> cases ch <;> cases hhigh
    exact (h.high _ rfl).trans (le_max_right _ _)

end Bounds

namespace Attributes

/-- A number with this value lies within the range, if there is one. -/
def AllowsNumber (a : Attributes) (units : Int) : Prop :=
  ∀ range, a.range = some range → range.values.Contains units

/-- A text of this length lies within the limits, if there are any. -/
def AllowsLength (a : Attributes) (length : Nat) : Prop :=
  ∀ limits, a.length = some limits → limits.Contains length

/-- Combining with the second attributes adds nothing to the first ones. -/
def Includes (a b : Attributes) : Prop := (a.combine b).Same a

variable {a b c : Attributes}

@[refl] theorem Includes.refl (a : Attributes) : a.Includes a := Same.of_eq (combine_self a)

theorem Includes.of_eq (h : a = b) : a.Includes b := h ▸ .refl a

theorem includes_empty (a : Attributes) : a.Includes empty := Same.of_eq (combine_empty a)

theorem Includes.trans (hab : a.Includes b) (hbc : b.Includes c) : a.Includes c :=
  calc (a.combine c).Same ((a.combine b).combine c) := hab.symm.combine (.refl c)
    _ = a.combine (b.combine c) := combine_assoc a b c
    Same _ (a.combine b) := (Same.refl a).combine hbc
    Same _ a := hab

theorem includes_combine_right (a b : Attributes) : (a.combine b).Includes b :=
  Same.of_eq (by rw [combine_assoc, combine_self])

theorem includes_combine_left (a b : Attributes) : (a.combine b).Includes a :=
  calc ((a.combine b).combine a).Same (a.combine (a.combine b)) := combine_comm _ a
    _ = a.combine b := by rw [← combine_assoc, combine_self]

theorem Includes.given (h : a.Includes b) {name : String} (hname : name ∈ b.names.given) :
    name ∈ a.names.given := by
  have hunion : (a.combine b).names.given = a.names.given := congrArg Names.given h.names
  rw [← hunion]
  exact SortedSet.mem_union.2 (.inr hname)

/-- What lies within the range of the included attributes lies within the one that includes it. -/
theorem Includes.allowsNumber (h : a.Includes b) {range : Bounds Double} (hb : b.range = some range)
    {units : Int} (hunits : range.values.Contains units) : a.AllowsNumber units := by
  intro wide hwide
  have hrange := h.range
  rw [range_combine, hwide, hb] at hrange
  have hvalues : wide.values.widen min max range.values = wide.values := Option.some.inj hrange
  rw [← hvalues]
  exact hunits.widen_right wide.values

theorem Includes.allowsLength (h : a.Includes b) {limits : Bounds Nat} (hb : b.length = some limits)
    {length : Nat} (hlength : limits.Contains length) : a.AllowsLength length := by
  intro wide hwide
  have hlimits := h.length
  simp only [combine, hwide, hb] at hlimits
  have hvalues : wide.widen min max limits = wide := Option.some.inj hlimits
  rw [← hvalues]
  exact hlength.widen_right wide

end Attributes

namespace Graph

/-- What is known of the first graph is known of the second: shapes, and attributes at least. -/
structure Gains (g g' : Graph) : Prop where
  keeps : g.Keeps g'
  attributes : ∀ t, (g'.attributes t).Includes (g.attributes t)

variable {g g' k : Graph}

theorem Gains.refl (g : Graph) : g.Gains g := ⟨.refl g, fun _ => .refl _⟩

theorem Gains.trans (h : g.Gains g') (h' : g'.Gains k) : g.Gains k :=
  ⟨h.keeps.trans h'.keeps, fun t => (h'.attributes t).trans (h.attributes t)⟩

theorem gains_addAttributes (g : Graph) (t : NodeId) (a : Attributes) :
    g.Gains (g.addAttributes t a) := by
  refine ⟨(extends_addAttributes g t a).keeps, fun u => ?_⟩
  rcases Nat.lt_or_ge t g.size with hlt | hge
  · rw [attributes_addAttributes hlt]
    split
    · exact Attributes.includes_combine_left _ a
    · exact .refl _
  · -- A node that is not there gets nothing.
    have hsame : (g.addAttributes t a).attributes u = g.attributes u := by
      unfold addAttributes
      split
      · rfl
      · simp only [attributes, Array.getElem?_modify]
        by_cases htu : t = u
        · subst htu
          rw [if_pos rfl, Array.getElem?_eq_none hge]
          rfl
        · rw [if_neg htu]
    exact .of_eq hsame

theorem gains_push (g : Graph) (node : Node) :
    g.Gains { g with nodes := g.nodes.push node } := by
  refine ⟨(extends_push g node).keeps, fun u => ?_⟩
  rw [attributes_push]
  split
  · next hu =>
    rw [hu, attributes_of_size_le (Nat.le_refl _)]
    exact Attributes.includes_empty _
  · exact .refl _

theorem gains_fresh (g : Graph) (s : Shape) (a : Attributes) : g.Gains (g.fresh s a).1 :=
  gains_push g _

theorem attributes_fresh (g : Graph) (s : Shape) (a : Attributes) :
    (g.fresh s a).1.attributes g.size = a := by
  simp only [fresh, attributes_push, if_true]

theorem gains_share (g : Graph) (s : Shape) (a : Attributes) : g.Gains (g.share s a).1 := by
  unfold share
  split
  · exact gains_addAttributes g _ a
  · exact gains_push g _

theorem includes_share (g : Graph) (s : Shape) (a : Attributes) :
    ((g.share s a).1.attributes (g.share s a).2).Includes a := by
  rw [attributes_share, if_pos rfl]
  exact Attributes.includes_combine_right _ a

theorem gains_union {members : SortedSet NodeId} {a : Attributes} {t : NodeId}
    (h : g.union members a = .ok (g', t)) : g.Gains g' := by
  unfold union at h
  split at h
  · cases h
  · obtain ⟨rfl, rfl⟩ := Prod.mk.inj (Except.ok.inj h)
    exact gains_addAttributes g _ a
  · have hgains := gains_share g (.union (some members)) a
    rwa [Except.ok.inj h] at hgains

theorem gains_setMembers {t : NodeId} {members : SortedSet NodeId}
    (h : g.setMembers t members = .ok g') : g.Gains g' :=
  ⟨Conversion.keeps_setMembers h, fun u => .of_eq (attributes_setMembers h u)⟩

theorem gains_publish? {name : String} {t : NodeId} (h : g.publish? name t = some g') :
    g.Gains g' := by
  unfold publish? at h
  split at h
  · cases h
  · obtain rfl := Option.some.inj h
    exact ⟨fun _ _ => rfl, fun _ => .refl _⟩

end Graph

end JsonTyping
