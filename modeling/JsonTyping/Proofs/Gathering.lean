import JsonTyping.Proofs.CombinedAttributes
import JsonTyping.Proofs.Sightings

/-!
# Gathered attributes

Attributes without a range of numbers are combined to the same ones in any order
(`Attributes.combineAll_eq_of_mem_iff`). So what is gathered for a format depends only on which
texts there were (`Sighting.gather_eq_of_mem_iff`).
-/

namespace JsonTyping

namespace Attributes

/-- Nothing is known about numbers. -/
def Rangeless (a : Attributes) : Prop := a.range = none

theorem Rangeless.combine {a b : Attributes} (ha : a.Rangeless) (hb : b.Rangeless) :
    (a.combine b).Rangeless := by
  simp only [Rangeless, Attributes.combine]
  rw [ha, hb]
  rfl

theorem rangeless_combineAll {l : List Attributes} (hl : ∀ a ∈ l, a.Rangeless) :
    (combineAll l).Rangeless := by
  induction l using List.reverseRecOn with
  | nil => rfl
  | append_singleton l a ih =>
    rw [combineAll_concat]
    have hlast := hl a (List.mem_append_right l (List.mem_singleton_self a))
    exact (ih fun b hb => hl b (List.mem_append_left [a] hb)).combine hlast

/-- Without bounds of numbers, attributes that say the same are equal. -/
theorem Rangeless.eq_of_same {a b : Attributes} (ha : a.Rangeless) (h : a.Same b) : a = b := by
  obtain ⟨names, description, range, length, pattern, uri, alwaysOffset⟩ := a
  obtain ⟨hnames, hdescription, hrange, hlength, hpattern, huri, hoffset⟩ := h
  obtain rfl : range = none := ha
  have hnone : b.range = none := Option.map_eq_none_iff.1 hrange.symm
  obtain ⟨names', description', range', length', pattern', uri', alwaysOffset'⟩ := b
  simp only at hnames hdescription hlength hpattern huri hoffset hnone
  rw [hnames, hdescription, hlength, hpattern, huri, hoffset, hnone]

/-- Only which records are combined matters, not their order or number. -/
theorem combineAll_eq_of_mem_iff {l l' : List Attributes} (hl : ∀ a ∈ l, a.Rangeless)
    (h : ∀ a, a ∈ l ↔ a ∈ l') : combineAll l = combineAll l' :=
  (rangeless_combineAll hl).eq_of_same (combineAll_same_of_mem_iff h)

end Attributes

namespace Sighting

/-- The attributes found with a format. -/
def foundWith (found : List (Format × Attributes)) (f : Format) : List Attributes :=
  found.filterMap fun e => if e.1 = f then some e.2 else none

theorem mem_foundWith {found : List (Format × Attributes)} {f : Format} {a : Attributes} :
    a ∈ foundWith found f ↔ (f, a) ∈ found := by
  simp only [foundWith, List.mem_filterMap]
  constructor
  · rintro ⟨⟨g, b⟩, hmem, hb⟩
    split at hb
    · next hg =>
      obtain rfl := Option.some.inj hb
      exact hg ▸ hmem
    · cases hb
  · intro hmem
    exact ⟨(f, a), hmem, if_pos rfl⟩

theorem find?_gather (found : List (Format × Attributes)) (f : Format) :
    (gather found).find? f = if foundWith found f = [] then none
      else some (Attributes.combineAll (foundWith found f)) := by
  induction found using List.reverseRecOn with
  | nil => rfl
  | append_singleton found e ih =>
    obtain ⟨g, a⟩ := e
    rw [Table.gather_concat, SortedMap.find?_alter]
    by_cases hf : f = g
    · subst hf
      have hlast : foundWith (found ++ [(f, a)]) f = foundWith found f ++ [a] := by
        simp [foundWith]
      rw [if_pos rfl, hlast, if_neg (by simp), Attributes.combineAll_concat, ih]
      split
      · next hnone =>
        rw [hnone]
        rfl
      · rfl
    · have hsame : foundWith (found ++ [(g, a)]) f = foundWith found f := by
        simp [foundWith, Ne.symm hf]
      rw [if_neg hf, hsame, ih]

/-- What is gathered depends only on what is found, not on its order or number. -/
theorem gather_eq_of_mem_iff {found found' : List (Format × Attributes)}
    (hrange : ∀ e ∈ found, e.2.Rangeless) (h : ∀ e, e ∈ found ↔ e ∈ found') :
    gather found = gather found' := by
  refine SortedMap.ext_find? fun f => ?_
  have hmem : ∀ a, a ∈ foundWith found f ↔ a ∈ foundWith found' f := fun a => by
    rw [mem_foundWith, mem_foundWith, h]
  have hl : ∀ a ∈ foundWith found f, a.Rangeless := fun a ha => hrange (f, a) (mem_foundWith.1 ha)
  have hnil : foundWith found f = [] ↔ foundWith found' f = [] := by
    simp only [List.eq_nil_iff_forall_not_mem, hmem]
  have hall := Attributes.combineAll_eq_of_mem_iff hl hmem
  simp only [find?_gather, hnil, hall]

end Sighting

theorem Format.rangeless_traits (f : Format) (s : String) : (f.traits s).Rangeless := by
  cases f <;> rfl

end JsonTyping
