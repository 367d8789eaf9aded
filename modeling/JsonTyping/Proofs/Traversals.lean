import JsonTyping.Schema.Problem
import Mathlib.Data.Set.Insert

/-!
# Depth-first traversals

A schema calls for the types of other places one after the other, and something may be wrong with it
in between. A traversal follows the calls depth first, gets to every place once, and ends with the
first fault (`Traverses`). Which fault that is does not depend on the places that were seen before,
as long as all that these call for was seen as well (`Traverses.fault_unique`).
-/

namespace JsonTyping

inductive Call where
  | visit (r : Reference)
  | fault (error : SchemaError)

/-- Following the calls, when some places were seen before, ends with a fault, or else with the
places that were seen in the end. -/
inductive Traverses (calls : Reference → List Call) :
    Set Reference → List Call → Except SchemaError (Set Reference) → Prop
  | nil (seen : Set Reference) : Traverses calls seen [] (.ok seen)
  | fault (seen : Set Reference) (error : SchemaError) (rest : List Call) :
      Traverses calls seen (.fault error :: rest) (.error error)
  | seen {seen : Set Reference} {r : Reference} {rest : List Call}
      {result : Except SchemaError (Set Reference)} (hr : r ∈ seen)
      (hrest : Traverses calls seen rest result) : Traverses calls seen (.visit r :: rest) result
  | fails {seen : Set Reference} {r : Reference} {error : SchemaError} (hr : r ∉ seen)
      (h : Traverses calls (insert r seen) (calls r) (.error error)) (rest : List Call) :
      Traverses calls seen (.visit r :: rest) (.error error)
  | visits {seen seen' : Set Reference} {r : Reference} {rest : List Call}
      {result : Except SchemaError (Set Reference)} (hr : r ∉ seen)
      (h : Traverses calls (insert r seen) (calls r) (.ok seen'))
      (hrest : Traverses calls seen' rest result) : Traverses calls seen (.visit r :: rest) result

/-- Whatever the places call for is one of them. -/
def Call.Closed (calls : Reference → List Call) (places : Set Reference) : Prop :=
  ∀ r ∈ places, ∀ call ∈ calls r, ∃ r' ∈ places, call = .visit r'

namespace Traverses

variable {calls : Reference → List Call} {seen seen' places places' : Set Reference}
  {list list' : List Call} {result result' : Except SchemaError (Set Reference)}
  {error error' : SchemaError}

theorem append (h : Traverses calls seen list (.ok seen'))
    (h' : Traverses calls seen' list' result) : Traverses calls seen (list ++ list') result := by
  generalize hok : Except.ok seen' = first at h
  induction h with
  | nil seen =>
    obtain rfl := Except.ok.inj hok
    exact h'
  | fault => cases hok
  | seen hr _ ih => exact .seen hr (ih hok)
  | fails => cases hok
  | visits hr h _ _ ih => exact .visits hr h (ih hok)

theorem append_error (h : Traverses calls seen list (.error error)) (list' : List Call) :
    Traverses calls seen (list ++ list') (.error error) := by
  generalize herror : Except.error error = first at h
  induction h with
  | nil seen => cases herror
  | fault seen error' rest =>
    obtain rfl := Except.error.inj herror
    exact .fault seen error (rest ++ list')
  | seen hr _ ih => exact .seen hr (ih herror)
  | fails hr h rest =>
    obtain rfl := Except.error.inj herror
    exact .fails hr h (rest ++ list')
  | visits hr h _ _ ih => exact .visits hr h (ih herror)

theorem unique (h : Traverses calls seen list result) (h' : Traverses calls seen list result') :
    result = result' := by
  induction h generalizing result' with
  | nil =>
    cases h' with
    | nil => rfl
  | fault =>
    cases h' with
    | fault => rfl
  | seen hr _ ih =>
    cases h' with
    | seen _ hrest => exact ih hrest
    | fails hnot => exact absurd hr hnot
    | visits hnot => exact absurd hr hnot
  | fails hr _ _ ih =>
    cases h' with
    | seen hmem => exact absurd hmem hr
    | fails _ h => exact ih h
    | visits _ h => cases ih h
  | visits hr _ _ ih ihrest =>
    cases h' with
    | seen hmem => exact absurd hmem hr
    | fails _ h => cases ih h
    | visits _ h hrest =>
      obtain rfl := Except.ok.inj (ih h)
      exact ihrest hrest

theorem subset (h : Traverses calls seen list (.ok seen')) : seen ⊆ seen' := by
  generalize hok : Except.ok seen' = result at h
  induction h generalizing seen' with
  | nil =>
    obtain rfl := Except.ok.inj hok
    exact subset_rfl
  | fault => cases hok
  | seen _ _ ih => exact ih hok
  | fails => cases hok
  | visits _ _ _ ih ihrest => exact ((Set.subset_insert _ _).trans (ih rfl)).trans (ihrest hok)

/-- Every call was for a place that was seen in the end. -/
theorem exists_visit (h : Traverses calls seen list (.ok seen')) {call : Call}
    (hcall : call ∈ list) : ∃ r ∈ seen', call = .visit r := by
  generalize hok : Except.ok seen' = result at h
  induction h with
  | nil => cases hcall
  | fault => cases hok
  | @seen seen r rest _ hr hrest ih =>
    subst hok
    rcases List.mem_cons.1 hcall with rfl | hcall
    · exact ⟨r, hrest.subset hr, rfl⟩
    · exact ih hcall rfl
  | fails => cases hok
  | @visits seen seen₁ r rest _ hr h hrest _ ih =>
    subst hok
    rcases List.mem_cons.1 hcall with rfl | hcall
    · exact ⟨r, hrest.subset (h.subset (Set.mem_insert r seen)), rfl⟩
    · exact ih hcall rfl

/-- All that a new place calls for was seen in the end. -/
theorem exists_visit_of_new (h : Traverses calls seen list (.ok seen')) {r : Reference}
    (hr : r ∈ seen') (hnew : r ∉ seen) {call : Call} (hcall : call ∈ calls r) :
    ∃ r' ∈ seen', call = .visit r' := by
  generalize hok : Except.ok seen' = result at h
  induction h generalizing seen' with
  | nil =>
    obtain rfl := Except.ok.inj hok
    exact absurd hr hnew
  | fault => cases hok
  | seen _ _ ih => exact ih hr hnew hok
  | fails => cases hok
  | @visits seen seen₁ r₀ rest _ _ h hrest ih ihrest =>
    subst hok
    by_cases hr₁ : r ∈ seen₁
    · -- The place was seen below `r₀`, or it is `r₀`.
      have hbelow : ∃ r' ∈ seen₁, call = .visit r' := by
        by_cases hr₀ : r ∈ insert r₀ seen
        · rcases Set.mem_insert_iff.1 hr₀ with rfl | hseen
          · exact h.exists_visit hcall
          · exact absurd hseen hnew
        · exact ih hr₁ hr₀ rfl
      obtain ⟨r', hr', heq⟩ := hbelow
      exact ⟨r', hrest.subset hr', heq⟩
    · exact ihrest hr hr₁ rfl

theorem closed (h : Traverses calls places list (.ok places'))
    (hclosed : Call.Closed calls places) : Call.Closed calls places' := by
  intro r hr call hcall
  by_cases hold : r ∈ places
  · obtain ⟨r', hr', heq⟩ := hclosed r hold call hcall
    exact ⟨r', h.subset hr', heq⟩
  · exact h.exists_visit_of_new hr hold hcall

/-- From closed places a traversal gets to no others, and it finds no fault. -/
theorem within (hclosed : Call.Closed calls places) (h : Traverses calls seen list result)
    (hlist : ∀ call ∈ list, ∃ r ∈ places, call = .visit r) :
    ∃ seen', result = .ok seen' ∧ seen' ⊆ seen ∪ places := by
  induction h with
  | nil seen => exact ⟨seen, rfl, Set.subset_union_left⟩
  | fault seen error rest =>
    obtain ⟨r, -, heq⟩ := hlist _ List.mem_cons_self
    cases heq
  | seen _ _ ih => exact ih fun call hcall => hlist call (List.mem_cons_of_mem _ hcall)
  | @fails seen r error _ _ rest ih =>
    obtain ⟨r', hmem, heq⟩ := hlist _ List.mem_cons_self
    obtain rfl := Call.visit.inj heq
    obtain ⟨seen', hok, -⟩ := ih (hclosed r hmem)
    cases hok
  | @visits seen seen₁ r _ _ _ _ _ ih ihrest =>
    obtain ⟨r', hmem, heq⟩ := hlist _ List.mem_cons_self
    obtain rfl := Call.visit.inj heq
    obtain ⟨seen', hok, hsubset⟩ := ih (hclosed r hmem)
    obtain rfl := Except.ok.inj hok
    obtain ⟨seen₂, hresult, hrest⟩ :=
      ihrest fun call hcall => hlist call (List.mem_cons_of_mem _ hcall)
    have hinsert : insert r seen ∪ places = seen ∪ places := by
      rw [Set.insert_union, Set.insert_eq_of_mem (Set.mem_union_right seen hmem)]
    rw [hinsert] at hsubset
    exact ⟨seen₂, hresult, hrest.trans (Set.union_subset hsubset Set.subset_union_right)⟩

/-- A traversal goes the same way when closed places count as seen. -/
theorem union (hclosed : Call.Closed calls places) (h : Traverses calls seen list result) :
    Traverses calls (seen ∪ places) list (result.map (· ∪ places)) := by
  induction h with
  | nil seen => exact .nil (seen ∪ places)
  | fault seen error rest => exact .fault (seen ∪ places) error rest
  | seen hr _ ih => exact .seen (Set.mem_union_left places hr) ih
  | @fails seen r error hr h rest ih =>
    by_cases hmem : r ∈ places
    · obtain ⟨seen', hok, -⟩ := h.within hclosed (hclosed r hmem)
      cases hok
    · rw [Set.insert_union] at ih
      exact .fails (fun hunion => hunion.elim hr hmem) ih rest
  | @visits seen seen' r rest result hr h _ ih ihrest =>
    by_cases hmem : r ∈ places
    · obtain ⟨seen₁, hok, hsubset⟩ := h.within hclosed (hclosed r hmem)
      obtain rfl := Except.ok.inj hok
      have hsame : seen' ∪ places = seen ∪ places := by
        apply Set.Subset.antisymm
        · rw [Set.insert_union, Set.insert_eq_of_mem (Set.mem_union_right seen hmem)] at hsubset
          exact Set.union_subset hsubset Set.subset_union_right
        · exact Set.union_subset_union_left places ((Set.subset_insert r seen).trans h.subset)
      rw [hsame] at ihrest
      exact .seen (Set.mem_union_right seen hmem) ihrest
    · rw [Set.insert_union] at ih
      exact .visits (fun hunion => hunion.elim hr hmem) ih ihrest

/-- The fault that a traversal ends with is the same whichever closed places were seen before. -/
theorem fault_unique (hclosed : Call.Closed calls places) (hclosed' : Call.Closed calls places')
    (h : Traverses calls places list (.error error))
    (h' : Traverses calls places' list (.error error')) : error = error' := by
  have hboth : Traverses calls (places ∪ places') list (.error error) := h.union hclosed'
  have hboth' : Traverses calls (places' ∪ places) list (.error error') := h'.union hclosed
  rw [Set.union_comm] at hboth'
  exact Except.error.inj (hboth.unique hboth')

end Traverses

end JsonTyping
