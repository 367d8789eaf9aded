import JsonTyping.Proofs.BatchFailures
import JsonTyping.Proofs.ConversionSafety
import JsonTyping.Proofs.SourceRefusals

/-!
# What a batch keeps

A batch adds sources and converts references, one after the other, over one library and one record
of types. `Conversion.Later` says that one state comes after another in that; what was answered and
what has a type stays so (`Conversion.Later.remembers`, `Conversion.Later.lookup`), also when a
conversion in between fails and is undone. Every conversion of a batch runs between two such states,
and none is a misuse (`Batch.ran_convertAll`).
-/

namespace JsonTyping

namespace Conversion

/-- The second state comes after the first one in a batch. A conversion that is undone began after
the first state. -/
inductive Later (s : Conversion) : Conversion → Prop
  | refl : Later s s
  | steps {s₁ s₂ : Conversion} (h : Later s s₁) (hsteps : Steps s₁ s₂) : Later s s₂
  | next {s₁ : Conversion} (h : Later s s₁) (graph : Graph) :
      Later s ⟨s₁.library, graph, s₁.types, []⟩
  | undone {s₁ s₂ : Conversion} (h : Later s s₁) (hfresh : s₁.journal = [])
      (hsteps : Steps s₁ s₂) : Later s ⟨s₂.library, s₂.graph, s₂.rolledBack, []⟩

variable {s s₁ s' : Conversion}

theorem Later.trans (h : Later s s₁) (h' : Later s₁ s') : Later s s' := by
  induction h' with
  | refl => exact h
  | steps _ hsteps ih => exact .steps ih hsteps
  | next _ graph ih => exact .next ih graph
  | undone _ hfresh hsteps ih => exact .undone ih hfresh hsteps

theorem Later.uses (h : Later s s') : s.library.Uses s'.library := by
  induction h with
  | refl => exact .refl
  | steps _ hsteps ih => exact ih.trans hsteps.uses
  | next _ _ ih => exact ih
  | undone _ _ hsteps ih => exact ih.trans hsteps.uses

theorem Later.remembers (h : Later s s') : s.library.Remembers s'.library := h.uses.remembers

/-- A type that a place has is its type for good. -/
theorem Later.lookup (h : Later s s') {r : Reference} {t : NodeId}
    (ht : s.types.lookup r = some t) : s'.types.lookup r = some t := by
  induction h with
  | refl => exact ht
  | steps _ hsteps ih => exact hsteps.grows.lookup ih
  | next _ _ ih => exact ih
  | undone _ hfresh hsteps ih =>
    dsimp only
    rw [rolledBack_eq hsteps.grows hfresh]
    exact ih

end Conversion

open Conversion

namespace Batch

/-- The annotators are proper, and the references that are known can be written. -/
structure Sane (b : Batch) : Prop where
  annotators : Proper b.annotators
  spells : b.library.Spells
  pending : ∀ e ∈ b.pending, e.2.IsWritten

theorem sane_ofStore (store : Option Store) : Sane (ofStore store) :=
  ⟨proper_builtin, Library.spells_ofStore store, nofun⟩

theorem isWritten_topLevelOf (name : Option String) (root : Option Reference) (uri : String) :
    (topLevelOf name root uri).2.IsWritten := by
  cases root with
  | none => exact Reference.isWritten_parse uri
  | some root => exact (Reference.isWritten_parse uri).resolveAgainst root

theorem Serves.sane {b b' : Batch} {s : Source} {uris : List String} {root : Option Reference}
    (h : Serves b s uris b' root) (hb : b.Sane) : b'.Sane := by
  cases h with
  | nothing _ => exact hb
  | document _ _ => exact ⟨hb.annotators, hb.spells.addDocument _ _, hb.pending⟩

theorem Sane.addUris {b : Batch} (hb : b.Sane) (name : Option String) (root : Option Reference)
    (uris : List String) : (addUris name root b uris).1.Sane := by
  have hadded : ∀ l : List String,
      Sane { b with pending := b.pending ++ l.map (topLevelOf name root) } := by
    refine fun l => ⟨hb.annotators, hb.spells, fun e he => ?_⟩
    rcases List.mem_append.1 he with he | he
    · exact hb.pending e he
    · obtain ⟨uri, -, rfl⟩ := List.mem_map.1 he
      exact isWritten_topLevelOf name root uri
  obtain hall | ⟨before, uri, after, -, -, hrefused⟩ := addUris_cases name root uris b
  · rw [hall]
    exact hadded uris
  · rw [hrefused]
    exact hadded before

theorem Sane.addSource {b : Batch} (hb : b.Sane) (s : Source) : (b.addSource s).1.Sane := by
  obtain ⟨-, hnone⟩ | ⟨uris, text, message, -, -, -, hunread⟩ |
    ⟨uris, b₁, root, -, hserves, hadds⟩ := addSource_cases b s
  · rw [hnone]
    exact hb
  · rw [hunread]
    exact hb
  · rw [hadds]
    exact (hserves.sane hb).addUris _ root uris

/-- A reference was converted under this name in between, with this type. -/
def Converts (b : Batch) (s s' : Conversion) (entries : List (String × Reference))
    (e : String × NodeId) : Prop :=
  ∃ r s₁ s₂, (e.1, r) ∈ entries ∧ Later s s₁ ∧
    outcome (convertTopLevel b.annotators e.1 r) s₁ = (.ok e.2, s₂) ∧ Later s₂ s'

/-- What a run over references keeps, and what it reports. -/
structure Ran (b : Batch) (graph : Graph) (report : Report) (entries : List (String × Reference))
    (b' : Batch) (graph' : Graph) (result : Except Halt Report) : Prop where
  later : Later (b.conversion graph) (b'.conversion graph')
  annotators : b'.annotators = b.annotators
  pending : b'.pending = b.pending
  noMisuse : ∀ cause, result ≠ .error (.misuse cause)
  converted : ∀ report', result = .ok report' → ∀ e ∈ report'.converted,
    e ∈ report.converted ∨ Converts b (b.conversion graph) (b'.conversion graph') entries e

theorem Converts.of_later {b b₁ : Batch} {s s₁ s' : Conversion}
    {entries : List (String × Reference)} {e : String × NodeId}
    (h : Converts b₁ s₁ s' entries e) (hannotators : b₁.annotators = b.annotators)
    (hlater : Later s s₁) (first : String × Reference) : Converts b s s' (first :: entries) e := by
  obtain ⟨r, s₂, s₃, hmem, hbefore, hrun, hafter⟩ := h
  rw [hannotators] at hrun
  exact ⟨r, s₂, s₃, List.mem_cons_of_mem _ hmem, hlater.trans hbefore, hrun, hafter⟩

/-- The run goes on after its first reference. -/
theorem Ran.cons {b b₁ b' : Batch} {graph graph₁ graph' : Graph} {report report₁ : Report}
    {entries : List (String × Reference)} {result : Except Halt Report}
    (h : Ran b₁ graph₁ report₁ entries b' graph' result)
    (hannotators : b₁.annotators = b.annotators) (hpending : b₁.pending = b.pending)
    (hlater : Later (b.conversion graph) (b₁.conversion graph₁)) (first : String × Reference)
    (hreport : ∀ e ∈ report₁.converted, e ∈ report.converted ∨
      Converts b (b.conversion graph) (b'.conversion graph') (first :: entries) e) :
    Ran b graph report (first :: entries) b' graph' result where
  later := hlater.trans h.later
  annotators := h.annotators.trans hannotators
  pending := h.pending.trans hpending
  noMisuse := h.noMisuse
  converted report' hresult e he := by
    rcases h.converted report' hresult e he with hold | hnew
    · exact hreport e hold
    · exact .inr (hnew.of_later hannotators hlater first)

/-- A run over references that can be written is no misuse, and what it reports was converted in its
course. -/
theorem ran_convertAll {entries : List (String × Reference)}
    (hentries : ∀ e ∈ entries, e.2.IsWritten) {b b' : Batch} {graph graph' : Graph}
    {report : Report} {result : Except Halt Report} (hproper : Proper b.annotators)
    (hspells : b.library.Spells)
    (hrun : convertAll b graph report entries = (b', graph', result)) :
    Ran b graph report entries b' graph' result := by
  induction entries generalizing b graph report with
  | nil =>
    obtain ⟨rfl, rfl, rfl⟩ := hrun
    refine ⟨.refl, rfl, rfl, nofun, fun report' hreport e he => ?_⟩
    obtain rfl := Except.ok.inj hreport
    exact .inl he
  | cons entry entries ih =>
    obtain ⟨name, r⟩ := entry
    have hrest : ∀ e ∈ entries, e.2.IsWritten := fun e he =>
      hentries e (List.mem_cons_of_mem _ he)
    have hsafe : Safe (b.conversion graph) (convertTopLevel b.annotators name r) _ :=
      safe_convertTopLevel hproper name (hentries (name, r) List.mem_cons_self)
    rcases hfirst : outcome (convertTopLevel b.annotators name r) (b.conversion graph)
      with ⟨e | t, s⟩
    · obtain ⟨hsteps, hmisuse⟩ := hsafe.error hspells hfirst
      have hspells' := hsteps.uses.spells hspells
      cases hfatal : e.isFatal with
      | true =>
        rw [convertAll_of_fatal hfirst hfatal] at hrun
        obtain ⟨rfl, rfl, rfl⟩ := hrun
        have hlater : Later (b.conversion graph) ⟨s.library, s.graph, s.types, []⟩ :=
          .next (.steps .refl hsteps) s.graph
        refine ⟨hlater, rfl, rfl, fun cause hcause => ?_, nofun⟩
        exact hmisuse cause (Except.error.inj hcause)
      | false =>
        obtain ⟨error, rfl⟩ : ∃ error, e = .schema error := by
          cases e with
          | schema error => exact ⟨error, rfl⟩
          | misuse cause => cases hfatal
          | tooDeep => cases hfatal
        rw [convertAll_of_error hfirst hfatal] at hrun
        have hran := ih (b := { b with library := s.library, types := s.rolledBack }) hrest hproper
          hspells' hrun
        refine hran.cons (b := b) rfl rfl (.undone .refl rfl hsteps) _ fun e he => .inl ?_
        rwa [Report.append_failed] at he
    · obtain ⟨hsteps, -⟩ := hsafe.ok hspells hfirst
      have hspells' := hsteps.uses.spells hspells
      have hnext : ∀ g, Later (b.conversion graph) ⟨s.library, g, s.types, []⟩ :=
        .next (.steps .refl hsteps)
      cases hpublish : s.graph.publish? name t with
      | none =>
        rw [convertAll_of_taken hfirst hpublish] at hrun
        have hran := ih (b := { b with library := s.library, types := s.types }) hrest hproper
          hspells' hrun
        refine hran.cons (b := b) rfl rfl (hnext s.graph) _ fun e he => .inl ?_
        rwa [Report.append_failed] at he
      | some graph₁ =>
        rw [convertAll_of_published hfirst hpublish] at hrun
        have hran := ih (b := { b with library := s.library, types := s.types }) hrest hproper
          hspells' hrun
        refine hran.cons (b := b) rfl rfl (hnext graph₁) _ fun e he => ?_
        rw [Report.append_converted] at he
        rcases List.mem_append.1 he with hold | hnew
        · exact .inl hold
        · obtain rfl := List.mem_singleton.1 hnew
          have hafter : Later s (conversion { b with library := s.library, types := s.types }
              graph₁) := .next .refl graph₁
          exact .inr ⟨r, _, s, List.mem_cons_self, .refl, hfirst, hafter.trans hran.later⟩

/-- Converting a batch is no misuse, and what it reports was converted in its course. -/
theorem Sane.convert {b b' : Batch} (hb : b.Sane) {graph graph' : Graph}
    {result : Except Halt Report} (hrun : b.convert graph = (b', graph', result)) :
    Ran { b with pending := [] } graph .empty b.pending b' graph' result :=
  ran_convertAll hb.pending hb.annotators hb.spells hrun

theorem Ran.sane {b b' : Batch} {graph graph' : Graph} {result : Except Halt Report} (hb : b.Sane)
    (h : Ran { b with pending := [] } graph .empty b.pending b' graph' result) : b'.Sane where
  annotators := by
    rw [h.annotators]
    exact hb.annotators
  spells := h.later.uses.spells hb.spells
  pending := by
    rw [h.pending]
    exact nofun

/-- The batches that come about: sources are added, also when they are refused, and converted, in
any order. -/
inductive Reached : Batch → Prop
  | ofStore (store : Option Store) : Reached (ofStore store)
  | addSource {b : Batch} (h : Reached b) (s : Source) : Reached (b.addSource s).1
  | convert {b : Batch} (h : Reached b) (graph : Graph) : Reached (b.convert graph).1

theorem Reached.sane {b : Batch} (h : Reached b) : b.Sane := by
  induction h with
  | ofStore store => exact sane_ofStore store
  | addSource _ s ih => exact ih.addSource s
  | convert _ graph ih => exact (ih.convert rfl).sane ih

end Batch

end JsonTyping
