import JsonTyping.Proofs.BatchOrder
import JsonTyping.Proofs.PlaceholderRuns

/-!
# Failures in a batch

A conversion that fails leaves nodes behind whose members were never set. What it registered is
forgotten, so later conversions do not come across these nodes (`Batch.convertAll_of_failure`), and
every type that is published has all its members (`Batch.convert_filled`). A fatal failure is
different: the batch ends there and nothing is forgotten, so a later call can publish a type without
members (`Batch.fatalFailure_leavesTypes`).
-/

namespace JsonTyping

namespace Conversion

theorem grows_convertTopLevel {annotators : List Annotator} {name : String} {r : Reference}
    {s s' : Conversion} {result : Except Halt NodeId}
    (hrun : outcome (convertTopLevel annotators name r) s = (result, s')) : Grows s s' := by
  have hs : TypesFilled Set.univ s := fun e _ => .of_pending (Set.mem_univ e.2)
  exact (fills_convertTopLevel annotators name r hs).grows hrun

end Conversion

open Conversion

namespace Batch

theorem convertAll_of_fatal {b : Batch} {graph : Graph} {report : Report} {name : String}
    {r : Reference} {rest : List (String × Reference)} {e : Halt} {s : Conversion}
    (hrun : outcome (convertTopLevel b.annotators name r) (b.conversion graph) = (.error e, s))
    (hfatal : e.isFatal = true) :
    convertAll b graph report ((name, r) :: rest) =
      ({ b with library := s.library, types := s.types }, s.graph, .error e) := by
  have hrun' : (convertTopLevel b.annotators name r).run ⟨b.library, graph, b.types, []⟩ =
      (.error e, s) := hrun
  rw [convertAll, hrun']
  cases e with
  | schema error =>
    have hfatal' : error.isFatal = true := hfatal
    dsimp only
    rw [if_pos hfatal']
  | misuse cause => rfl
  | tooDeep => rfl

/-- A failure that is not fatal leaves the types of places as they were before the conversion. A
fatal one ends the batch and leaves what the conversion registered before it. -/
theorem convertAll_of_failure (b : Batch) (graph : Graph) (report : Report) (name : String)
    (r : Reference) (rest : List (String × Reference)) {e : Halt} {s : Conversion}
    (hrun : outcome (convertTopLevel b.annotators name r) (b.conversion graph) = (.error e, s)) :
    (∀ error, e = .schema error → error.isFatal = false →
      convertAll b graph report ((name, r) :: rest) =
        convertAll { b with library := s.library } s.graph
          (report.append ⟨[], [(name, .schema error)]⟩) rest) ∧
    (e.isFatal = true → ∃ left, (∀ entry ∈ left, b.types.lookup entry.1 = none) ∧
      convertAll b graph report ((name, r) :: rest) =
        ({ b with library := s.library, types := left ++ b.types }, s.graph, .error e)) := by
  have hgrows : Grows (b.conversion graph) s := grows_convertTopLevel hrun
  constructor
  · rintro error rfl hfatal
    have htypes : s.rolledBack = b.types := rolledBack_eq hgrows rfl
    rw [convertAll_of_error hrun hfatal, htypes]
  · intro hfatal
    obtain ⟨left, htypes, -, hleft⟩ := hgrows.types
    refine ⟨left, hleft, ?_⟩
    have htypes' : s.types = left ++ b.types := htypes
    rw [convertAll_of_fatal hrun hfatal, htypes']

/-- A document whose second property has no type that is known. -/
def brokenBatch : Batch :=
  let schema : Json := .object [("properties", .object
    [("a", .object [("type", .string "string")]), ("b", .object [("type", .string "text")])])]
  ofStore (some (.memory [("broken.json", schema)] []))

theorem convertAll_of_failure_broken :
    ∃ s error, outcome (convertTopLevel brokenBatch.annotators "B" (.parse "broken.json"))
        (brokenBatch.conversion .empty) = (.error (.schema error), s) ∧
      s.types.length = 2 ∧
      ∀ report rest, convertAll brokenBatch .empty report (("B", .parse "broken.json") :: rest) =
        convertAll { brokenBatch with library := s.library } s.graph
          (report.append ⟨[], [("B", .schema error)]⟩) rest := by
  have herror : (outcome (convertTopLevel brokenBatch.annotators "B" (.parse "broken.json"))
      (brokenBatch.conversion .empty)).1 = .error (.schema (.unknownTypeName
        (.parse "broken.json#/properties/b") "text")) := by decide +kernel
  have htypes : (outcome (convertTopLevel brokenBatch.annotators "B" (.parse "broken.json"))
      (brokenBatch.conversion .empty)).2.types.length = 2 := by decide +kernel
  have hrun := Prod.fst_eq_iff.1 herror
  refine ⟨_, _, hrun, htypes, fun report rest => ?_⟩
  exact (convertAll_of_failure brokenBatch .empty report "B" _ rest hrun).1 _ rfl rfl

/-- A schema with a reference to a document, without a store to get it from. -/
def strandedBatch : Batch :=
  ((ofStore none).addSource ⟨some "A", [], some "\x7b\"$ref\":\"other.json\"\x7d"⟩).1

/-- After a fatal failure the types are not what they were before. A source that is added then is
converted to the type that was left behind, which has no members. -/
theorem fatalFailure_leavesTypes :
    let first := strandedBatch.convert .empty
    let second := (first.1.addSource ⟨some "B", ["A#/"], none⟩).1.convert first.2.1
    (first.2.2.map Report.converted = .error (.schema (.noSchemaStore "other.json")) ∧
      strandedBatch.types = [] ∧ first.1.types = [(.parse "A#/", 0)]) ∧
    second.2.2.map Report.converted = .ok [("B", 0)] ∧
      second.2.1.shape 0 = .intersection none := by
  decide +kernel

/-- A batch that no fatal failure ended so far, and the graph that it converts to. Between its calls
sources and annotators may be added, and the graph may be used for other things. -/
inductive Usable : Batch → Graph → Prop
  | new (store : Option Store) (graph : Graph) : Usable (ofStore store) graph
  | annotated {b : Batch} {graph : Graph} (h : Usable b graph) (annotators : List Annotator) :
      Usable { b with annotators } graph
  | added {b : Batch} {graph : Graph} (h : Usable b graph) (s : Source) :
      Usable (b.addSource s).1 graph
  | converted {b b' : Batch} {graph graph' : Graph} {report : Report} (h : Usable b graph)
      (hrun : b.convert graph = (b', graph', .ok report)) : Usable b' graph'
  | grown {b : Batch} {graph graph' : Graph} (h : Usable b graph)
      (hgraph : graph.Extends graph') : Usable b graph'

theorem types_addUris (name : Option String) (root : Option Reference) (uris : List String) :
    ∀ b : Batch, (addUris name root b uris).1.types = b.types := by
  induction uris with
  | nil => exact fun _ => rfl
  | cons uri uris ih =>
    intro b
    unfold addUris
    cases root <;>
    · dsimp only
      split
      · rfl
      · exact ih _

theorem types_addSource (b : Batch) (s : Source) : (b.addSource s).1.types = b.types := by
  unfold addSource
  dsimp only
  split
  · rfl
  · split
    · exact types_addUris _ _ _ b
    · split
      · rfl
      · exact types_addUris _ _ _ _

/-- The reported types are filled. -/
def ReportsFilled (graph : Graph) (report : Report) : Prop :=
  ∀ e ∈ report.converted, graph.FilledBut ∅ e.2

theorem ReportsFilled.append_failed {graph graph' : Graph} {report : Report}
    (h : ReportsFilled graph report) (hext : graph.Extends graph') (e : String × BatchError) :
    ReportsFilled graph' (report.append ⟨[], [e]⟩) := by
  rw [Report.append_failed]
  exact fun e he => (h e he).extends hext

theorem ReportsFilled.append_converted {graph graph' : Graph} {report : Report}
    (h : ReportsFilled graph report) (hext : graph.Extends graph') {name : String} {t : NodeId}
    (ht : graph'.FilledBut ∅ t) : ReportsFilled graph' (report.append ⟨[(name, t)], []⟩) := by
  rw [Report.append_converted]
  intro e he
  rcases List.mem_append.1 he with hold | hnew
  · exact (h e hold).extends hext
  · obtain rfl := List.mem_singleton.1 hnew
    exact ht

theorem extends_publish? {graph graph' : Graph} {name : String} {t : NodeId}
    (h : graph.publish? name t = some graph') : graph.Extends graph' := by
  refine ⟨?_, fun u _ => Graph.shape_publish? h u⟩
  unfold Graph.publish? at h
  split at h
  · cases h
  · obtain rfl := Option.some.inj h
    exact Nat.le_refl _

/-- A run over references keeps the registered types filled, also when some of them fail. -/
theorem filled_convertAll {entries : List (String × Reference)} {b b' : Batch}
    {graph graph' : Graph} {report report' : Report}
    (hs : TypesFilled ∅ (b.conversion graph)) (hreport : ReportsFilled graph report)
    (hrun : convertAll b graph report entries = (b', graph', .ok report')) :
    TypesFilled ∅ (b'.conversion graph') ∧ ReportsFilled graph' report' := by
  induction entries generalizing b graph report with
  | nil =>
    obtain ⟨rfl, rfl, hok⟩ := hrun
    exact ⟨hs, hreport⟩
  | cons entry entries ih =>
    obtain ⟨name, r⟩ := entry
    have hfills := fills_convertTopLevel b.annotators name r hs
    rcases hfirst : outcome (convertTopLevel b.annotators name r) (b.conversion graph)
      with ⟨e | t, s⟩
    · have hext : graph.Extends s.graph := (hfills.grows hfirst).graph
      obtain ⟨hgoesOn, hends⟩ := convertAll_of_failure b graph report name r entries hfirst
      cases hfatal : e.isFatal with
      | true =>
        obtain ⟨left, -, hend⟩ := hends hfatal
        rw [hend] at hrun
        cases hrun
      | false =>
        obtain ⟨error, rfl⟩ : ∃ error, e = .schema error := by
          cases e with
          | schema error => exact ⟨error, rfl⟩
          | misuse cause => cases hfatal
          | tooDeep => cases hfatal
        have hs₁ : TypesFilled ∅ (conversion { b with library := s.library } s.graph) :=
          hs.extends hext s.library
        rw [hgoesOn error rfl hfatal] at hrun
        exact ih hs₁ (hreport.append_failed hext _) hrun
    · have hext : graph.Extends s.graph := (hfills.grows hfirst).graph
      obtain ⟨htypes, ht⟩ := hfills.ok hfirst
      have hs₁ : ∀ graph₁, s.graph.Extends graph₁ → TypesFilled ∅
          (conversion { b with library := s.library, types := s.types } graph₁) :=
        fun graph₁ hext' e he => (htypes e he).extends hext'
      cases hpublish : s.graph.publish? name t with
      | none =>
        rw [convertAll_of_taken hfirst hpublish] at hrun
        exact ih (hs₁ s.graph (.refl s.graph)) (hreport.append_failed hext _) hrun
      | some graph₁ =>
        have hext' := extends_publish? hpublish
        rw [convertAll_of_published hfirst hpublish] at hrun
        refine ih (hs₁ graph₁ hext') ?_ hrun
        exact hreport.append_converted (hext.trans hext') (ht.extends hext')

theorem filled_convert {b b' : Batch} {graph graph' : Graph} {report : Report}
    (hs : TypesFilled ∅ (b.conversion graph))
    (hrun : b.convert graph = (b', graph', .ok report)) :
    TypesFilled ∅ (b'.conversion graph') ∧ ReportsFilled graph' report := by
  have hs₁ : TypesFilled ∅ (conversion { b with pending := [] } graph) := hs
  have hnone : ReportsFilled graph Report.empty := fun e he => absurd he List.not_mem_nil
  exact filled_convertAll hs₁ hnone hrun

theorem Usable.typesFilled {b : Batch} {graph : Graph} (h : Usable b graph) :
    TypesFilled ∅ (b.conversion graph) := by
  induction h with
  | new store graph => exact fun e he => absurd he List.not_mem_nil
  | annotated _ annotators ih => exact ih
  | @added b graph _ s ih =>
    intro e he
    have hmem : e ∈ (b.addSource s).1.types := he
    rw [types_addSource] at hmem
    exact ih e hmem
  | converted _ hrun ih => exact (filled_convert ih hrun).1
  | grown _ hgraph ih => exact fun e he => (ih e he).extends hgraph

/-- No type without members is ever published: whatever the documents are and whichever conversions
failed before, every union and intersection that is reached from a reported type has its members,
as long as no failure was fatal. -/
theorem convert_filled {b b' : Batch} {graph graph' : Graph} {report : Report}
    (h : Usable b graph) (hrun : b.convert graph = (b', graph', .ok report)) {name : String}
    {t u : NodeId} (ht : (name, t) ∈ report.converted) (hu : graph'.Reaches t u) :
    graph'.shape u ≠ .union none ∧ graph'.shape u ≠ .intersection none := by
  obtain ⟨-, hreport⟩ := filled_convert h.typesFilled hrun
  have hfilled : graph'.FilledBut ∅ u := (hreport _ ht).reaches hu
  obtain ⟨-, hshape, -⟩ := hfilled.elim (Set.notMem_empty u)
  exact hshape

/-- The first document fails after the place it refers to was converted, and the last one refers to
a place of the first one. -/
def entangledBatch : Batch :=
  let refersTo (name uri : String) : String × Json := (name, .object [("$ref", .string uri)])
  let documents : List (String × Json) :=
    [("bad.json", .object [("properties", .object [refersTo "list" "list.json",
        ("other", .object [("type", .string "text")])])]),
      ("list.json", .object [("properties", .object [refersTo "next" "#/"])]),
      ("user.json", .object [("anyOf", .array [.object [("$ref",
        .string "bad.json#/properties/list")], .object [("$ref", .string "#/")]])])]
  [ofUri "bad.json", ofUri "list.json", ofUri "user.json"].foldl (fun b s => (b.addSource s).1)
    (ofStore (some (.memory documents [])))

theorem usable_entangledBatch : Usable entangledBatch .empty :=
  (((Usable.new _ .empty).added (ofUri "bad.json")).added (ofUri "list.json")).added
    (ofUri "user.json")

theorem convert_filled_entangled :
    ∃ b graph report, entangledBatch.convert .empty = (b, graph, .ok report) ∧
      report.converted.map Prod.fst = ["list", "user"] ∧ report.failed.map Prod.fst = ["bad"] ∧
      graph.shape 0 = .intersection none ∧
      ∀ name t u, (name, t) ∈ report.converted → graph.Reaches t u →
        graph.shape u ≠ .union none ∧ graph.shape u ≠ .intersection none := by
  have hreport : (entangledBatch.convert .empty).2.2.toOption.map (fun report =>
      (report.converted.map Prod.fst, report.failed.map Prod.fst)) =
        some (["list", "user"], ["bad"]) := by decide +kernel
  have hshape : (entangledBatch.convert .empty).2.1.shape 0 = .intersection none := by
    decide +kernel
  rcases hrun : entangledBatch.convert .empty with ⟨b, graph, e | report⟩
  · rw [hrun] at hreport
    cases hreport
  · rw [hrun] at hreport hshape
    obtain ⟨hconverted, hfailed⟩ := Prod.mk.inj (Option.some.inj hreport)
    refine ⟨b, graph, report, rfl, hconverted, hfailed, hshape, fun name t u ht hu => ?_⟩
    exact convert_filled usable_entangledBatch hrun ht hu

end Batch

end JsonTyping
