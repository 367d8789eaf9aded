import JsonTyping.Proofs.BatchSafety
import JsonTyping.Proofs.RecordedTypes

/-!
# What a batch records

A batch converts one reference after the other (`Batch.Next`). Whatever fails in between, every type
that a place has got in the end is recorded, and nothing that was known before is taken back
(`Batch.progress_convertAll`). What the report lists as converted was converted from the state that
the references before it led to (`Batch.exists_run_of_converted`).
-/

namespace JsonTyping

open Conversion

theorem Library.Holds.addDocument {lib : Library} (h : lib.Holds) (address : String)
    (document : Json) : (lib.addDocument address document).Holds := by
  intro v place hplace other hother
  obtain ⟨hne, document', hdocument'⟩ := h v place hplace other hother
  refine ⟨hne, ?_⟩
  rw [Library.addDocument, SortedMap.lookup_cons_eq]
  split
  · exact ⟨document, rfl⟩
  · exact ⟨document', hdocument'⟩

namespace Batch

theorem holds_addUris {b : Batch} (h : b.library.Holds) (name : Option String)
    (root : Option Reference) (uris : List String) :
    (addUris name root b uris).1.library.Holds := by
  obtain hall | ⟨before, uri, after, -, -, hrefused⟩ := addUris_cases name root uris b
  · rw [hall]
    exact h
  · rw [hrefused]
    exact h

theorem holds_addSource {b : Batch} (h : b.library.Holds) (s : Source) :
    (b.addSource s).1.library.Holds := by
  obtain ⟨-, hnone⟩ | ⟨uris, text, message, -, -, -, hunread⟩ |
    ⟨uris, b₁, root, -, hserves, hadds⟩ := addSource_cases b s
  · rw [hnone]
    exact h
  · rw [hunread]
    exact h
  · rw [hadds]
    refine holds_addUris ?_ _ root uris
    cases hserves with
    | nothing _ => exact h
    | document _ _ => exact h.addDocument _ _

/-- Every batch that comes about knows the documents of the places that it knows. -/
theorem Reached.holds {b : Batch} (h : Reached b) : b.library.Holds := by
  induction h with
  | ofStore store => exact Library.holds_of_empty rfl
  | addSource _ s ih => exact holds_addSource ih s
  | convert h graph ih =>
    have hran := h.sane.convert (Eq.refl (Batch.convert _ graph))
    exact hran.later.uses.holds ih

/-- The next reference is converted, or fails without ending the batch. -/
inductive Next (b : Batch) (graph : Graph) (report : Report) (name : String) (r : Reference) :
    Batch → Graph → Report → Prop
  | published {t : NodeId} {s : Conversion} {graph' : Graph}
      (hrun : outcome (convertTopLevel b.annotators name r) (b.conversion graph) = (.ok t, s))
      (hpublish : s.graph.publish? name t = some graph') :
      Next b graph report name r { b with library := s.library, types := s.types } graph'
        (report.append ⟨[(name, t)], []⟩)
  | taken {t : NodeId} {s : Conversion}
      (hrun : outcome (convertTopLevel b.annotators name r) (b.conversion graph) = (.ok t, s)) :
      Next b graph report name r { b with library := s.library, types := s.types } s.graph
        (report.append ⟨[], [(name, .duplicateTopLevel name)]⟩)
  | failed {error : SchemaError} {s : Conversion}
      (hrun : outcome (convertTopLevel b.annotators name r) (b.conversion graph) =
        (.error (.schema error), s)) :
      Next b graph report name r { b with library := s.library, types := s.rolledBack } s.graph
        (report.append ⟨[], [(name, .schema error)]⟩)

/-- A batch goes on after a reference, or ends with a fatal failure. -/
theorem exists_next (b : Batch) (graph : Graph) (report : Report) (name : String) (r : Reference) :
    (∃ b₁ graph₁ report₁, Next b graph report name r b₁ graph₁ report₁ ∧ ∀ rest,
      convertAll b graph report ((name, r) :: rest) = convertAll b₁ graph₁ report₁ rest) ∨
    ∃ b₁ graph₁ cause, ∀ rest,
      convertAll b graph report ((name, r) :: rest) = (b₁, graph₁, .error cause) := by
  rcases hrun : outcome (convertTopLevel b.annotators name r) (b.conversion graph)
    with ⟨cause | t, s⟩
  · cases hfatal : cause.isFatal with
    | true => exact .inr ⟨_, _, cause, fun rest => convertAll_of_fatal hrun hfatal⟩
    | false =>
      obtain ⟨error, rfl⟩ : ∃ error, cause = .schema error := by
        cases cause with
        | schema error => exact ⟨error, rfl⟩
        | misuse cause => cases hfatal
        | tooDeep => cases hfatal
      exact .inl ⟨_, _, _, .failed hrun, fun rest => convertAll_of_error hrun hfatal⟩
  · cases hpublish : s.graph.publish? name t with
    | none => exact .inl ⟨_, _, _, .taken hrun, fun rest => convertAll_of_taken hrun hpublish⟩
    | some graph₁ =>
      exact .inl ⟨_, _, _, .published hrun hpublish,
        fun rest => convertAll_of_published hrun hpublish⟩

/-- Nothing that was known is taken back, and every place that got a type is recorded. -/
structure Progress (lib : Library) (b : Batch) (graph : Graph) (b' : Batch) (graph' : Graph) :
    Prop where
  retains : Retains (b.conversion graph) (b'.conversion graph')
  records : Records lib b.annotators (b.conversion graph) (b'.conversion graph')
  annotators : b'.annotators = b.annotators

variable {lib : Library} {b b₁ b' : Batch} {graph graph₁ graph' : Graph} {report report' : Report}

theorem Progress.refl (b : Batch) (graph : Graph) : Progress lib b graph b graph :=
  ⟨⟨.refl, .refl graph, fun _ _ ht => ht⟩, .refl _, rfl⟩

theorem Progress.trans (h : Progress lib b graph b₁ graph₁)
    (h' : Progress lib b₁ graph₁ b' graph') : Progress lib b graph b' graph' := by
  refine ⟨h.retains.trans h'.retains, h.records.trans ?_ h'.retains,
    h'.annotators.trans h.annotators⟩
  have hrecords := h'.records
  rwa [h.annotators] at hrecords

/-- The state that the batch goes on from. -/
theorem retains_conversion (b : Batch) (s : Conversion) {graph : Graph}
    (h : s.graph.Gains graph) :
    Retains s (conversion { b with library := s.library, types := s.types } graph) :=
  ⟨.refl, h, fun _ _ ht => ht⟩

theorem Next.progress (hlib : lib.Holds) (hb : lib.Uses b.library) {name : String} {r : Reference}
    {report₁ : Report} (h : Next b graph report name r b₁ graph₁ report₁) :
    Progress lib b graph b₁ graph₁ := by
  have hworks := records_convertTopLevel (s := b.conversion graph) b.annotators hlib name r
  have hconverted : ∀ {t s graph₁},
      outcome (convertTopLevel b.annotators name r) (b.conversion graph) = (.ok t, s) →
        s.graph.Gains graph₁ →
          Progress lib b graph { b with library := s.library, types := s.types } graph₁ := by
    intro t s graph₁ hrun hgains
    obtain ⟨hproceeds, hrecords, -⟩ := hworks.ok hb hrun
    have hafter := retains_conversion b s hgains
    exact ⟨hproceeds.retains.trans hafter,
      fun r u hu => (hrecords r u hu).imp_right fun hrecorded => hrecorded.mono hafter, rfl⟩
  cases h with
  | published hrun hpublish => exact hconverted hrun (Graph.gains_publish? hpublish)
  | taken hrun => exact hconverted hrun (Graph.Gains.refl _)
  | @failed error s hrun =>
    have hproceeds := hworks.error hb hrun
    have htypes : s.rolledBack = b.types := rolledBack_eq hproceeds.steps.grows rfl
    rw [htypes]
    exact ⟨⟨hproceeds.steps.uses, hproceeds.gains, fun _ _ ht => ht⟩, fun _ _ ht => .inl ht, rfl⟩

theorem progress_convertAll (hlib : lib.Holds) {entries : List (String × Reference)}
    (hb : lib.Uses b.library)
    (hrun : convertAll b graph report entries = (b', graph', .ok report')) :
    Progress lib b graph b' graph' := by
  induction entries generalizing b graph report with
  | nil =>
    obtain ⟨rfl, rfl, -⟩ := hrun
    exact .refl _ _
  | cons entry entries ih =>
    obtain ⟨name, r⟩ := entry
    rcases exists_next b graph report name r with
      ⟨b₁, graph₁, report₁, hnext, hcons⟩ | ⟨b₁, graph₁, cause, hends⟩
    · have hfirst := hnext.progress hlib hb
      rw [hcons] at hrun
      exact hfirst.trans (ih (hb.trans hfirst.retains.uses) hrun)
    · rw [hends] at hrun
      cases hrun

theorem progress_convert (hlib : b.library.Holds)
    (hrun : b.convert graph = (b', graph', .ok report)) :
    Progress b.library b graph b' graph' := by
  have hprogress : Progress b.library { b with pending := [] } graph b' graph' :=
    progress_convertAll hlib .refl hrun
  exact ⟨hprogress.retains, hprogress.records, hprogress.annotators⟩

/-- Every type that a place got in the batch is recorded in the end. -/
theorem recorded_convert (hlib : b.library.Holds)
    (hrun : b.convert graph = (b', graph', .ok report)) {r : Reference} {t : NodeId}
    (hnew : b.types.lookup r = none) (ht : b'.types.lookup r = some t) :
    Recorded b.library b.annotators (b'.conversion graph') r t := by
  rcases (progress_convert hlib hrun).records r t ht with hold | hrecorded
  · cases hnew.symm.trans hold
  · exact hrecorded

theorem Usable.holds {b : Batch} {graph : Graph} (h : Usable b graph) : b.library.Holds := by
  induction h with
  | new store graph => exact Library.holds_of_empty rfl
  | annotated _ _ ih => exact ih
  | added _ s ih => exact holds_addSource ih s
  | converted _ hrun ih => exact (progress_convert ih hrun).retains.uses.holds ih
  | grown _ _ ih => exact ih

/-- What is reported as converted was converted in its turn, and what that left is still there. -/
theorem exists_run_of_converted (hlib : lib.Holds) {entries : List (String × Reference)}
    (hb : lib.Uses b.library)
    (hrun : convertAll b graph report entries = (b', graph', .ok report')) {name : String}
    {t : NodeId} (ht : (name, t) ∈ report'.converted) :
    (name, t) ∈ report.converted ∨ ∃ before r after b₁ graph₁ report₁ s,
      entries = before ++ (name, r) :: after ∧
      convertAll b graph report before = (b₁, graph₁, .ok report₁) ∧
      outcome (convertTopLevel b.annotators name r) (b₁.conversion graph₁) = (.ok t, s) ∧
      Retains s (b'.conversion graph') := by
  induction entries generalizing b graph report with
  | nil =>
    obtain ⟨-, -, hreport⟩ := hrun
    exact .inl ht
  | cons entry entries ih =>
    obtain ⟨first, r⟩ := entry
    rcases exists_next b graph report first r with
      ⟨b₁, graph₁, report₁, hnext, hcons⟩ | ⟨b₁, graph₁, cause, hends⟩
    · have hfirst := hnext.progress hlib hb
      have hb₁ := hb.trans hfirst.retains.uses
      rw [hcons] at hrun
      rcases ih hb₁ hrun with hold |
        ⟨before, r', after, b₂, graph₂, report₂, s, heq, hbefore, hturn, hafter⟩
      · -- It was there before, or it is the first reference.
        have hrest := (progress_convertAll hlib hb₁ hrun).retains
        cases hnext with
        | published hturn hpublish =>
          rcases List.mem_append.1 hold with hold | hnew
          · exact .inl hold
          · obtain ⟨rfl, rfl⟩ := Prod.mk.inj (List.mem_singleton.1 hnew)
            exact .inr ⟨[], r, entries, b, graph, report, _, rfl, rfl, hturn,
              (retains_conversion b _ (Graph.gains_publish? hpublish)).trans hrest⟩
        | taken _ => exact .inl (List.append_nil report.converted ▸ hold)
        | failed _ => exact .inl (List.append_nil report.converted ▸ hold)
      · rw [hfirst.annotators] at hturn
        refine .inr ⟨(first, r) :: before, r', after, b₂, graph₂, report₂, s, ?_, ?_, hturn, hafter⟩
        · rw [heq]
          rfl
        · rw [hcons, hbefore]
    · rw [hends] at hrun
      cases hrun

theorem exists_report (b : Batch) (graph : Graph)
    (h : (b.convert graph).2.2.toOption.isSome = true) :
    ∃ report, b.convert graph = ((b.convert graph).1, (b.convert graph).2.1, .ok report) := by
  rcases hrun : b.convert graph with ⟨b', graph', cause | report⟩ <;> rw [hrun] at h
  · cases h
  · exact ⟨report, rfl⟩

/-- A batch of one document, which is an object schema. -/
def ofSchema (schema : List (String × Json)) : Batch :=
  ((ofStore (some (.memory [("a.json", .object schema)] []))).addSource (ofUri "a.json")).1

theorem usable_ofSchema (schema : List (String × Json)) (graph : Graph) :
    Usable (ofSchema schema) graph :=
  .added (.new _ graph) _

theorem value?_ofSchema (schema : List (String × Json)) :
    (ofSchema schema).library.value? (.parse "a.json") = some (.object schema) := by
  have haddress : (Reference.parse "a.json").address = some "a.json" := by decide +kernel
  have hpath : (Reference.parse "a.json").path = [.root] := by decide +kernel
  have hdocument : (ofSchema schema).library.fetched "a.json" = .ok (some (.object schema)) := rfl
  rw [Library.value?_eq haddress hdocument, hpath]
  rfl

end Batch

end JsonTyping
