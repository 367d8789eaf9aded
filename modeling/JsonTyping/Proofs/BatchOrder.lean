import JsonTyping.Proofs.BatchRuns

/-!
# The order of sources

Sources that are given by references only name top-level references, one after the other
(`Batch.addSources_eq`). Where the documents have no ids, the order of the sources makes no
difference to which of the references are converted, and to what their types are
(`Batch.convert_anyOrder`). With ids it does: an id is known only once its document was read, and
the type of a place is that of whichever route came there first.
-/

namespace JsonTyping

/-- The top-level references of a source that is given by references. -/
def Source.topLevels (s : Source) : List (String × Reference) :=
  s.uris.map fun uri =>
    ((if s.uris.length = 1 then s.name else none).getD (Reference.parse uri).name, .parse uri)

namespace Batch

/-- Adds sources in turn, up to the first one that is refused. -/
def addSources (b : Batch) : List Source → Except SchemaError Batch
  | [] => .ok b
  | s :: rest =>
    match b.addSource s with
    | (b, .ok ()) => addSources b rest
    | (_, .error error) => .error error

/-- The graph and the report after sources for the documents of a store were added and converted. -/
def convertSources (documents : List (String × Json)) (broken : List String)
    (sources : List Source) (graph : Graph) : Option (Graph × Report) :=
  match (ofStore (some (.memory documents broken))).addSources sources with
  | .ok b =>
    match b.convert graph with
    | (_, graph, .ok report) => some (graph, report)
    | (_, _, .error _) => none
  | .error _ => none

theorem addUris_eq (name : Option String) (uris : List String) :
    ∀ b : Batch, ((b.pending ++ uris.map fun uri =>
      (name.getD (Reference.parse uri).name, Reference.parse uri)).map Prod.fst).Nodup →
        addUris name none b uris = ({ b with pending := b.pending ++ uris.map fun uri =>
          (name.getD (Reference.parse uri).name, Reference.parse uri) }, .ok ()) := by
  induction uris with
  | nil =>
    intro b _
    simp only [addUris, List.map_nil, List.append_nil]
  | cons uri uris ih =>
    intro b hnames
    have hfree : b.pending.any (·.1 == name.getD (Reference.parse uri).name) = false := by
      rw [Bool.eq_false_iff]
      intro hany
      obtain ⟨e, he, heq⟩ := List.any_eq_true.1 hany
      rw [List.map_append, List.nodup_append] at hnames
      exact hnames.2.2 _ (List.mem_map_of_mem he) _ (List.mem_map_of_mem List.mem_cons_self)
        (beq_iff_eq.1 heq)
    rw [addUris, hfree, if_neg Bool.false_ne_true, ih]
    · simp only [List.append_assoc, List.singleton_append, List.map_cons]
    · simpa only [List.append_assoc, List.singleton_append, List.map_cons] using hnames

theorem addSource_eq {s : Source} (hschema : s.schema = none) (huris : s.uris ≠ []) {b : Batch}
    (hnames : ((b.pending ++ s.topLevels).map Prod.fst).Nodup) :
    b.addSource s = ({ b with pending := b.pending ++ s.topLevels }, .ok ()) := by
  have hurisOf : urisOf s = some s.uris := by
    unfold urisOf
    split
    · next hnil _ => exact absurd hnil huris
    · next hnil _ => exact absurd hnil huris
    · rfl
  simp only [addSource, hurisOf, hschema, addUris_eq _ _ b hnames]
  rfl

/-- Sources that are given by references with different names add these. -/
theorem addSources_eq {sources : List Source}
    (huris : ∀ s ∈ sources, s.schema = none ∧ s.uris ≠ []) :
    ∀ b : Batch, ((b.pending ++ sources.flatMap Source.topLevels).map Prod.fst).Nodup →
      b.addSources sources =
        .ok { b with pending := b.pending ++ sources.flatMap Source.topLevels } := by
  induction sources with
  | nil =>
    intro b _
    simp only [addSources, List.flatMap_nil, List.append_nil]
  | cons s sources ih =>
    intro b hnames
    rw [List.flatMap_cons, ← List.append_assoc] at hnames
    have hfirst : ((b.pending ++ s.topLevels).map Prod.fst).Nodup := by
      rw [List.map_append] at hnames
      exact (List.nodup_append.1 hnames).1
    obtain ⟨hschema, hne⟩ := huris s List.mem_cons_self
    rw [addSources, addSource_eq hschema hne hfirst]
    dsimp only
    rw [ih (fun s' hs' => huris s' (List.mem_cons_of_mem s hs')) _ hnames, List.flatMap_cons,
      List.append_assoc]

theorem isWritten_of_mem_topLevels {sources : List Source} {e : String × Reference}
    (he : e ∈ sources.flatMap Source.topLevels) : e.2.IsWritten := by
  obtain ⟨s, -, hs⟩ := List.mem_flatMap.1 he
  obtain ⟨uri, -, rfl⟩ := List.mem_map.1 hs
  exact Reference.isWritten_parse uri

end Batch

/-! ### Outcomes -/

/-- The same names were converted and failed. One renaming of the numbers of types relates the
descriptions of all types of the same name. -/
structure Report.SameOutcomes (report : Report) (g : Graph) (report' : Report) (g' : Graph) :
    Prop where
  converted : ∀ name, name ∈ report.converted.map Prod.fst ↔ name ∈ report'.converted.map Prod.fst
  failed : ∀ name, name ∈ report.failed.map Prod.fst ↔ name ∈ report'.failed.map Prod.fst
  described : ∃ R, Relator.BiUnique R ∧ ∀ name t t', (name, t) ∈ report.converted →
    (name, t') ∈ report'.converted → Graph.SameUpTo R (g.describe t) (g'.describe t')

namespace Report

open Conversion

variable {lib : Library} {annotators : List Annotator} {graph : Graph}
  {types : List (Reference × NodeId)} {entries : List (String × Reference)} {report : Report}

theorem eq_of_mem_of_nodup (hnames : (entries.map Prod.fst).Nodup) {name : String}
    {r r' : Reference} (hr : (name, r) ∈ entries) (hr' : (name, r') ∈ entries) : r = r' := by
  have heq := List.inj_on_of_nodup_map hnames hr hr' rfl
  exact congrArg Prod.snd heq

/-- A name was converted when its entry succeeds. -/
theorem TellsOf.mem_converted_iff (h : report.TellsOf lib annotators graph types entries)
    (hnames : (entries.map Prod.fst).Nodup) {name : String} {r : Reference}
    (hr : (name, r) ∈ entries) :
    name ∈ report.converted.map Prod.fst ↔ Succeeds lib annotators graph (name, r) := by
  constructor
  · intro hmem
    obtain ⟨e, he, rfl⟩ := List.mem_map.1 hmem
    obtain ⟨r', hr', hsucceeds, -⟩ := h.converted e he
    rwa [eq_of_mem_of_nodup hnames hr hr']
  · intro hsucceeds
    have hmem := h.names.mem_iff.2 (List.mem_map_of_mem hr)
    rcases List.mem_append.1 hmem with hmem | hmem
    · exact hmem
    · obtain ⟨e, he, heq⟩ := List.mem_map.1 hmem
      obtain ⟨name', error⟩ := e
      obtain rfl : name' = name := heq
      obtain ⟨r', hr', hfails⟩ := h.failed _ he
      rw [← eq_of_mem_of_nodup hnames hr hr'] at hfails
      exact absurd hsucceeds hfails

theorem TellsOf.mem_failed_iff (h : report.TellsOf lib annotators graph types entries)
    (hnames : (entries.map Prod.fst).Nodup) {name : String} {r : Reference}
    (hr : (name, r) ∈ entries) :
    name ∈ report.failed.map Prod.fst ↔ ¬ Succeeds lib annotators graph (name, r) := by
  rw [← h.mem_converted_iff hnames hr]
  have hmem := h.names.mem_iff.2 (List.mem_map_of_mem hr)
  have hdisjoint := (List.nodup_append.1 (h.names.nodup_iff.2 hnames)).2.2
  constructor
  · exact fun hfailed hconverted => hdisjoint _ hconverted _ hfailed rfl
  · exact fun hnot => (List.mem_append.1 hmem).resolve_left hnot

theorem TellsOf.exists_entry (h : report.TellsOf lib annotators graph types entries) {name : String}
    (hname : name ∈ report.converted.map Prod.fst ++ report.failed.map Prod.fst) :
    ∃ r, (name, r) ∈ entries := by
  obtain ⟨⟨name', r⟩, hr, rfl⟩ := List.mem_map.1 (h.names.mem_iff.1 hname)
  exact ⟨r, hr⟩

end Report

namespace Batch

open Conversion

/-- Runs of a batch over the same entries in any order have the same outcomes. -/
theorem sameOutcomes_of_tellsOf {lib : Library} {annotators : List Annotator} {graph : Graph}
    {entries entries' : List (String × Reference)} (hnames : (entries.map Prod.fst).Nodup)
    (hperm : entries.Perm entries') {s s' : Conversion} {made made' : Made}
    {report report' : Report} (hs : Solved lib annotators [] s made)
    (hs' : Solved lib annotators [] s' made')
    (h : report.TellsOf lib annotators graph s.types entries)
    (h' : report'.TellsOf lib annotators graph s'.types entries') :
    report.SameOutcomes s.graph report' s'.graph := by
  have hnames' : (entries'.map Prod.fst).Nodup := (hperm.map Prod.fst).nodup_iff.1 hnames
  have hsame : ∀ name, (name ∈ report.converted.map Prod.fst ↔
      name ∈ report'.converted.map Prod.fst) ∧
      (name ∈ report.failed.map Prod.fst ↔ name ∈ report'.failed.map Prod.fst) := by
    intro name
    by_cases hentry : ∃ r, (name, r) ∈ entries
    · obtain ⟨r, hr⟩ := hentry
      have hr' := hperm.mem_iff.1 hr
      rw [h.mem_converted_iff hnames hr, h'.mem_converted_iff hnames' hr',
        h.mem_failed_iff hnames hr, h'.mem_failed_iff hnames' hr']
      exact ⟨.rfl, .rfl⟩
    · have hnot : name ∉ report.converted.map Prod.fst ++ report.failed.map Prod.fst :=
        fun hmem => hentry (h.exists_entry hmem)
      have hnot' : name ∉ report'.converted.map Prod.fst ++ report'.failed.map Prod.fst := by
        intro hmem
        obtain ⟨r, hr⟩ := h'.exists_entry hmem
        exact hentry ⟨r, hperm.mem_iff.2 hr⟩
      rw [List.mem_append, not_or] at hnot hnot'
      exact ⟨iff_of_false hnot.1 hnot'.1, iff_of_false hnot.2 hnot'.2⟩
  refine ⟨fun name => (hsame name).1, fun name => (hsame name).2, _,
    Counterpart.biUnique hs.solves.ownNodes hs'.solves.ownNodes, fun name t t' ht ht' => ?_⟩
  obtain ⟨r, hr, -, found, hfound, hlookup⟩ := h.converted _ ht
  obtain ⟨r', hr', -, found', hfound', hlookup'⟩ := h'.converted _ ht'
  obtain rfl := Report.eq_of_mem_of_nodup hnames hr (hperm.mem_iff.2 hr')
  obtain rfl := Except.ok.inj (hfound.symm.trans hfound')
  exact (hs.solves.describe_sameUpTo hs'.solves hlookup hlookup').2

/-- The report on sources for documents without ids tells of each of their references. -/
theorem exists_convertSources {documents : List (String × Json)}
    (hfree : ∀ e ∈ documents, e.2.IdFree) (broken : List String) {sources : List Source}
    (huris : ∀ s ∈ sources, s.schema = none ∧ s.uris ≠ [])
    (hnames : ((sources.flatMap Source.topLevels).map Prod.fst).Nodup) (graph : Graph) :
    ∃ s made report, convertSources documents broken sources graph = some (s.graph, report) ∧
      Solved (.ofStore (some (.memory documents broken))) Annotator.builtin [] s made ∧
      report.TellsOf (.ofStore (some (.memory documents broken))) Annotator.builtin graph s.types
        (sources.flatMap Source.topLevels) := by
  obtain ⟨hmemory, hself⟩ := (Library.Reached.memory documents broken).inMemory
  have hlibFree : (Library.ofStore (some (.memory documents broken))).IdFree := hfree
  have hstart : Solves (.ofStore (some (.memory documents broken))) Annotator.builtin [] graph []
      fun _ => none :=
    ⟨⟨nofun, nofun⟩, nofun, nofun, nofun⟩
  obtain ⟨b, graph', made, report, hrun, hreports⟩ := exists_convertAll hmemory hself hlibFree rfl
    (ofStore (some (.memory documents broken))) graph .empty proper_builtin ⟨hself, hstart⟩ hnames
    fun e he => isWritten_of_mem_topLevels he
  have hs := hreports.solved
  rw [hreports.annotators] at hs
  refine ⟨b.conversion graph', made, report, ?_, hs, hreports.tells⟩
  have hconvert : Batch.convert { ofStore (some (.memory documents broken)) with
      pending := sources.flatMap Source.topLevels } graph = (b, graph', .ok report) := hrun
  unfold convertSources
  rw [addSources_eq huris (ofStore (some (.memory documents broken))) hnames]
  dsimp only
  rw [show (ofStore (some (.memory documents broken))).pending ++
    sources.flatMap Source.topLevels = sources.flatMap Source.topLevels from rfl, hconvert]
  rfl

/-- The order of sources does not matter where no document has an id: with references in any order,
under different names, the same names are converted, to types with the same descriptions up to the
numbers of recursive types, and the others fail. -/
theorem convert_anyOrder {documents : List (String × Json)}
    (hfree : ∀ e ∈ documents, e.2.IdFree) (broken : List String) {sources sources' : List Source}
    (huris : ∀ s ∈ sources, s.schema = none ∧ s.uris ≠ [])
    (hnames : ((sources.flatMap Source.topLevels).map Prod.fst).Nodup)
    (hperm : sources.Perm sources') (graph : Graph) :
    ∃ g report g' report',
      convertSources documents broken sources graph = some (g, report) ∧
      convertSources documents broken sources' graph = some (g', report') ∧
      (report.converted.map Prod.fst ++ report.failed.map Prod.fst).Perm
        ((sources.flatMap Source.topLevels).map Prod.fst) ∧
      report.SameOutcomes g report' g' := by
  have htops : (sources.flatMap Source.topLevels).Perm (sources'.flatMap Source.topLevels) :=
    hperm.flatMap_right _
  obtain ⟨s, made, report, hrun, hs, htells⟩ :=
    exists_convertSources hfree broken huris hnames graph
  obtain ⟨s', made', report', hrun', hs', htells'⟩ :=
    exists_convertSources hfree broken (fun s hs => huris s (hperm.mem_iff.2 hs))
      ((htops.map Prod.fst).nodup_iff.1 hnames) graph
  exact ⟨s.graph, report, s'.graph, report', hrun, hrun', htells.names,
    sameOutcomes_of_tellsOf hnames htops hs hs' htells htells'⟩

/-- A source that is a single reference. -/
def ofUri (uri : String) : Source := ⟨none, [uri], none⟩

/-- Two schemas that refer to each other. -/
def mutualDocuments : List (String × Json) :=
  let refersTo (uri : String) : Json :=
    .object [("properties", .object [("next", .object [("$ref", .string uri)])])]
  [("a.json", refersTo "b.json"), ("b.json", refersTo "a.json")]

theorem idFree_mutualDocuments : ∀ e ∈ mutualDocuments, e.2.IdFree := by
  have hschema : ∀ uri, Json.IdFree
      (.object [("properties", .object [("next", .object [("$ref", .string uri)])])]) := by
    intro uri path members hmem id
    simp [Json.nodes, Json.nodesOfMembers] at hmem
    rcases hmem with ⟨-, rfl⟩ | ⟨-, rfl⟩ | ⟨-, rfl⟩ <;> exact nofun
  intro e he
  rcases List.mem_cons.1 he with rfl | he
  · exact hschema "b.json"
  · obtain rfl := List.mem_singleton.1 he
    exact hschema "a.json"

theorem convert_anyOrder_mutual :
    ∃ g report g' report',
      convertSources mutualDocuments [] [ofUri "a.json", ofUri "c.json", ofUri "b.json"] .empty =
        some (g, report) ∧
      convertSources mutualDocuments [] [ofUri "b.json", ofUri "a.json", ofUri "c.json"] .empty =
        some (g', report') ∧
      report.converted.map Prod.fst = ["a", "b"] ∧ report.failed.map Prod.fst = ["c"] ∧
      report'.converted.map Prod.fst = ["b", "a"] ∧ report.SameOutcomes g report' g' := by
  have huris : ∀ s ∈ [ofUri "a.json", ofUri "c.json", ofUri "b.json"],
      s.schema = none ∧ s.uris ≠ [] := by decide
  have hperm : [ofUri "a.json", ofUri "c.json", ofUri "b.json"].Perm
      [ofUri "b.json", ofUri "a.json", ofUri "c.json"] :=
    @List.perm_append_comm _ [ofUri "a.json", ofUri "c.json"] [ofUri "b.json"]
  obtain ⟨g, report, g', report', hrun, hrun', -, hsame⟩ :=
    convert_anyOrder idFree_mutualDocuments [] huris (by decide +kernel) hperm .empty
  have hnames : (convertSources mutualDocuments []
      [ofUri "a.json", ofUri "c.json", ofUri "b.json"] .empty).map (fun result =>
        (result.2.converted.map Prod.fst, result.2.failed.map Prod.fst)) =
      some (["a", "b"], ["c"]) := by decide +kernel
  have hnames' : (convertSources mutualDocuments []
      [ofUri "b.json", ofUri "a.json", ofUri "c.json"] .empty).map (fun result =>
        result.2.converted.map Prod.fst) = some ["b", "a"] := by decide +kernel
  rw [hrun] at hnames
  rw [hrun'] at hnames'
  obtain ⟨hconverted, hfailed⟩ := Prod.mk.inj (Option.some.inj hnames)
  exact ⟨g, report, g', report', hrun, hrun', hconverted, hfailed, Option.some.inj hnames', hsame⟩

/-! ### Documents with ids -/

/-- The orders of the sources, which are references with different names, have different
outcomes. -/
def Disagree (documents : List (String × Json)) (sources sources' : List Source) : Prop :=
  (sources.Perm sources' ∧ (∀ s ∈ sources, s.schema = none ∧ s.uris ≠ []) ∧
    ((sources.flatMap Source.topLevels).map Prod.fst).Nodup) ∧
  ∃ g report g' report', convertSources documents [] sources .empty = some (g, report) ∧
    convertSources documents [] sources' .empty = some (g', report') ∧
    ¬ report.SameOutcomes g report' g'

theorem disagree_of_converted {documents : List (String × Json)} {sources sources' : List Source}
    (hperm : sources.Perm sources') (huris : ∀ s ∈ sources, s.schema = none ∧ s.uris ≠ [])
    (hnames : ((sources.flatMap Source.topLevels).map Prod.fst).Nodup) {names names' : List String}
    (hrun : (convertSources documents [] sources .empty).map
      (fun result => result.2.converted.map Prod.fst) = some names)
    (hrun' : (convertSources documents [] sources' .empty).map
      (fun result => result.2.converted.map Prod.fst) = some names')
    {name : String} (hname : name ∉ names) (hname' : name ∈ names') :
    Disagree documents sources sources' := by
  obtain ⟨⟨g, report⟩, hresult, rfl⟩ := Option.map_eq_some_iff.1 hrun
  obtain ⟨⟨g', report'⟩, hresult', rfl⟩ := Option.map_eq_some_iff.1 hrun'
  exact ⟨⟨hperm, huris, hnames⟩, g, report, g', report', hresult, hresult',
    fun hsame => hname ((hsame.converted name).2 hname')⟩

/-- An id below the root of a document. -/
def embeddedDocuments : List (String × Json) :=
  [("root.json", .object [("definitions", .object [("T", .object
    [("$id", .string "t.json"), ("type", .string "integer")])])])]

/-- A reference below an id, which changes what the reference means. -/
def basedDocuments : List (String × Json) :=
  [("root.json", .object [("allOf", .array [.object [("$id", .string "sub/x.json"),
      ("allOf", .array [.object [("$ref", .string "y.json")]])]])]),
    ("sub/y.json", .object [("type", .string "string")])]

/-- With ids the order matters. A reference to an id fails before the document with the id was read,
and succeeds after that. A place below an id that is reached by its path means something else than
one that is reached through the id, and has the type of the first way that was taken. -/
theorem disagree_withIds :
    Disagree embeddedDocuments [ofUri "t.json", ofUri "root.json"]
      [ofUri "root.json", ofUri "t.json"] ∧
    Disagree basedDocuments [ofUri "root.json#/allOf/0/allOf/0", ofUri "root.json"]
      [ofUri "root.json", ofUri "root.json#/allOf/0/allOf/0"] := by
  constructor
  · have hrun : (convertSources embeddedDocuments [] [ofUri "t.json", ofUri "root.json"]
        .empty).map (fun result => result.2.converted.map Prod.fst) = some ["root"] := by
      decide +kernel
    have hrun' : (convertSources embeddedDocuments [] [ofUri "root.json", ofUri "t.json"]
        .empty).map (fun result => result.2.converted.map Prod.fst) = some ["root", "t"] := by
      decide +kernel
    have hname : "t" ∉ ["root"] := by decide
    exact disagree_of_converted (.swap _ _ _) (by decide) (by decide +kernel) hrun hrun' hname
      (by decide)
  · have hrun : (convertSources basedDocuments []
        [ofUri "root.json#/allOf/0/allOf/0", ofUri "root.json"] .empty).map
        (fun result => result.2.converted.map Prod.fst) = some ["root"] := by
      decide +kernel
    have hrun' : (convertSources basedDocuments []
        [ofUri "root.json", ofUri "root.json#/allOf/0/allOf/0"] .empty).map
        (fun result => result.2.converted.map Prod.fst) = some ["root", "allOf"] := by
      decide +kernel
    have hname : "allOf" ∉ ["root"] := by decide
    exact disagree_of_converted (.swap _ _ _) (by decide) (by decide +kernel) hrun hrun' hname
      (by decide)

end Batch

end JsonTyping
