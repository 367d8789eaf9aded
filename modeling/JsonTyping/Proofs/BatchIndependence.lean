import JsonTyping.Proofs.BatchOrder
import JsonTyping.Proofs.CallRuns
import JsonTyping.Proofs.GraphIsomorphism

/-!
# Sources that do not depend on each other

Where no document has an id, what becomes of a source does not depend on the sources before it,
although they leave types that it shares, and nodes of conversions that failed
(`Batch.convert_eachAlone`). Between conversions the registered places are closed under their calls
(`Batch.Ongoing`), so the first fault that is met is the same one.
-/

namespace JsonTyping

namespace Conversion

/-- A conversion of the reference finds this fault, after others that were successful. -/
def FailsWith (lib : Library) (annotators : List Annotator) (r : Reference)
    (error : SchemaError) : Prop :=
  ∃ places, Call.Closed (calls lib annotators) places ∧
    Traverses (calls lib annotators) places (targetCalls lib .empty r) (.error error)

theorem FailsWith.unique {lib : Library} {annotators : List Annotator} {r : Reference}
    {error error' : SchemaError} (h : FailsWith lib annotators r error)
    (h' : FailsWith lib annotators r error') : error = error' := by
  obtain ⟨places, hclosed, htraverses⟩ := h
  obtain ⟨places', hclosed', htraverses'⟩ := h'
  exact htraverses.fault_unique hclosed hclosed' htraverses'

end Conversion

open Conversion

namespace Graph

theorem topLevel?_publish? {g g' : Graph} {name : String} {t : NodeId}
    (h : g.publish? name t = some g') : g'.topLevel? name = some t := by
  unfold publish? at h
  split at h
  · cases h
  · next hnone =>
    obtain rfl := Option.some.inj h
    have hlookup : g.topLevels.lookup name = none := Option.not_isSome_iff_eq_none.1 hnone
    rw [topLevel?, List.lookup_append, hlookup, Option.none_or, SortedMap.lookup_cons_eq,
      if_pos rfl]

end Graph

/-- Every failure is that of an entry, with a fault that its conversion finds, and every type that
was converted is published. -/
structure Report.Accounts (report : Report) (lib : Library) (annotators : List Annotator)
    (entries : List (String × Reference)) (g : Graph) : Prop where
  failed : ∀ e ∈ report.failed, ∃ r error, (e.1, r) ∈ entries ∧ e.2 = .schema error ∧
    FailsWith lib annotators r error
  published : ∀ e ∈ report.converted, g.topLevel? e.1 = some e.2

namespace Report

variable {lib : Library} {annotators : List Annotator} {entries : List (String × Reference)}
  {g g' : Graph} {report : Report} {name : String}

theorem Accounts.append_failed (h : report.Accounts lib annotators entries g)
    (hkept : ∀ name', g'.topLevel? name' = g.topLevel? name') {r : Reference}
    (hr : (name, r) ∈ entries) {error : SchemaError} (hfails : FailsWith lib annotators r error) :
    (report.append ⟨[], [(name, .schema error)]⟩).Accounts lib annotators entries g' where
  failed e he := by
    rcases List.mem_append.1 he with he | he
    · exact h.failed e he
    · obtain rfl := List.mem_singleton.1 he
      exact ⟨r, error, hr, rfl, hfails⟩
  published e he := by
    have hold : e ∈ report.converted := by simpa only [append, List.append_nil] using he
    rw [hkept]
    exact h.published e hold

theorem Accounts.append_converted (h : report.Accounts lib annotators entries g)
    (hnone : g.topLevel? name = none)
    (hkept : ∀ name', name' ≠ name → g'.topLevel? name' = g.topLevel? name') {t : NodeId}
    (ht : g'.topLevel? name = some t) :
    (report.append ⟨[(name, t)], []⟩).Accounts lib annotators entries g' where
  failed e he := by
    have hold : e ∈ report.failed := by simpa only [append, List.append_nil] using he
    exact h.failed e hold
  published e he := by
    rcases List.mem_append.1 he with he | he
    · have hpublished := h.published e he
      have hne : e.1 ≠ name := by
        intro heq
        rw [heq, hnone] at hpublished
        cases hpublished
      rw [hkept e.1 hne]
      exact hpublished
    · obtain rfl := List.mem_singleton.1 he
      exact ht

end Report

namespace Batch

variable {lib : Library} {entries rest : List (String × Reference)} {b b' : Batch}
  {graph graph' : Graph} {made : Made} {report report' : Report}

/-- Between the conversions of entries, with the rest of them to come. -/
structure Ongoing (lib : Library) (entries rest : List (String × Reference)) (b : Batch)
    (graph : Graph) (made : Made) (report : Report) : Prop where
  proper : Proper b.annotators
  solved : Solved lib b.annotators [] (b.conversion graph) made
  closed : Call.Closed (calls lib b.annotators) (b.conversion graph).registered
  accounts : report.Accounts lib b.annotators entries graph
  names : (rest.map Prod.fst).Nodup
  free : ∀ e ∈ rest, graph.topLevel? e.1 = none
  written : ∀ e ∈ rest, e ∈ entries ∧ e.2.IsWritten

section Next

variable {name : String} {r : Reference} {s : Conversion}

/-- A conversion that fails leaves what was registered before, and its fault is accounted for. -/
theorem Ongoing.failed (hmemory : lib.InMemory) (hself : lib.Continues lib) (hfree : lib.IdFree)
    (h : Ongoing lib entries ((name, r) :: rest) b graph made report) {error : SchemaError}
    (hrun : outcome (convertTopLevel b.annotators name r) (b.conversion graph) =
      (.error (.schema error), s)) (hgraph : graph.Develops s.graph) :
    Ongoing lib entries rest { b with library := s.library, types := s.rolledBack } s.graph made
      (report.append ⟨[], [(name, .schema error)]⟩) := by
  obtain ⟨hadvances, -⟩ := advances_convertTopLevel hmemory hself h.solved.library hrun
  have htypes : s.rolledBack = b.types := rolledBack_eq hadvances.grows rfl
  have hmakes : Makes lib b.annotators (b.conversion graph).registered (b.conversion graph)
      (convertTopLevel b.annotators name r) (targetCalls lib .empty r) fun _ => True :=
    makes_convertTopLevel hmemory hself hfree h.solved.library name r
  have hfails : FailsWith lib b.annotators r error := ⟨_, h.closed, hmakes.error hrun⟩
  have hentry : (name, r) ∈ entries := (h.written _ List.mem_cons_self).1
  rw [htypes]
  exact
    { proper := h.proper
      solved := ⟨hadvances.library, h.solved.solves.develops hgraph⟩
      closed := h.closed
      accounts := h.accounts.append_failed hgraph.topLevel? hentry hfails
      names := (List.nodup_cons.1 h.names).2
      free := fun e he => (hgraph.topLevel? e.1).trans (h.free e (List.mem_cons_of_mem _ he))
      written := fun e he => h.written e (List.mem_cons_of_mem _ he) }

/-- A conversion that ends well leaves places that are closed again, and its type is published. -/
theorem Ongoing.published (hmemory : lib.InMemory) (hself : lib.Continues lib)
    (hfree : lib.IdFree) (h : Ongoing lib entries ((name, r) :: rest) b graph made report)
    {t : NodeId}
    (hrun : outcome (convertTopLevel b.annotators name r) (b.conversion graph) = (.ok t, s))
    {made' : Made} (hs : Solved lib b.annotators [] s made') (hgraph : graph.Develops s.graph) :
    ∃ graph', s.graph.publish? name t = some graph' ∧
      Ongoing lib entries rest { b with library := s.library, types := s.types } graph' made'
        (report.append ⟨[(name, t)], []⟩) := by
  have hnone : graph.topLevel? name = none := h.free _ List.mem_cons_self
  obtain ⟨graph', hpublish, hkeeps, hshape, hother⟩ :=
    Graph.publish?_of_none ((hgraph.topLevel? name).trans hnone) t
  have hkept : ∀ name', name' ≠ name → graph'.topLevel? name' = graph.topLevel? name' :=
    fun name' hne => (hother name' hne).trans (hgraph.topLevel? name')
  have hmakes : Makes lib b.annotators (b.conversion graph).registered (b.conversion graph)
      (convertTopLevel b.annotators name r) (targetCalls lib .empty r) fun _ => True :=
    makes_convertTopLevel hmemory hself hfree h.solved.library name r
  obtain ⟨-, htraverses, -⟩ := hmakes.ok hrun
  obtain ⟨hname, hnames⟩ := List.nodup_cons.1 h.names
  have hfreeRest : ∀ e ∈ rest, graph'.topLevel? e.1 = none := by
    intro e he
    have hne : e.1 ≠ name := fun heq => hname (List.mem_map.2 ⟨e, he, heq⟩)
    rw [hkept e.1 hne]
    exact h.free e (List.mem_cons_of_mem _ he)
  exact ⟨graph', hpublish,
    { proper := h.proper
      solved := ⟨hs.library, hs.solves.keepsShared hkeeps fun u _ => hshape u⟩
      closed := htraverses.closed h.closed
      accounts := h.accounts.append_converted hnone hkept (Graph.topLevel?_publish? hpublish)
      names := hnames
      free := hfreeRest
      written := fun e he => h.written e (List.mem_cons_of_mem _ he) }⟩

/-- The next entry is converted, or fails with the fault that is found. -/
theorem Ongoing.next (hmemory : lib.InMemory) (hself : lib.Continues lib) (hfree : lib.IdFree)
    {store : Store} (hstore : lib.store = some store)
    (h : Ongoing lib entries ((name, r) :: rest) b graph made report) :
    ∃ b' graph' made' report', b'.annotators = b.annotators ∧
      Ongoing lib entries rest b' graph' made' report' ∧
      convertAll b graph report ((name, r) :: rest) = convertAll b' graph' report' rest := by
  have hproduces := produces_convertTopLevel hmemory hself hfree hstore h.solved name r
  rcases hrun : outcome (convertTopLevel b.annotators name r) (b.conversion graph) with ⟨e | t, s⟩
  · have hwritten := (h.written _ List.mem_cons_self).2
    obtain ⟨error, rfl⟩ := exists_schema_of_error hmemory h.solved.library h.proper hwritten hrun
    obtain ⟨hgraph, hfails⟩ := hproduces.error hrun
    exact ⟨{ b with library := s.library, types := s.rolledBack }, s.graph, made, _, rfl,
      h.failed hmemory hself hfree hrun hgraph, convertAll_of_error hrun (hfails error rfl).1⟩
  · obtain ⟨made', hadds, hs, -⟩ := hproduces.ok hrun
    obtain ⟨graph', hpublish, h'⟩ := h.published hmemory hself hfree hrun hs hadds.graph
    exact ⟨{ b with library := s.library, types := s.types }, graph', made', _, rfl, h',
      convertAll_of_published hrun hpublish⟩

end Next

theorem Ongoing.accounts_convertAll (hmemory : lib.InMemory) (hself : lib.Continues lib)
    (hfree : lib.IdFree) {store : Store} (hstore : lib.store = some store)
    (h : Ongoing lib entries rest b graph made report)
    (hrun : convertAll b graph report rest = (b', graph', .ok report')) :
    report'.Accounts lib b.annotators entries graph' := by
  induction rest generalizing b graph made report with
  | nil =>
    cases hrun
    exact h.accounts
  | cons entry rest ih =>
    obtain ⟨name, r⟩ := entry
    obtain ⟨b₁, graph₁, made₁, report₁, hannotators, h₁, hnext⟩ :=
      h.next hmemory hself hfree hstore
    rw [← hannotators]
    exact ih h₁ (hnext.symm.trans hrun)

/-- The report on sources for documents without ids accounts for each of their references. -/
theorem accounts_convertSources {documents : List (String × Json)}
    (hfree : ∀ e ∈ documents, e.2.IdFree) {broken : List String} {sources : List Source}
    (huris : ∀ s ∈ sources, s.schema = none ∧ s.uris ≠ [])
    (hnames : ((sources.flatMap Source.topLevels).map Prod.fst).Nodup)
    (hrun : convertSources documents broken sources .empty = some (graph, report)) :
    report.Accounts (.ofStore (some (.memory documents broken))) Annotator.builtin
      (sources.flatMap Source.topLevels) graph := by
  obtain ⟨hmemory, hself⟩ := (Library.Reached.memory documents broken).inMemory
  have hlibFree : (Library.ofStore (some (.memory documents broken))).IdFree := hfree
  have hstart : Ongoing (.ofStore (some (.memory documents broken)))
      (sources.flatMap Source.topLevels) (sources.flatMap Source.topLevels)
      (ofStore (some (.memory documents broken))) .empty (fun _ => none) .empty := by
    refine ⟨proper_builtin, ⟨hself, ⟨nofun, nofun⟩, nofun, nofun, nofun⟩, ?_, ⟨nofun, nofun⟩,
      hnames, fun _ _ => rfl, fun e he => ⟨he, isWritten_of_mem_topLevels he⟩⟩
    rintro r ⟨t, ht⟩
    cases ht
  unfold convertSources at hrun
  rw [addSources_eq huris (ofStore (some (.memory documents broken))) hnames] at hrun
  dsimp only at hrun
  split at hrun
  · next b' graph' report' hconvert =>
    cases hrun
    exact hstart.accounts_convertAll hmemory hself hlibFree rfl hconvert
  · cases hrun

end Batch

/-! ### What becomes of a name -/

/-- The name was converted in both, to published types that are isomorphic, or it failed in both,
with the same error. -/
structure Report.AgreeOn (name : String) (report : Report) (g : Graph) (report' : Report)
    (g' : Graph) : Prop where
  told : name ∈ report.converted.map Prod.fst ++ report.failed.map Prod.fst
  converted : name ∈ report.converted.map Prod.fst ↔ name ∈ report'.converted.map Prod.fst
  failed : ∀ error, (name, error) ∈ report.failed ↔ (name, error) ∈ report'.failed
  isomorphic : ∀ t t', (name, t) ∈ report.converted → (name, t') ∈ report'.converted →
    g.topLevel? name = some t ∧ g'.topLevel? name = some t' ∧ g.Isomorphic t g' t'

namespace Report

variable {lib : Library} {annotators : List Annotator} {graph g g' : Graph}
  {types types' : List (Reference × NodeId)} {entries entries' : List (String × Reference)}
  {report report' : Report} {name : String} {r : Reference}

/-- A name that fails in one run fails with the same error in another one. -/
theorem Accounts.mem_failed (h : report.Accounts lib annotators entries g)
    (h' : report'.Accounts lib annotators entries' g') (hnames : (entries.map Prod.fst).Nodup)
    (hnames' : (entries'.map Prod.fst).Nodup) (hr : (name, r) ∈ entries)
    (hr' : (name, r) ∈ entries') (hfails : name ∈ report'.failed.map Prod.fst)
    {error : BatchError} (herror : (name, error) ∈ report.failed) :
    (name, error) ∈ report'.failed := by
  obtain ⟨r₁, fault, hr₁, rfl, hfault⟩ := h.failed _ herror
  obtain ⟨⟨name', error'⟩, herror', rfl⟩ := List.mem_map.1 hfails
  obtain ⟨r₂, fault', hr₂, rfl, hfault'⟩ := h'.failed _ herror'
  obtain rfl := eq_of_mem_of_nodup hnames hr hr₁
  obtain rfl := eq_of_mem_of_nodup hnames' hr' hr₂
  obtain rfl := hfault.unique hfault'
  exact herror'

/-- Two runs agree on the names of the entries that they share. -/
theorem agreeOn_of_accounts {s s' : Conversion} {made made' : Made}
    (hs : Solved lib annotators [] s made) (hs' : Solved lib annotators [] s' made')
    (htells : report.TellsOf lib annotators graph s.types entries)
    (htells' : report'.TellsOf lib annotators graph s'.types entries')
    (h : report.Accounts lib annotators entries s.graph)
    (h' : report'.Accounts lib annotators entries' s'.graph)
    (hnames : (entries.map Prod.fst).Nodup) (hnames' : (entries'.map Prod.fst).Nodup)
    (hr : (name, r) ∈ entries) (hr' : (name, r) ∈ entries') :
    report.AgreeOn name s.graph report' s'.graph := by
  have hfailed : name ∈ report.failed.map Prod.fst ↔ name ∈ report'.failed.map Prod.fst := by
    rw [htells.mem_failed_iff hnames hr, htells'.mem_failed_iff hnames' hr']
  refine ⟨htells.names.mem_iff.2 (List.mem_map_of_mem hr), ?_, fun error => ?_,
    fun t t' ht ht' => ?_⟩
  · rw [htells.mem_converted_iff hnames hr, htells'.mem_converted_iff hnames' hr']
  · constructor
    · intro herror
      have hfails := hfailed.1 (List.mem_map_of_mem herror)
      exact h.mem_failed h' hnames hnames' hr hr' hfails herror
    · intro herror
      have hfails := hfailed.2 (List.mem_map_of_mem herror)
      exact h'.mem_failed h hnames' hnames hr' hr hfails herror
  · obtain ⟨r₁, hr₁, -, found, hfound, hlookup⟩ := htells.converted _ ht
    obtain ⟨r₂, hr₂, -, found', hfound', hlookup'⟩ := htells'.converted _ ht'
    obtain rfl := eq_of_mem_of_nodup hnames hr hr₁
    obtain rfl := eq_of_mem_of_nodup hnames' hr' hr₂
    obtain rfl := Except.ok.inj (hfound.symm.trans hfound')
    have hcounterpart := (hs.solves.types _ t hlookup).counterpart (hs'.solves.types _ t' hlookup')
    exact ⟨h.published _ ht, h'.published _ ht', Graph.isomorphic_of_corresponds
      (Counterpart.biUnique hs.solves.ownNodes hs'.solves.ownNodes)
      (fun _ _ hvw => hs.solves.corresponds hs'.solves hvw) hcounterpart⟩

end Report

namespace Batch

/-- A batch converts each source as if it was alone where no document has an id: its names are
converted just when they are without the other sources, to isomorphic types, and fail with the same
errors. -/
theorem convert_eachAlone {documents : List (String × Json)}
    (hfree : ∀ e ∈ documents, e.2.IdFree) (broken : List String) {sources : List Source}
    (huris : ∀ s ∈ sources, s.schema = none ∧ s.uris ≠ [])
    (hnames : ((sources.flatMap Source.topLevels).map Prod.fst).Nodup) :
    ∃ g report, convertSources documents broken sources .empty = some (g, report) ∧
      ∀ source ∈ sources, ∃ g' report',
        convertSources documents broken [source] .empty = some (g', report') ∧
        ∀ name ∈ source.topLevels.map Prod.fst, report.AgreeOn name g report' g' := by
  obtain ⟨s, made, report, hrun, hs, htells⟩ :=
    exists_convertSources hfree broken huris hnames .empty
  have haccounts := accounts_convertSources hfree huris hnames hrun
  refine ⟨s.graph, report, hrun, fun source hsource => ?_⟩
  have huris' : ∀ s ∈ [source], s.schema = none ∧ s.uris ≠ [] := by
    intro s hs
    obtain rfl := List.mem_singleton.1 hs
    exact huris s hsource
  have hsublist : ([source].flatMap Source.topLevels).Sublist
      (sources.flatMap Source.topLevels) := by
    obtain ⟨before, after, heq⟩ := List.append_of_mem hsource
    rw [heq, List.flatMap_singleton, List.flatMap_append, List.flatMap_cons]
    exact (List.sublist_append_left _ _).trans (List.sublist_append_right _ _)
  have hnames' := hnames.sublist (hsublist.map Prod.fst)
  obtain ⟨s', made', report', hrun', hs', htells'⟩ :=
    exists_convertSources hfree broken huris' hnames' .empty
  have haccounts' := accounts_convertSources hfree huris' hnames' hrun'
  refine ⟨s'.graph, report', hrun', fun name hname => ?_⟩
  obtain ⟨⟨name, r⟩, hr, rfl⟩ := List.mem_map.1 hname
  have hr' : (name, r) ∈ [source].flatMap Source.topLevels :=
    List.mem_flatMap.2 ⟨source, List.mem_singleton_self source, hr⟩
  exact Report.agreeOn_of_accounts hs hs' htells htells' haccounts haccounts' hnames hnames'
    (hsublist.subset hr') hr'

/-- Two schemas that refer to each other, and one that refers to them and to one that is missing. -/
def sharedDocuments : List (String × Json) :=
  let refersTo (uri : String) : Json := .object [("$ref", .string uri)]
  [("a.json", .object [("items", refersTo "b.json")]),
    ("b.json", .object [("items", refersTo "a.json")]),
    ("c.json", .object [("allOf", .array [refersTo "a.json", refersTo "gone.json"])])]

theorem idFree_sharedDocuments : ∀ e ∈ sharedDocuments, e.2.IdFree := by
  have hlist : ∀ uri : String,
      Json.IdFree (.object [("items", .object [("$ref", .string uri)])]) := by
    intro uri path members hmem id
    simp [Json.nodes, Json.nodesOfMembers] at hmem
    rcases hmem with ⟨-, rfl⟩ | ⟨-, rfl⟩
    · exact nofun
    · exact nofun
  intro e he
  simp only [sharedDocuments, List.mem_cons, List.not_mem_nil, or_false] at he
  rcases he with rfl | rfl | rfl
  · exact hlist "b.json"
  · exact hlist "a.json"
  · intro path members hmem id
    simp [Json.nodes, Json.nodesOfMembers, Json.nodesOfItems] at hmem
    rcases hmem with ⟨-, rfl⟩ | ⟨-, rfl⟩ | ⟨-, rfl⟩
    · exact nofun
    · exact nofun
    · exact nofun

theorem convert_eachAlone_shared :
    ∃ g report, convertSources sharedDocuments [] [ofUri "c.json", ofUri "a.json", ofUri "b.json"]
        .empty = some (g, report) ∧
      report.converted.map Prod.fst = ["a", "b"] ∧ report.failed.map Prod.fst = ["c"] ∧
      ∀ source ∈ [ofUri "c.json", ofUri "a.json", ofUri "b.json"], ∃ g' report',
        convertSources sharedDocuments [] [source] .empty = some (g', report') ∧
        ∀ name ∈ source.topLevels.map Prod.fst, report.AgreeOn name g report' g' := by
  have huris : ∀ s ∈ [ofUri "c.json", ofUri "a.json", ofUri "b.json"],
      s.schema = none ∧ s.uris ≠ [] := by decide
  obtain ⟨g, report, hrun, halone⟩ :=
    convert_eachAlone idFree_sharedDocuments [] huris (by decide +kernel)
  have hnames : (convertSources sharedDocuments []
      [ofUri "c.json", ofUri "a.json", ofUri "b.json"] .empty).map (fun result =>
        (result.2.converted.map Prod.fst, result.2.failed.map Prod.fst)) =
      some (["a", "b"], ["c"]) := by decide +kernel
  rw [hrun] at hnames
  obtain ⟨hconverted, hfailed⟩ := Prod.mk.inj (Option.some.inj hnames)
  exact ⟨g, report, hrun, hconverted, hfailed, halone⟩

end Batch

end JsonTyping
