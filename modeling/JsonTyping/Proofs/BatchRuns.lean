import JsonTyping.Proofs.ConversionTermination
import JsonTyping.Proofs.TypeSolutions
import JsonTyping.Schema.Batch

/-!
# Runs of a batch

A batch converts the top-level references that lead to a place with a sound type and fails for the
others, whatever it converted before (`Batch.exists_convertAll`). A failure leaves nothing behind
that later conversions see but nodes, and a graph with more nodes solves the same equations.
-/

namespace JsonTyping

namespace Conversion

variable {lib : Library} {annotators : List Annotator} {s s' : Conversion} {made : Made}

/-- The reference leads to a place whose type is sound. -/
def Convertible (lib : Library) (annotators : List Annotator) (r : Reference) : Prop :=
  ∃ found, (outcome (Library.resolveTopLevel r) lib).1 = .ok found ∧
    (typeAt lib found.place.canonical).All (Sound lib annotators)

/-- The type is the one registered for the place that the reference leads to. -/
def IsTypeOf (lib : Library) (types : List (Reference × NodeId)) (r : Reference) (t : NodeId) :
    Prop :=
  ∃ found, (outcome (Library.resolveTopLevel r) lib).1 = .ok found ∧
    types.lookup found.place.canonical = some t

/-- Where nothing is unfinished, the types of registered places are sound. -/
theorem Solves.convertible {g : Graph} {types : List (Reference × NodeId)}
    (h : Solves lib annotators [] g types made) {r : Reference} {t : NodeId}
    (ht : IsTypeOf lib types r t) : Convertible lib annotators r := by
  obtain ⟨found, hfound, hlookup⟩ := ht
  exact ⟨found, hfound, ((h.types _ t hlookup).all).imp fun _ hname => h.sound hname⟩

theorem produces_convertTopLevel (hmemory : lib.InMemory) (hself : lib.Continues lib)
    (hfree : lib.IdFree) {store : Store} (hstore : lib.store = some store)
    (hs : Solved lib annotators [] s made) (name : String) (r : Reference) :
    Produces lib annotators [] [] s made (convertTopLevel annotators name r)
      (fun t s' _ => IsTypeOf lib s'.types r t) (¬ Convertible lib annotators r) := by
  unfold convertTopLevel
  refine (produces_resolve hmemory hself hfree hstore hs .empty r fun hnone => ?_).bind ?_
  · rintro ⟨found, hfound, -⟩
    exact hnone found hfound
  rintro found s₁ made₁ - hs₁ ⟨hfound, hfinds⟩
  obtain ⟨v, hv, -, hready⟩ := ready_of_finds hfinds s₁.types
  rw [hv]
  dsimp only
  refine Produces.bind (P := fun s' s'' made' => s₁ = s' ∧ s₁ = s'' ∧ made₁ = made')
    (.of_ok rfl (.refl s₁ made₁) hs₁ ⟨rfl, rfl, rfl⟩) ?_
  rintro _ _ _ - - ⟨rfl, rfl, rfl⟩
  refine ((settles_toType annotators hmemory hself hfree hstore _ [] s₁ made₁ v found.place _ hs₁
    hready).weaken (fun _ hname => hname) fun hunsound => ?_).imp
      fun t s₂ made₂ _ _ ht => ⟨found, hfound, ht⟩
  rintro ⟨found', hfound', hsound⟩
  obtain rfl := Except.ok.inj (hfound.symm.trans hfound')
  exact hunsound hsound

/-- A written reference that is not converted has something wrong with its schemas. -/
theorem exists_schema_of_error (hmemory : lib.InMemory) (hs : lib.Continues s.library)
    (hproper : Proper annotators) {name : String} {r : Reference} (hwritten : r.IsWritten)
    {e : Halt} (hrun : outcome (convertTopLevel annotators name r) s = (.error e, s')) :
    ∃ error, e = .schema error := by
  obtain ⟨answer, library, hresolve, hlibrary, hends⟩ := hs.resolve hmemory .empty r
  cases answer with
  | error cause =>
    rw [outcome_convertTopLevel_of_error hresolve] at hrun
    cases hrun
    rcases hends with herror | ⟨hunwritten, -⟩
    · exact herror
    · exact absurd hwritten hunwritten
  | ok found =>
    obtain ⟨v, hv, -⟩ := hends.value?
    rw [outcome_convertTopLevel hresolve hv] at hrun
    have hwalks : Walks library annotators True { s with library }
        (toType annotators (depthBound library) v found.place (.givenName name)) fun _ _ => True :=
      walks_toType_of_finds (hlibrary.inMemory hmemory) hlibrary.self (hlibrary.finds hends) hv s _
    exact Fair.schema ((hwalks.error hrun).2 trivial) hproper

end Conversion

open Conversion

namespace Graph

theorem Develops.topLevel? {g g' : Graph} (h : g.Develops g') (name : String) :
    g'.topLevel? name = g.topLevel? name := by
  rw [Graph.topLevel?, Graph.topLevel?, h.topLevels]

/-- A name that is not taken can be given to a type; the nodes and the other names stay. -/
theorem publish?_of_none {g : Graph} {name : String} (h : g.topLevel? name = none) (t : NodeId) :
    ∃ g', g.publish? name t = some g' ∧ g.KeepsShared g' ∧ (∀ u, g'.shape u = g.shape u) ∧
      ∀ name', name' ≠ name → g'.topLevel? name' = g.topLevel? name' := by
  refine ⟨{ g with topLevels := g.topLevels ++ [(name, t)] }, ?_,
    ⟨Nat.le_refl _, fun _ _ => rfl, fun _ _ => rfl⟩, fun _ => rfl, fun name' hne => ?_⟩
  · rw [publish?, h]
    rfl
  · have hother : [(name, t)].lookup name' = none := by
      rw [SortedMap.lookup_cons_eq, if_neg hne, List.lookup_nil]
    rw [Graph.topLevel?, Graph.topLevel?, List.lookup_append, hother, Option.or_none]

theorem publish?_of_some {g : Graph} {name : String} (h : g.topLevel? name ≠ none) (t : NodeId) :
    g.publish? name t = none := by
  rw [publish?, if_pos (Option.isSome_iff_ne_none.2 h)]

end Graph

/-! ### Reports -/

/-- The reference can be converted, and its name is not taken. -/
def Succeeds (lib : Library) (annotators : List Annotator) (g : Graph)
    (entry : String × Reference) : Prop :=
  Convertible lib annotators entry.2 ∧ g.topLevel? entry.1 = none

/-- The report tells of every entry, under its name: of those that succeed with their types, and of
the others as failures. -/
structure Report.TellsOf (report : Report) (lib : Library) (annotators : List Annotator)
    (g : Graph) (types : List (Reference × NodeId)) (entries : List (String × Reference)) :
    Prop where
  names : (report.converted.map Prod.fst ++ report.failed.map Prod.fst).Perm
    (entries.map Prod.fst)
  converted : ∀ e ∈ report.converted, ∃ r, (e.1, r) ∈ entries ∧
    Succeeds lib annotators g (e.1, r) ∧ IsTypeOf lib types r e.2
  failed : ∀ e ∈ report.failed, ∃ r, (e.1, r) ∈ entries ∧ ¬ Succeeds lib annotators g (e.1, r)

def Report.append (report report' : Report) : Report :=
  ⟨report.converted ++ report'.converted, report.failed ++ report'.failed⟩

namespace Report

theorem append_assoc (report new new' : Report) :
    (report.append new).append new' = report.append (new.append new') := by
  simp only [append, List.append_assoc]

theorem append_converted (report : Report) (e : String × NodeId) :
    report.append ⟨[e], []⟩ = { report with converted := report.converted ++ [e] } := by
  simp only [append, List.append_nil]

theorem append_failed (report : Report) (e : String × BatchError) :
    report.append ⟨[], [e]⟩ = { report with failed := report.failed ++ [e] } := by
  simp only [append, List.append_nil]

variable {lib : Library} {annotators : List Annotator} {g g' : Graph}
  {types types' : List (Reference × NodeId)} {entries entries' : List (String × Reference)}
  {report report' : Report}

theorem TellsOf.congr (h : report.TellsOf lib annotators g types entries)
    (hg : ∀ e ∈ entries, g'.topLevel? e.1 = g.topLevel? e.1)
    (htypes : ∀ r t, types.lookup r = some t → types'.lookup r = some t) :
    report.TellsOf lib annotators g' types' entries where
  names := h.names
  converted e he := by
    obtain ⟨r, hr, hsucceeds, found, hfound, hlookup⟩ := h.converted e he
    exact ⟨r, hr, ⟨hsucceeds.1, (hg _ hr).trans hsucceeds.2⟩, found, hfound, htypes _ _ hlookup⟩
  failed e he := by
    obtain ⟨r, hr, hfails⟩ := h.failed e he
    exact ⟨r, hr, fun hsucceeds => hfails ⟨hsucceeds.1, (hg _ hr).symm.trans hsucceeds.2⟩⟩

theorem tellsOf_converted {name : String} {r : Reference} {t : NodeId}
    (hsucceeds : Succeeds lib annotators g (name, r)) (ht : IsTypeOf lib types r t) :
    TellsOf ⟨[(name, t)], []⟩ lib annotators g types [(name, r)] where
  names := .refl _
  converted e he := by
    obtain rfl := List.mem_singleton.1 he
    exact ⟨r, List.mem_cons_self, hsucceeds, ht⟩
  failed e he := absurd he List.not_mem_nil

theorem tellsOf_failed {name : String} {r : Reference}
    (hfails : ¬ Succeeds lib annotators g (name, r)) (error : BatchError) :
    TellsOf ⟨[], [(name, error)]⟩ lib annotators g types [(name, r)] where
  names := .refl _
  converted e he := absurd he List.not_mem_nil
  failed e he := by
    obtain rfl := List.mem_singleton.1 he
    exact ⟨r, List.mem_cons_self, hfails⟩

theorem TellsOf.append (h : report.TellsOf lib annotators g types entries)
    (h' : report'.TellsOf lib annotators g types entries') :
    (report.append report').TellsOf lib annotators g types (entries ++ entries') where
  names := by
    simp only [Report.append, List.map_append]
    refine List.Perm.trans ?_ (h.names.append h'.names)
    rw [List.append_assoc, List.append_assoc]
    refine List.Perm.append_left _ ?_
    rw [← List.append_assoc, ← List.append_assoc]
    exact List.perm_append_comm.append_right _
  converted e he := by
    rcases List.mem_append.1 he with he | he
    · obtain ⟨r, hr, hrest⟩ := h.converted e he
      exact ⟨r, List.mem_append_left _ hr, hrest⟩
    · obtain ⟨r, hr, hrest⟩ := h'.converted e he
      exact ⟨r, List.mem_append_right _ hr, hrest⟩
  failed e he := by
    rcases List.mem_append.1 he with he | he
    · obtain ⟨r, hr, hrest⟩ := h.failed e he
      exact ⟨r, List.mem_append_left _ hr, hrest⟩
    · obtain ⟨r, hr, hrest⟩ := h'.failed e he
      exact ⟨r, List.mem_append_right _ hr, hrest⟩

end Report

namespace Batch

variable {lib : Library} {b : Batch} {graph : Graph} {report : Report}

/-- The state that the next conversion starts from. -/
def conversion (b : Batch) (graph : Graph) : Conversion := ⟨b.library, graph, b.types, []⟩

section Runs

variable {name : String} {r : Reference} {t : NodeId} {s : Conversion} {error : SchemaError}
  {rest : List (String × Reference)}

theorem convertAll_of_published
    (hrun : outcome (convertTopLevel b.annotators name r) (b.conversion graph) = (.ok t, s))
    {graph' : Graph} (hpublish : s.graph.publish? name t = some graph') :
    convertAll b graph report ((name, r) :: rest) =
      convertAll { b with library := s.library, types := s.types } graph'
        (report.append ⟨[(name, t)], []⟩) rest := by
  have hrun' : (convertTopLevel b.annotators name r).run ⟨b.library, graph, b.types, []⟩ =
      (.ok t, s) := hrun
  rw [convertAll, hrun', Report.append_converted]
  dsimp only
  rw [hpublish]

theorem convertAll_of_taken
    (hrun : outcome (convertTopLevel b.annotators name r) (b.conversion graph) = (.ok t, s))
    (hpublish : s.graph.publish? name t = none) :
    convertAll b graph report ((name, r) :: rest) =
      convertAll { b with library := s.library, types := s.types } s.graph
        (report.append ⟨[], [(name, .duplicateTopLevel name)]⟩) rest := by
  have hrun' : (convertTopLevel b.annotators name r).run ⟨b.library, graph, b.types, []⟩ =
      (.ok t, s) := hrun
  rw [convertAll, hrun', Report.append_failed]
  dsimp only
  rw [hpublish]

theorem convertAll_of_error
    (hrun : outcome (convertTopLevel b.annotators name r) (b.conversion graph) =
      (.error (.schema error), s)) (hfatal : error.isFatal = false) :
    convertAll b graph report ((name, r) :: rest) =
      convertAll { b with library := s.library, types := s.rolledBack } s.graph
        (report.append ⟨[], [(name, .schema error)]⟩) rest := by
  have hrun' : (convertTopLevel b.annotators name r).run ⟨b.library, graph, b.types, []⟩ =
      (.error (.schema error), s) := hrun
  rw [convertAll, hrun', Report.append_failed]
  dsimp only
  rw [if_neg (by rw [hfatal]; exact Bool.false_ne_true)]

end Runs

/-- Between the two batches the entries were converted, or failed, as the report tells. -/
structure Reports (lib : Library) (b : Batch) (graph : Graph)
    (entries : List (String × Reference)) (b' : Batch) (graph' : Graph) (made' : Made)
    (new : Report) : Prop where
  annotators : b'.annotators = b.annotators
  solved : Solved lib b'.annotators [] (b'.conversion graph') made'
  types : ∀ r t, b.types.lookup r = some t → b'.types.lookup r = some t
  topLevels : ∀ name, name ∉ entries.map Prod.fst →
    graph'.topLevel? name = graph.topLevel? name
  tells : new.TellsOf lib b.annotators graph b'.types entries

theorem Reports.trans {entries entries' : List (String × Reference)} {b₁ b₂ : Batch}
    {graph₁ graph₂ : Graph} {made₁ made₂ : Made} {new new' : Report}
    (h : Reports lib b graph entries b₁ graph₁ made₁ new)
    (h' : Reports lib b₁ graph₁ entries' b₂ graph₂ made₂ new')
    (hnames : ∀ e ∈ entries', e.1 ∉ entries.map Prod.fst) :
    Reports lib b graph (entries ++ entries') b₂ graph₂ made₂ (new.append new') where
  annotators := h'.annotators.trans h.annotators
  solved := h'.solved
  types r t ht := h'.types r t (h.types r t ht)
  topLevels name hname := by
    rw [List.map_append, List.mem_append, not_or] at hname
    exact (h'.topLevels name hname.2).trans (h.topLevels name hname.1)
  tells := by
    have htells := h'.tells
    rw [h.annotators] at htells
    refine (h.tells.congr (fun _ _ => rfl) h'.types).append
      (htells.congr (fun e he => ?_) fun _ _ ht => ht)
    exact (h.topLevels e.1 (hnames e he)).symm

/-- A batch converts an entry as if it was alone: whether that succeeds does not depend on the graph
or on what was converted before, but for the names that are taken. -/
theorem exists_convertAll_cons (hmemory : lib.InMemory) (hself : lib.Continues lib)
    (hfree : lib.IdFree) {store : Store} (hstore : lib.store = some store) {made : Made}
    (hproper : Proper b.annotators) (hs : Solved lib b.annotators [] (b.conversion graph) made)
    {r : Reference} (hwritten : r.IsWritten) (name : String) :
    ∃ b' graph' made' new,
      (∀ report rest, convertAll b graph report ((name, r) :: rest) =
        convertAll b' graph' (report.append new) rest) ∧
      Reports lib b graph [(name, r)] b' graph' made' new := by
  have hproduces := produces_convertTopLevel hmemory hself hfree hstore hs name r
  rcases hrun : outcome (convertTopLevel b.annotators name r) (b.conversion graph) with ⟨e | t, s⟩
  · obtain ⟨hadvances, -⟩ := advances_convertTopLevel hmemory hself hs.library hrun
    obtain ⟨error, rfl⟩ := exists_schema_of_error hmemory hs.library hproper hwritten hrun
    obtain ⟨hgraph, hfails⟩ := hproduces.error hrun
    obtain ⟨hfatal, hfails⟩ := hfails error rfl
    have htypes : s.rolledBack = b.types := rolledBack_eq hadvances.grows rfl
    refine ⟨{ b with library := s.library }, s.graph, made, _, fun report rest => ?_,
      rfl, ⟨hadvances.library, hs.solves.develops hgraph⟩, fun _ _ ht => ht,
      fun name' _ => hgraph.topLevel? name',
      Report.tellsOf_failed (fun hsucceeds => hfails hsucceeds.1) (.schema error)⟩
    rw [convertAll_of_error hrun hfatal, htypes]
  · obtain ⟨made₁, hadds, hs₁, htype⟩ := hproduces.ok hrun
    have htopLevels : ∀ name', s.graph.topLevel? name' = graph.topLevel? name' :=
      hadds.graph.topLevel?
    by_cases hfresh : graph.topLevel? name = none
    · obtain ⟨graph₁, hpublish, hkeeps, hshape, hother⟩ :=
        Graph.publish?_of_none ((htopLevels name).trans hfresh) t
      refine ⟨{ b with library := s.library, types := s.types }, graph₁, made₁, _,
        fun report rest => convertAll_of_published hrun hpublish, rfl,
        ⟨hs₁.library, hs₁.solves.keepsShared hkeeps fun u _ => hshape u⟩, hadds.types,
        fun name' hname' => ?_,
        Report.tellsOf_converted ⟨hs₁.solves.convertible htype, hfresh⟩ htype⟩
      rw [hother name' fun heq => hname' (List.mem_singleton.2 heq), htopLevels]
    · have hpublish : s.graph.publish? name t = none :=
        Graph.publish?_of_some (by rwa [htopLevels]) t
      exact ⟨{ b with library := s.library, types := s.types }, s.graph, made₁, _,
        fun report rest => convertAll_of_taken hrun hpublish, rfl, ⟨hs₁.library, hs₁.solves⟩,
        hadds.types, fun name' _ => htopLevels name',
        Report.tellsOf_failed (fun hsucceeds => hfresh hsucceeds.2) _⟩

/-- A batch converts all its entries as if each was alone. -/
theorem exists_convertAll (hmemory : lib.InMemory) (hself : lib.Continues lib)
    (hfree : lib.IdFree) {store : Store} (hstore : lib.store = some store) (b : Batch)
    (graph : Graph) (report : Report) {made : Made} (hproper : Proper b.annotators)
    (hs : Solved lib b.annotators [] (b.conversion graph) made)
    {entries : List (String × Reference)} (hnames : (entries.map Prod.fst).Nodup)
    (hwritten : ∀ e ∈ entries, e.2.IsWritten) :
    ∃ b' graph' made' new,
      convertAll b graph report entries = (b', graph', .ok (report.append new)) ∧
      Reports lib b graph entries b' graph' made' new := by
  induction entries generalizing b graph report made with
  | nil =>
    refine ⟨b, graph, made, .empty, ?_, rfl, hs, fun _ _ ht => ht, fun _ _ => rfl, .refl _,
      fun _ he => absurd he List.not_mem_nil, fun _ he => absurd he List.not_mem_nil⟩
    simp only [convertAll, Report.append, Report.empty, List.append_nil]
  | cons entry entries ih =>
    obtain ⟨name, r⟩ := entry
    obtain ⟨hname, hnames'⟩ := List.nodup_cons.1 hnames
    obtain ⟨b₁, graph₁, made₁, new, hfirst, hreports⟩ :=
      exists_convertAll_cons hmemory hself hfree hstore hproper hs
        (hwritten _ List.mem_cons_self) name
    have hproper₁ : Proper b₁.annotators := hreports.annotators ▸ hproper
    obtain ⟨b₂, graph₂, made₂, new', hrest, hreports'⟩ := ih b₁ graph₁ (report.append new)
      hproper₁ hreports.solved hnames' fun e he => hwritten e (List.mem_cons_of_mem _ he)
    refine ⟨b₂, graph₂, made₂, new.append new', ?_,
      hreports.trans hreports' fun e he hmem => ?_⟩
    · rw [hfirst, hrest, Report.append_assoc]
    · obtain rfl := List.mem_singleton.1 hmem
      exact hname (List.mem_map.2 ⟨e, he, rfl⟩)

end Batch

end JsonTyping
