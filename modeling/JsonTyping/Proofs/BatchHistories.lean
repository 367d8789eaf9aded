import JsonTyping.Proofs.BatchFailures
import JsonTyping.Proofs.SourceRefusals

/-!
# Histories of batches

A batch is worked with in calls: sources are added and what is pending is converted, in any order.
Every reference that was accepted belongs to the round that converted it or is still pending, and a
round that ends with a report lists each of its names once, in the order in which they were added
(`Batch.History.rounds_exact`). A round that ends with a fatal failure has no report: its references
are neither listed nor pending any more (`Batch.History.fatalRound_dropsEntries`).
-/

namespace JsonTyping

/-- Every name is listed once, as converted or as failed, and both lists keep the order. -/
structure Report.ListsOnce (report : Report) (names : List String) : Prop where
  converted : (report.converted.map Prod.fst).Sublist names
  failed : (report.failed.map Prod.fst).Sublist names
  count : ∀ name, (report.converted.map Prod.fst).count name +
    (report.failed.map Prod.fst).count name = names.count name

namespace Report

variable {report : Report} {names : List String}

theorem listsOnce_nil : Report.empty.ListsOnce [] := ⟨.slnil, .slnil, fun _ => rfl⟩

theorem ListsOnce.cons_converted (h : report.ListsOnce names) (name : String) (t : NodeId) :
    (append ⟨[(name, t)], []⟩ report).ListsOnce (name :: names) where
  converted := h.converted.cons_cons name
  failed := h.failed.cons name
  count other := by
    have hcount := h.count other
    simp only [append, List.singleton_append, List.nil_append, List.map_cons, List.count_cons]
    omega

theorem ListsOnce.cons_failed (h : report.ListsOnce names) (name : String) (error : BatchError) :
    (append ⟨[], [(name, error)]⟩ report).ListsOnce (name :: names) where
  converted := h.converted.cons name
  failed := h.failed.cons_cons name
  count other := by
    have hcount := h.count other
    simp only [append, List.singleton_append, List.nil_append, List.map_cons, List.count_cons]
    omega

end Report

open Conversion

namespace Batch

/-- What converting these entries ends with: a report that lists them after those it had, or a fatal
failure. -/
def EndsWith (report : Report) (names : List String) : Except Halt Report → Prop
  | .ok report' => ∃ new : Report, report' = report.append new ∧ new.ListsOnce names
  | .error cause => cause.isFatal = true

section Ends

variable {report : Report} {names : List String} {result : Except Halt Report}

theorem EndsWith.cons_converted {name : String} {t : NodeId}
    (h : EndsWith (report.append ⟨[(name, t)], []⟩) names result) :
    EndsWith report (name :: names) result := by
  cases result with
  | error cause => exact h
  | ok report' =>
    obtain ⟨new, rfl, hnew⟩ := h
    exact ⟨_, Report.append_assoc _ _ _, hnew.cons_converted name t⟩

theorem EndsWith.cons_failed {name : String} {error : BatchError}
    (h : EndsWith (report.append ⟨[], [(name, error)]⟩) names result) :
    EndsWith report (name :: names) result := by
  cases result with
  | error cause => exact h
  | ok report' =>
    obtain ⟨new, rfl, hnew⟩ := h
    exact ⟨_, Report.append_assoc _ _ _, hnew.cons_failed name error⟩

end Ends

theorem endsWith_convertAll {entries : List (String × Reference)} {b b' : Batch}
    {graph graph' : Graph} {report : Report} {result : Except Halt Report}
    (hrun : convertAll b graph report entries = (b', graph', result)) :
    b'.pending = b.pending ∧ EndsWith report (entries.map Prod.fst) result := by
  induction entries generalizing b graph report with
  | nil =>
    obtain ⟨rfl, rfl, rfl⟩ := hrun
    have hnone : report = report.append .empty := by
      simp only [Report.append, Report.empty, List.append_nil]
    exact ⟨rfl, .empty, hnone, Report.listsOnce_nil⟩
  | cons entry entries ih =>
    obtain ⟨name, r⟩ := entry
    rcases hfirst : outcome (convertTopLevel b.annotators name r) (b.conversion graph)
      with ⟨cause | t, s⟩
    · cases hfatal : cause.isFatal with
      | true =>
        rw [convertAll_of_fatal hfirst hfatal] at hrun
        obtain ⟨rfl, rfl, rfl⟩ := hrun
        exact ⟨rfl, hfatal⟩
      | false =>
        obtain ⟨error, rfl⟩ : ∃ error, cause = .schema error := by
          cases cause with
          | schema error => exact ⟨error, rfl⟩
          | misuse cause => cases hfatal
          | tooDeep => cases hfatal
        rw [convertAll_of_error hfirst hfatal] at hrun
        obtain ⟨hpending, hends⟩ := ih hrun
        exact ⟨hpending, hends.cons_failed⟩
    · cases hpublish : s.graph.publish? name t with
      | none =>
        rw [convertAll_of_taken hfirst hpublish] at hrun
        obtain ⟨hpending, hends⟩ := ih hrun
        exact ⟨hpending, hends.cons_failed⟩
      | some graph₁ =>
        rw [convertAll_of_published hfirst hpublish] at hrun
        obtain ⟨hpending, hends⟩ := ih hrun
        exact ⟨hpending, hends.cons_converted⟩

theorem endsWith_convert (b : Batch) (graph : Graph) :
    (b.convert graph).1.pending = [] ∧
      EndsWith .empty (b.pending.map Prod.fst) (b.convert graph).2.2 :=
  endsWith_convertAll rfl

/-- The references that a source adds to the pending ones, after their names. -/
def added (b : Batch) (s : Source) : List (String × Reference) :=
  (b.addSource s).1.pending.drop b.pending.length

theorem added_of_append {b : Batch} {s : Source} {entries : List (String × Reference)}
    (h : (b.addSource s).1.pending = b.pending ++ entries) : added b s = entries := by
  rw [added, h, List.drop_left]

/-- A source adds its references, up to the first one whose name is taken, and an accepted one adds
all. -/
theorem pending_addSource (b : Batch) (s : Source) :
    (b.addSource s).1.pending = b.pending ++ added b s ∧
      ((b.addSource s).2 = .ok () → ∃ uris root, urisOf s = some uris ∧
        added b s = uris.map (topLevelOf (s.nameAmong uris) root)) := by
  obtain ⟨-, hnone⟩ | ⟨uris, text, message, -, -, -, hunread⟩ |
    ⟨uris, b₁, root, huris, hserves, hadds⟩ := addSource_cases b s
  · have happend : (b.addSource s).1.pending = b.pending ++ [] := by
      rw [hnone, List.append_nil]
    refine ⟨by rw [added_of_append happend, happend], fun hok => ?_⟩
    rw [hnone] at hok
    cases hok
  · have happend : (b.addSource s).1.pending = b.pending ++ [] := by
      rw [hunread, List.append_nil]
    refine ⟨by rw [added_of_append happend, happend], fun hok => ?_⟩
    rw [hunread] at hok
    cases hok
  · obtain hall | ⟨before, uri, after, -, -, hrefused⟩ :=
      addUris_cases (s.nameAmong uris) root uris b₁
    · have happend : (b.addSource s).1.pending =
          b.pending ++ uris.map (topLevelOf (s.nameAmong uris) root) := by
        rw [hadds, hall, ← hserves.pending]
      refine ⟨by rw [added_of_append happend, happend], fun _ => ?_⟩
      exact ⟨uris, root, huris, added_of_append happend⟩
    · have happend : (b.addSource s).1.pending =
          b.pending ++ before.map (topLevelOf (s.nameAmong uris) root) := by
        rw [hadds, hrefused, ← hserves.pending]
      refine ⟨by rw [added_of_append happend, happend], fun hok => ?_⟩
      rw [hadds, hrefused] at hok
      cases hok

theorem nodup_addUris (name : Option String) (root : Option Reference) (uris : List String)
    {b : Batch} (h : (b.pending.map Prod.fst).Nodup) :
    ((addUris name root b uris).1.pending.map Prod.fst).Nodup := by
  induction uris generalizing b with
  | nil => exact h
  | cons uri uris ih =>
    rw [addUris_cons]
    split
    · exact h
    · next hfresh =>
      refine ih ?_
      rw [List.map_append, List.map_singleton]
      exact List.nodup_append'.2 ⟨h, List.nodup_singleton _, List.disjoint_singleton.2 hfresh⟩

theorem nodup_addSource {b : Batch} (h : (b.pending.map Prod.fst).Nodup) (s : Source) :
    ((b.addSource s).1.pending.map Prod.fst).Nodup := by
  obtain ⟨-, hnone⟩ | ⟨uris, text, message, -, -, -, hunread⟩ |
    ⟨uris, b₁, root, -, hserves, hadds⟩ := addSource_cases b s
  · rwa [hnone]
  · rwa [hunread]
  · rw [hadds]
    rw [← hserves.pending] at h
    exact nodup_addUris _ root uris h

/-! ### Histories -/

/-- A call that converts what is pending: its entries and its answer. -/
structure Round where
  entries : List (String × Reference)
  answer : Except Halt Report

/-- The names of the round are different, and it lists each once or ended with a fatal failure. -/
structure Round.IsExact (round : Round) : Prop where
  distinct : (round.entries.map Prod.fst).Nodup
  listed : ∀ report, round.answer = .ok report → report.ListsOnce (round.entries.map Prod.fst)
  fatal : ∀ cause, round.answer = .error cause → cause.isFatal = true

/-- What became of a batch: as it is now, all references that sources added, and all rounds. -/
structure History where
  batch : Batch
  accepted : List (String × Reference)
  rounds : List Round

inductive Call where
  | addSource (source : Source)
  | convert (graph : Graph)

namespace History

/-- A new batch, before any call. -/
def new (store : Option Store) (annotators : List Annotator) : History :=
  ⟨{ ofStore store with annotators }, [], []⟩

def call (h : History) : Call → History
  | .addSource source =>
    { h with
      batch := (h.batch.addSource source).1
      accepted := h.accepted ++ added h.batch source }
  | .convert graph =>
    { h with
      batch := (h.batch.convert graph).1
      rounds := h.rounds ++ [⟨h.batch.pending, (h.batch.convert graph).2.2⟩] }

def calls (h : History) (list : List Call) : History := list.foldl call h

/-- Every accepted reference belongs to one round or is pending. -/
structure Exact (h : History) : Prop where
  accepted : h.rounds.flatMap Round.entries ++ h.batch.pending = h.accepted
  distinct : (h.batch.pending.map Prod.fst).Nodup
  rounds : ∀ round ∈ h.rounds, round.IsExact

theorem exact_new (store : Option Store) (annotators : List Annotator) :
    (new store annotators).Exact :=
  ⟨rfl, List.nodup_nil, nofun⟩

theorem isExact_convert {b : Batch} (hdistinct : (b.pending.map Prod.fst).Nodup) (graph : Graph) :
    Round.IsExact ⟨b.pending, (b.convert graph).2.2⟩ := by
  have hends := (endsWith_convert b graph).2
  refine ⟨hdistinct, fun report hreport => ?_, fun cause hcause => ?_⟩
  · dsimp only at hreport
    rw [hreport] at hends
    obtain ⟨new, rfl, hnew⟩ := hends
    have hself : Report.empty.append new = new := by
      simp only [Report.append, Report.empty, List.nil_append]
    rwa [hself]
  · dsimp only at hcause
    rw [hcause] at hends
    exact hends

theorem Exact.call {h : History} (hexact : h.Exact) (c : Call) : (h.call c).Exact := by
  cases c with
  | addSource source =>
    refine ⟨?_, nodup_addSource hexact.distinct source, hexact.rounds⟩
    have hpending := (pending_addSource h.batch source).1
    simp only [History.call]
    rw [hpending, ← List.append_assoc, hexact.accepted]
  | convert graph =>
    have hpending := (endsWith_convert h.batch graph).1
    refine ⟨?_, ?_, fun round hround => ?_⟩
    · simp only [History.call, List.flatMap_append, List.flatMap_singleton]
      rw [hpending, List.append_nil, hexact.accepted]
    · simp only [History.call]
      rw [hpending]
      exact List.nodup_nil
    · rcases List.mem_append.1 hround with hold | hnew
      · exact hexact.rounds round hold
      · obtain rfl := List.mem_singleton.1 hnew
        exact isExact_convert hexact.distinct graph

theorem Exact.calls {h : History} (hexact : h.Exact) (list : List Call) :
    (h.calls list).Exact := by
  induction list generalizing h with
  | nil => exact hexact
  | cons c list ih => exact ih (hexact.call c)

/-- Whatever was called on a batch, the references that sources added are, in this order, those of
the rounds and those that are still pending, and right after a round none is pending. The names of a
round are different. If it answers with a report, this lists each of them once, as converted or as
failed, and both lists are in the order in which the references were added; if not, it ended with a
fatal failure. -/
theorem rounds_exact (store : Option Store) (annotators : List Annotator) (list : List Call) :
    let h := (new store annotators).calls list
    h.rounds.flatMap Round.entries ++ h.batch.pending = h.accepted ∧
      (∀ graph, list.getLast? = some (.convert graph) → h.batch.pending = []) ∧
      ∀ round ∈ h.rounds, (round.entries.map Prod.fst).Nodup ∧
        match round.answer with
        | .ok report => report.ListsOnce (round.entries.map Prod.fst)
        | .error cause => cause.isFatal = true := by
  have hexact := (exact_new store annotators).calls list
  refine ⟨hexact.accepted, fun graph hlast => ?_, fun round hround => ?_⟩
  · obtain ⟨before, rfl⟩ := List.getLast?_eq_some_iff.1 hlast
    rw [History.calls, List.foldl_concat]
    exact (endsWith_convert _ graph).1
  · have hround := hexact.rounds round hround
    refine ⟨hround.distinct, ?_⟩
    cases hanswer : round.answer with
    | ok report => exact hround.listed report hanswer
    | error cause => exact hround.fatal cause hanswer

/-- Three sources that bring their documents along, of which the second one names no type. -/
def mixedCalls : List Call :=
  let source (name type : String) : Call :=
    .addSource ⟨some name, [], some ("\x7b\"type\":\"" ++ type ++ "\"\x7d")⟩
  [source "A" "string", source "B" "text", source "C" "null", .convert .empty]

theorem rounds_exact_mixed :
    let h := (new none Annotator.builtin).calls mixedCalls
    ∃ round report, round ∈ h.rounds ∧ round.answer = .ok report ∧
      report.converted.map Prod.fst = ["A", "C"] ∧ report.failed.map Prod.fst = ["B"] ∧
      report.ListsOnce ["A", "B", "C"] ∧ h.batch.pending = [] := by
  intro h
  have hnames : (h.rounds.map fun round => (round.entries.map Prod.fst,
      round.answer.toOption.map fun report =>
        (report.converted.map Prod.fst, report.failed.map Prod.fst))) =
      [(["A", "B", "C"], some (["A", "C"], ["B"]))] := by decide +kernel
  obtain ⟨-, hpending, hrounds⟩ := rounds_exact none Annotator.builtin mixedCalls
  obtain ⟨round, hround⟩ : ∃ round, h.rounds = [round] := by
    have hlength := congrArg List.length hnames
    rw [List.length_map] at hlength
    exact List.length_eq_one_iff.1 hlength
  have hmem : round ∈ h.rounds := by
    rw [hround]
    exact List.mem_singleton_self round
  rw [hround, List.map_singleton] at hnames
  obtain ⟨hentries, hlists⟩ := Prod.mk.inj (List.cons.inj hnames).1
  have hexact := (hrounds round hmem).2
  cases hanswer : round.answer with
  | error cause =>
    rw [hanswer] at hlists
    cases hlists
  | ok report =>
    rw [hanswer] at hlists hexact
    obtain ⟨hconverted, hfailed⟩ := Prod.mk.inj (Option.some.inj hlists)
    rw [hentries] at hexact
    exact ⟨round, report, hmem, hanswer, hconverted, hfailed, hexact, hpending .empty rfl⟩

/-- Two sources that bring their documents along, the first of which refers to a document that there
is no store for. -/
def strandedCalls : List Call :=
  [.addSource ⟨some "A", [], some "\x7b\"$ref\":\"other.json\"\x7d"⟩,
    .addSource ⟨some "B", [], some "\x7b\"type\":\"string\"\x7d"⟩,
    .convert .empty, .convert .empty]

/-- After a round that ended with a fatal failure its references are neither listed in a report nor
pending, and no later call converts them. -/
theorem fatalRound_dropsEntries :
    let h := (new none Annotator.builtin).calls strandedCalls
    h.accepted.map Prod.fst = ["A", "B"] ∧ h.batch.pending = [] ∧
      h.rounds.map (fun round => round.answer.map fun report =>
          (report.converted, report.failed)) =
        [.error (.schema (.noSchemaStore "other.json")), .ok ([], [])] := by
  decide +kernel

end History

end Batch

end JsonTyping
