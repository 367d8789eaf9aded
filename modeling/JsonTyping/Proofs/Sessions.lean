import JsonTyping.Proofs.BatchSafety
import JsonTyping.Proofs.ReadingStreams
import JsonTyping.Proofs.ReferenceRuns

/-!
# Sessions

Collections of samples and batches of schemas are worked with in calls, in any order, over one graph
(`Session.call`). No call is a misuse of the tables, the graph, the library or the types of places,
whatever was called before it, with whatever texts, documents, sources and stores
(`Session.exists_run`): what every call keeps is that collections have observed values and batches
have come about (`Session.Sound.call`).
-/

namespace JsonTyping

/-- A text is recorded, or refused for its fault, but its events are never out of place. -/
theorem Recorder.Idle.exists_addText {r : Recorder} (hidle : r.Idle) (text : String) :
    ∃ r' result, r.addText text = .ok (r', result) := by
  obtain ⟨a, hassembled, hvalue⟩ := Json.readEvents_wellFormed text.toUTF8.toList
  obtain ⟨r₁, hr, -, hfollows⟩ := (hidle.follows.feedAll _).of_some hassembled
  cases hfault : (Json.readEvents text.toUTF8.toList).fault with
  | some fault =>
    refine ⟨r₁.abandon, .error ⟨text.toUTF8.toList, fault⟩, ?_⟩
    simp only [Recorder.addText, hr, hfault]
    rfl
  | none =>
    obtain ⟨hclosed, v, hresult⟩ := hvalue hfault
    obtain ⟨r', h, hfinish, -⟩ := hfollows.finish hclosed hresult
    refine ⟨r', .ok h, ?_⟩
    simp only [Recorder.addText, hr, hfault, ok_bind, hfinish]
    rfl

namespace Collection

/-- Every text is observed, as a sample or as none. -/
theorem Observed.observeText {settings : Settings} {values : List Json} {c : Collection}
    (h : Observed settings values c) (text : String) :
    ∃ c' result values', c.observeText text = .ok (c', result) ∧ Observed settings values' c' := by
  obtain ⟨r, taken, hrun⟩ := h.keeps.idle.exists_addText text
  obtain ⟨c', result, hobserve⟩ : ∃ c' result, c.observeText text = .ok (c', result) := by
    cases taken with
    | ok root => exact ⟨_, _, by simp only [Collection.observeText, hrun]; rfl⟩
    | error e => exact ⟨_, _, by simp only [Collection.observeText, hrun]; rfl⟩
  refine ⟨c', result, ?_⟩
  rcases h.keeps.observeText hobserve with ⟨v, hread, rfl, -⟩ | ⟨⟨e, rfl⟩, -⟩
  · exact ⟨values ++ [v], hobserve, h.text hobserve hread⟩
  · exact ⟨values, hobserve, h.refused hobserve⟩

theorem Observed.observeDocument {settings : Settings} {values : List Json} {c : Collection}
    (h : Observed settings values c) (document : Json) :
    ∃ c', c.observeDocument document = .ok c' ∧ Observed settings (values ++ [document]) c' := by
  obtain ⟨c', hobserve, -⟩ := h.keeps.observeDocument document
  exact ⟨c', hobserve, h.document hobserve⟩

end Collection

namespace Inference

/-- A reference is bad. -/
def IsRefusal (e : SolveError) : Prop := ∃ reference problem, e = .badReference reference problem

mutual

theorem FillEnds.isRefusal {top t : NodeId} {s s' : Inference} {e : SolveError} {o : Ending Unit}
    (h : FillEnds top t s o) (ho : o = (.error e, s')) : IsRefusal e :=
  match h, ho with
  | .stops _ hfollows, rfl => hfollows.isRefusal rfl

theorem FollowAllEnds.isRefusal {top : NodeId} {references : List String} {s s' : Inference}
    {e : SolveError} {o : Ending (List NodeId)} (h : FollowAllEnds top references s o)
    (ho : o = (.error e, s')) : IsRefusal e :=
  match h, ho with
  | .stops hfirst, rfl => hfirst.isRefusal rfl
  | .stopsLater _ hrest, rfl => hrest.isRefusal rfl

theorem FollowEnds.isRefusal {top : NodeId} {reference : String} {s s' : Inference}
    {e : SolveError} {o : Ending NodeId} (h : FollowEnds top reference s o)
    (ho : o = (.error e, s')) : IsRefusal e :=
  match h, ho with
  | .notRooted _, rfl => ⟨_, _, rfl⟩
  | .rooted _ hdescends, ho => hdescends.isRefusal ho

theorem DescendEnds.isRefusal {top : NodeId} {reference : String} {path : List String}
    {t : NodeId} {s s' : Inference} {e : SolveError} {o : Ending NodeId}
    (h : DescendEnds top reference path t s o) (ho : o = (.error e, s')) : IsRefusal e :=
  match h, ho with
  | .stops hsees, rfl => hsees.isRefusal rfl
  | .noWay _ _, rfl => ⟨_, _, rfl⟩
  | .into _ _ hrest, ho => hrest.isRefusal ho

theorem SeeThroughEnds.isRefusal {top : NodeId} {reference : String} {seen : List NodeId}
    {t : NodeId} {s s' : Inference} {e : SolveError} {o : Ending NodeId}
    (h : SeeThroughEnds top reference seen t s o) (ho : o = (.error e, s')) : IsRefusal e :=
  match h, ho with
  | .stops hfirst, rfl => hfirst.isRefusal rfl
  | .behind _ _ _ hsees, ho => hsees.isRefusal ho
  | .intoUnion _ _ _ _, rfl => ⟨_, _, rfl⟩

theorem FillFirstEnds.isRefusal {top : NodeId} {reference : String} {t : NodeId}
    {s s' : Inference} {e : SolveError} {o : Ending Unit}
    (h : FillFirstEnds top reference t s o) (ho : o = (.error e, s')) : IsRefusal e :=
  match h, ho with
  | .cycle _ _, rfl => ⟨_, _, rfl⟩
  | .fills _ _ hfills, ho => hfills.isRefusal ho

end

/-- Resolving references fails for a bad one only. -/
theorem ResolveEnds.isRefusal {top : NodeId} {s s' : Inference} {e : SolveError}
    (h : ResolveEnds top s (.error e, s')) : IsRefusal e := by
  have hfill : ∀ (order : List NodeId) (s : Inference),
      FillAllEnds top order s (.error e, s') → IsRefusal e := by
    intro order
    induction order with
    | nil => intro s h; cases h
    | cons t rest ih =>
      intro s h
      cases h with
      | stops hfirst => exact hfirst.isRefusal rfl
      | more _ hrest => exact ih _ hrest
  exact hfill _ s h

end Inference

namespace Collection

/-- Solving sets the members of intersections that have none, once each. -/
theorem Observed.solve_ne_misuse {settings : Settings} {values : List Json} {c : Collection}
    (h : Observed settings values c) (graph : Graph) (name : String) (cause : Misuse) :
    (c.solve graph name).2 ≠ .error (.misuse cause) := by
  cases hroots : c.roots.isEmpty with
  | true =>
    rw [solve_of_no_samples hroots]
    exact nofun
  | false =>
    obtain ⟨top, s, result, s', hinferred, hresolved⟩ := exists_runs c graph name
    have hends := Inference.resolveEnds_resolvePending top (wf_of_typeOf h hinferred)
    rw [hresolved] at hends
    rw [solve_of_runs hroots hinferred hresolved]
    cases result with
    | error e =>
      obtain ⟨reference, problem, rfl⟩ := hends.isRefusal
      exact nofun
    | ok _ =>
      dsimp only
      split <;> exact nofun

end Collection

/-! ### Calls -/

/-- The graph that is worked on, with the collections and the batches so far. -/
structure Session where
  graph : Graph
  collections : List Collection
  batches : List Batch

/-- What can be asked of the library. Collections and batches are numbered as they were made. -/
inductive LibraryCall where
  | newCollection (settings : Settings)
  | observeText (collection : Nat) (text : String)
  | observeDocument (collection : Nat) (document : Json)
  | solve (collection : Nat) (name : String)
  | newBatch (store : Option Store)
  | addSource (batch : Nat) (s : Source)
  | convert (batch : Nat)

namespace Session

def empty : Session := ⟨.empty, [], []⟩

/-- One call. An error that is reported to the caller ends nothing; only a misuse does. -/
def call (s : Session) : LibraryCall → Except Misuse Session
  | .newCollection settings => .ok { s with collections := s.collections ++ [.empty settings] }
  | .observeText i text =>
    match s.collections[i]? with
    | none => .ok s
    | some c => (c.observeText text).map fun result =>
        { s with collections := s.collections.set i result.1 }
  | .observeDocument i document =>
    match s.collections[i]? with
    | none => .ok s
    | some c => (c.observeDocument document).map fun c =>
        { s with collections := s.collections.set i c }
  | .solve i name =>
    match s.collections[i]? with
    | none => .ok s
    | some c =>
      match c.solve s.graph name with
      | (_, .error (.misuse cause)) => .error cause
      | (graph, _) => .ok { s with graph }
  | .newBatch store => .ok { s with batches := s.batches ++ [.ofStore store] }
  | .addSource i source =>
    match s.batches[i]? with
    | none => .ok s
    | some b => .ok { s with batches := s.batches.set i (b.addSource source).1 }
  | .convert i =>
    match s.batches[i]? with
    | none => .ok s
    | some b =>
      match b.convert s.graph with
      | (_, _, .error (.misuse cause)) => .error cause
      | (b, graph, _) => .ok { s with graph, batches := s.batches.set i b }

/-- The collections have observed values, and the batches have come about. -/
structure Sound (s : Session) : Prop where
  collections : ∀ c ∈ s.collections, ∃ settings values, Collection.Observed settings values c
  batches : ∀ b ∈ s.batches, b.Reached

theorem forall_mem_set {α : Type} {P : α → Prop} {l : List α} (h : ∀ a ∈ l, P a) (i : Nat) {b : α}
    (hb : P b) : ∀ a ∈ l.set i b, P a := by
  intro a ha
  rcases List.mem_or_eq_of_mem_set ha with hmem | rfl
  · exact h a hmem
  · exact hb

theorem forall_mem_concat {α : Type} {P : α → Prop} {l : List α} (h : ∀ a ∈ l, P a) {b : α}
    (hb : P b) : ∀ a ∈ l ++ [b], P a :=
  List.forall_mem_append.2 ⟨h, List.forall_mem_singleton.2 hb⟩

/-- No call is a misuse, and collections and batches stay sound. -/
theorem Sound.call {s : Session} (h : s.Sound) (call : LibraryCall) :
    ∃ s', s.call call = .ok s' ∧ s'.Sound := by
  cases call with
  | newCollection settings =>
    exact ⟨_, rfl, forall_mem_concat h.collections ⟨settings, [], .empty⟩, h.batches⟩
  | observeText i text =>
    cases hc : s.collections[i]? with
    | none => exact ⟨s, by simp only [Session.call, hc], h⟩
    | some c =>
      obtain ⟨settings, values, hobserved⟩ := h.collections c (List.mem_of_getElem? hc)
      obtain ⟨c', result, values', hrun, hobserved'⟩ := hobserved.observeText text
      refine ⟨{ s with collections := s.collections.set i c' }, ?_, ?_, h.batches⟩
      · simp only [Session.call, hc, hrun]
        rfl
      · exact forall_mem_set h.collections i ⟨settings, values', hobserved'⟩
  | observeDocument i document =>
    cases hc : s.collections[i]? with
    | none => exact ⟨s, by simp only [Session.call, hc], h⟩
    | some c =>
      obtain ⟨settings, values, hobserved⟩ := h.collections c (List.mem_of_getElem? hc)
      obtain ⟨c', hrun, hobserved'⟩ := hobserved.observeDocument document
      refine ⟨{ s with collections := s.collections.set i c' }, ?_, ?_, h.batches⟩
      · simp only [Session.call, hc, hrun]
        rfl
      · exact forall_mem_set h.collections i ⟨settings, values ++ [document], hobserved'⟩
  | solve i name =>
    cases hc : s.collections[i]? with
    | none => exact ⟨s, by simp only [Session.call, hc], h⟩
    | some c =>
      obtain ⟨settings, values, hobserved⟩ := h.collections c (List.mem_of_getElem? hc)
      refine ⟨{ s with graph := (c.solve s.graph name).1 }, ?_, h.collections, h.batches⟩
      simp only [Session.call, hc]
      split
      · next graph cause hrun =>
        exact absurd (congrArg Prod.snd hrun) (hobserved.solve_ne_misuse s.graph name cause)
      · next graph result _ hrun => rw [hrun]
  | newBatch store => exact ⟨_, rfl, h.collections, forall_mem_concat h.batches (.ofStore store)⟩
  | addSource i source =>
    cases hb : s.batches[i]? with
    | none => exact ⟨s, by simp only [Session.call, hb], h⟩
    | some b =>
      have hreached := h.batches b (List.mem_of_getElem? hb)
      refine ⟨{ s with batches := s.batches.set i (b.addSource source).1 }, ?_, h.collections, ?_⟩
      · simp only [Session.call, hb]
      · exact forall_mem_set h.batches i (hreached.addSource source)
  | convert i =>
    cases hb : s.batches[i]? with
    | none => exact ⟨s, by simp only [Session.call, hb], h⟩
    | some b =>
      have hreached := h.batches b (List.mem_of_getElem? hb)
      simp only [Session.call, hb]
      split
      · next b' graph' cause hrun =>
        exact absurd rfl ((hreached.sane.convert hrun).noMisuse cause)
      · next b' graph' result _ hrun =>
        refine ⟨_, rfl, h.collections, forall_mem_set h.batches i ?_⟩
        rw [show b' = (b.convert s.graph).1 by rw [hrun]]
        exact hreached.convert s.graph

/-- Whatever is called, no call is a misuse. -/
theorem exists_run (calls : List LibraryCall) :
    ∃ s, calls.foldlM call empty = .ok s ∧ s.Sound := by
  have hfold : ∀ (calls : List LibraryCall) (s : Session), s.Sound →
      ∃ s', calls.foldlM call s = .ok s' ∧ s'.Sound := by
    intro calls
    induction calls with
    | nil => exact fun s h => ⟨s, rfl, h⟩
    | cons first rest ih =>
      intro s h
      obtain ⟨s₁, hfirst, h₁⟩ := h.call first
      rw [List.foldlM_cons, hfirst]
      exact ih s₁ h₁
  exact hfold calls empty ⟨nofun, nofun⟩

end Session

end JsonTyping
