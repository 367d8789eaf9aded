import JsonTyping.Proofs.FilledTables

/-!
# Tables after any calls

A `Recorder.History` is what a recorder has been through: calls of every kind, in any order, also
such as end in a refusal. Whatever the calls were, the table is filled, so it is well-formed, and a
value that was handed out reads as it did then (`Recorder.History.tables_wellFormed`).
-/

namespace JsonTyping

namespace Recorder

variable {r r' : Recorder} {stream : List Event}

/-- What is open is the end of the stream, and the rest of it has filled the table. -/
structure Intact (r : Recorder) (stream : List Event) : Prop where
  filled : r.table.Filled stream
  follows : ∃ a, r.Follows a ∧ a.taken <:+ stream

theorem Follows.array_events {a : Json.Assembly} (hf : r.Follows a) {hs : List Handle}
    {outer : List OpenRow} (hopen : r.enclosing = .array hs :: outer) :
    ∃ items, List.Forall₂ (r.table.Keeps false) hs.reverse items ∧
      (Json.array items).events <:+ a.taken ++ [.endArray] := by
  obtain ⟨table, enclosing, root⟩ := r
  obtain ⟨opened, result⟩ := a
  obtain rfl : enclosing = .array hs :: outer := hopen
  cases hf.enclosing with
  | @cons row p outer opened hrow hrest =>
    cases p with
    | object members name => exact hrow.elim
    | array items =>
      refine ⟨items.reverse, List.forall₂_reverse_iff.2 hrow.1, ?_⟩
      rw [Json.Assembly.taken_cons, List.append_assoc]
      exact List.suffix_append _ _

theorem Follows.object_events {a : Json.Assembly} (hf : r.Follows a) {hs : List (Nat × Handle)}
    {outer : List OpenRow} (hopen : r.enclosing = .object hs none :: outer) :
    ∃ members, List.Forall₂ r.table.KeepsMember hs.reverse members ∧
      (Json.object members).events <:+ a.taken ++ [.endObject] := by
  obtain ⟨table, enclosing, root⟩ := r
  obtain ⟨opened, result⟩ := a
  obtain rfl : enclosing = .object hs none :: outer := hopen
  cases hf.enclosing with
  | @cons row p outer opened hrow hrest =>
    cases p with
    | array items => exact hrow.elim
    | object members name =>
      obtain ⟨hmembers, -, hkey⟩ := hrow
      cases hkey with
      | none =>
        refine ⟨members.reverse, List.forall₂_reverse_iff.2 hmembers, ?_⟩
        rw [Json.Assembly.taken_cons, List.append_assoc, Json.Partial.taken, Option.toList_none,
          List.map_nil, List.append_nil]
        exact List.suffix_append _ _

/-- An event leaves the rows as they are, or ends a container, which gets a row. -/
theorem Intact.feed (hi : r.Intact stream) {e : Event} (hfeed : r.feed e = .ok r') :
    r'.Intact (stream ++ [e]) := by
  obtain ⟨a, hf, htaken⟩ := hi.follows
  have hends : a.taken ++ [e] <:+ stream ++ [e] := by
    obtain ⟨before, rfl⟩ := htaken
    exact ⟨before, (List.append_assoc ..).symm⟩
  have hfollows : ∃ a', r'.Follows a' ∧ a'.taken <:+ stream ++ [e] := by
    obtain ⟨a', ha, -, hf'⟩ := (hf.feed e).of_ok hfeed
    exact ⟨a', hf', Json.Assembly.taken_feed ha ▸ hends⟩
  refine ⟨?_, hfollows⟩
  have hsame := hi.filled.more [e]
  obtain ⟨r₁, made, hmake, hmade⟩ := feedWith_eq_ok hfeed
  have hfilled : r₁.table.Filled (stream ++ [e]) := by
    cases makes_of_make hmake with
    | null | bool _ | integer _ | double _ | beginArray | beginObject => exact hsame
    | text s => exact hsame.addText r.expectsTarget s
    | key name _ => exact hsame.intern name
    | array hopen =>
      obtain ⟨items, hkeeps, hevents⟩ := hf.array_events hopen
      exact hsame.addArray hkeeps (hevents.trans hends).isInfix
    | object hopen =>
      obtain ⟨members, hkeeps, hevents⟩ := hf.object_events hopen
      exact hsame.addObject hkeeps (hevents.trans hends).isInfix
  rcases hmade with ⟨-, rfl⟩ | ⟨h, -, hput⟩
  · exact hfilled
  · rwa [table_put hput]

theorem Intact.feedAll (hi : r.Intact stream) {events : List Event}
    (hrun : events.foldlM Recorder.feed r = .ok r') : r'.Intact (stream ++ events) := by
  induction events generalizing r stream with
  | nil =>
    cases hrun
    rwa [List.append_nil]
  | cons e rest ih =>
    obtain ⟨r₁, hfirst, hrest⟩ := foldlM_cons_eq_ok.1 hrun
    have hrest := ih (hi.feed hfirst) hrest
    rwa [List.append_assoc, List.singleton_append] at hrest

theorem Intact.extends (hi : r.Intact stream) {events : List Event}
    (hrun : events.foldlM Recorder.feed r = .ok r') : r.table.Extends r'.table := by
  obtain ⟨a, hf, -⟩ := hi.follows
  obtain ⟨-, -, ext, -⟩ := (hf.feedAll events).of_ok hrun
  exact ext

/-- Whatever was open may be given up. -/
theorem Intact.idle (hi : r.Intact stream) (hidle : r'.Idle) (htable : r'.table = r.table) :
    r'.Intact stream :=
  ⟨htable ▸ hi.filled, .start, hidle.follows, List.nil_suffix⟩

theorem Intact.intern (hi : r.Intact stream) (s : String) : (r.intern s).1.Intact stream := by
  obtain ⟨a, hf, htaken⟩ := hi.follows
  exact ⟨hi.filled.intern s, a, hf.mono (r.table.intern_spec s).1, htaken⟩

/-- A value that is given was given before, as the last thing in the stream. -/
theorem Intact.finish (hi : r.Intact stream) {root : Handle}
    (hfinish : r.finish = .ok (r', root)) :
    r'.Intact stream ∧ r'.table = r.table ∧
      ∃ v : Json, v.events <:+: stream ∧ r'.table.Keeps false root v := by
  obtain ⟨⟨opened, result⟩, hf, htaken⟩ := hi.follows
  obtain ⟨henclosing, v, hresult⟩ := hf.of_finish hfinish
  obtain ⟨r₁, h, hok, htable, hidle, hkeeps, -⟩ := hf.finish henclosing hresult
  cases hfinish.symm.trans hok
  refine ⟨hi.idle hidle htable, htable, v, ?_, htable ▸ hkeeps⟩
  obtain rfl : opened = [] := henclosing
  obtain rfl : result = some v := hresult
  simpa [Json.Assembly.taken] using htaken.isInfix

end Recorder

/-! ### Calls -/

namespace Recorder

/-- What can be asked of a recorder. -/
inductive Call where
  | intern (s : String)
  | event (e : Event)
  | finish
  | addText (text : String)
  | addDocument (document : Json)

/-- A recorder, the events that it was given so far, in order, and the values that it gave, the
latest first, each with the table as it was then. -/
structure History where
  recorder : Recorder
  stream : List Event
  given : List (Handle × Table)

namespace History

def start (settings : Settings) : History := ⟨.empty settings, [], []⟩

/-- One call. A text that is refused ends nothing; only a misuse does. -/
def call (h : History) : Call → Except Misuse History
  | .intern s => .ok { h with recorder := (h.recorder.intern s).1 }
  | .event e => do
    let r ← h.recorder.feed e
    return { h with recorder := r, stream := h.stream ++ [e] }
  | .finish => do
    let (r, root) ← h.recorder.finish
    return { h with recorder := r, given := (root, r.table) :: h.given }
  | .addText text => do
    let (r, result) ← h.recorder.addText text
    let stream := h.stream ++ (Json.readEvents text.toUTF8.toList).events.map (·.event)
    match result with
    | .ok root => return ⟨r, stream, (root, r.table) :: h.given⟩
    | .error _ => return ⟨r, stream, h.given⟩
  | .addDocument document => do
    let (r, root) ← h.recorder.addDocument document
    return ⟨r, h.stream ++ document.events, (root, r.table) :: h.given⟩

/-- The recorder is intact, and the values that were given are kept in the tables of then. -/
structure Intact (h : History) : Prop where
  recorder : h.recorder.Intact h.stream
  given : ∀ g ∈ h.given, g.2.Extends h.recorder.table ∧
    ∃ v : Json, v.events <:+: h.stream ∧ g.2.Keeps false g.1 v

variable {h h' : History}

theorem Intact.replace (hi : h.Intact) {r : Recorder} (hr : r.Intact h.stream)
    (ext : h.recorder.table.Extends r.table) : Intact { h with recorder := r } where
  recorder := hr
  given g hg := by
    obtain ⟨hext, v, hevents, hkeeps⟩ := hi.given g hg
    exact ⟨hext.trans ext, v, hevents, hkeeps⟩

theorem Intact.feedAll (hi : h.Intact) {events : List Event} {r : Recorder}
    (hrun : events.foldlM feed h.recorder = .ok r) :
    Intact ⟨r, h.stream ++ events, h.given⟩ where
  recorder := hi.recorder.feedAll hrun
  given g hg := by
    obtain ⟨hext, v, hevents, hkeeps⟩ := hi.given g hg
    exact ⟨hext.trans (hi.recorder.extends hrun), v, List.infix_append_of_infix_left hevents,
      hkeeps⟩

/-- One value more is given. -/
theorem Intact.give (hi : h.Intact) {root : Handle} {v : Json} (hevents : v.events <:+: h.stream)
    (hkeeps : h.recorder.table.Keeps false root v) :
    Intact { h with given := (root, h.recorder.table) :: h.given } where
  recorder := hi.recorder
  given := List.forall_mem_cons.2 ⟨⟨.refl _, v, hevents, hkeeps⟩, hi.given⟩

theorem Intact.finish (hi : h.Intact) {r : Recorder} {root : Handle}
    (hfinish : h.recorder.finish = .ok (r, root)) :
    Intact ⟨r, h.stream, (root, r.table) :: h.given⟩ := by
  obtain ⟨hr, htable, v, hevents, hkeeps⟩ := hi.recorder.finish hfinish
  have ext : h.recorder.table.Extends r.table := by
    rw [htable]
    exact .refl _
  exact (hi.replace hr ext).give hevents hkeeps

theorem Intact.call (hi : h.Intact) {c : Call} (hcall : h.call c = .ok h') : h'.Intact := by
  cases c with
  | intern s =>
    cases hcall
    exact hi.replace (hi.recorder.intern s) (h.recorder.table.intern_spec s).1
  | event e =>
    obtain ⟨r, hfeed, hok⟩ := bind_eq_ok.1 hcall
    cases hok
    have hrun : [e].foldlM feed h.recorder = .ok r := by
      rw [List.foldlM_cons, hfeed]
      rfl
    exact hi.feedAll hrun
  | finish =>
    obtain ⟨⟨r, root⟩, hfinish, hok⟩ := bind_eq_ok.1 hcall
    cases hok
    exact hi.finish hfinish
  | addDocument document =>
    obtain ⟨⟨r, root⟩, hadd, hok⟩ := bind_eq_ok.1 hcall
    cases hok
    obtain ⟨r₁, hrun, hfinish⟩ := bind_eq_ok.1 hadd
    exact (hi.feedAll hrun).finish hfinish
  | addText text =>
    obtain ⟨⟨r, result⟩, hadd, hok⟩ := bind_eq_ok.1 hcall
    obtain ⟨r₁, hrun, hrest⟩ := bind_eq_ok.1 hadd
    have hfed := hi.feedAll hrun
    split at hrest
    · cases hrest
      cases hok
      exact hfed.replace (hfed.recorder.idle ⟨rfl, rfl⟩ rfl) (.refl _)
    · obtain ⟨⟨r₂, root⟩, hfinish, hrest⟩ := bind_eq_ok.1 hrest
      cases hrest
      cases hok
      exact hfed.finish hfinish

theorem intact_start (settings : Settings) : (start settings).Intact where
  recorder :=
    ⟨⟨nofun, nofun, List.nodup_nil⟩, .start, Idle.follows ⟨rfl, rfl⟩, List.nil_suffix⟩
  given := nofun

theorem Intact.run (hi : h.Intact) {calls : List Call}
    (hrun : calls.foldlM History.call h = .ok h') :
    h'.Intact := by
  induction calls generalizing h with
  | nil =>
    cases hrun
    exact hi
  | cons c rest ih =>
    obtain ⟨h₁, hfirst, hrest⟩ := foldlM_cons_eq_ok.1 hrun
    exact ih (hi.call hfirst) hrest

end History

end Recorder

/-- The handle was given with the table `before` for a value in the stream, and it reads as it did
then: as what is kept of this value. -/
structure Table.StillReads (t before : Table) (stream : List Event) (h : Handle) : Prop where
  has : t.Has h
  extends_before : before.Extends t
  reads : ∃ v : Json, v.events <:+: stream ∧ t.ShowsFormat h v ∧
    ∀ k, (before.ReadsAs h k ↔ k = v.kept t.settings false) ∧
      (t.ReadsAs h k ↔ k = v.kept t.settings false)

namespace Recorder.History

/-- Whatever the calls were, the table is well-formed, and every value that was given reads as it
did then. -/
theorem tables_wellFormed {settings : Settings} {calls : List Call} {h : History}
    (hrun : calls.foldlM call (start settings) = .ok h) :
    h.recorder.table.WellFormed h.stream ∧
      ∀ g ∈ h.given, h.recorder.table.StillReads g.2 h.stream g.1 := by
  have hi := (intact_start settings).run hrun
  refine ⟨hi.recorder.filled.wellFormed, fun g hg => ?_⟩
  obtain ⟨ext, v, hevents, hkeeps⟩ := hi.given g hg
  have hnow := hkeeps.mono ext
  refine ⟨hnow.has, ext, v, hevents, hnow.showsFormat, fun k => ⟨?_, Table.readsAs_iff v hnow k⟩⟩
  rw [ext.settings]
  exact Table.readsAs_iff v hkeeps k

/-- A document driven by events, with a text noted in between, a text that breaks off behind an
object, and a document. -/
def interrupted : List Call :=
  [.event .beginArray, .event (.string "2024-01-31"), .intern "b", .event .endArray, .finish,
    .addText "[\x7b\"a\":\"12:30:00Z\"\x7d,", .addDocument (.object [("b", .string "12:30:00Z")])]

/-- The row of the object before the break stays, and both documents read as they did. -/
theorem tables_wellFormed_refused :
    ∃ h, interrupted.foldlM call (start {}) = .ok h ∧ h.given.map (·.1) = [.object 1, .array 0] ∧
      h.recorder.table.WellFormed h.stream ∧
      ∀ g ∈ h.given, h.recorder.table.StillReads g.2 h.stream g.1 := by
  have hgiven : (interrupted.foldlM call (start {})).map (fun h => h.given.map (·.1)) =
      .ok [.object 1, .array 0] := by
    decide +kernel
  cases hrun : interrupted.foldlM call (start {}) with
  | error cause =>
    rw [hrun] at hgiven
    cases hgiven
  | ok h =>
    rw [hrun] at hgiven
    exact ⟨h, rfl, Except.ok.inj hgiven, tables_wellFormed hrun⟩

end Recorder.History

end JsonTyping
