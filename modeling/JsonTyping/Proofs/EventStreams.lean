import JsonTyping.Proofs.ReadingStreams
import JsonTyping.Proofs.Recording

/-!
# Event streams of values

An assembly has forgotten nothing: the events it was given can be read off it (`Assembly.taken`).
So the events of a value are the only stream that is assembled to this value
(`Json.ofEvents?_eq_some_iff`), and a text without a fault is read as the events of its value. A
recorder therefore takes a text as it takes the value of the text (`Recorder.addText_of_read`).
-/

namespace JsonTyping

namespace Json

theorem eventsOfItems_append (items rest : List Json) :
    eventsOfItems (items ++ rest) = eventsOfItems items ++ eventsOfItems rest := by
  induction items with
  | nil => rfl
  | cons v items ih => simp only [List.cons_append, eventsOfItems, ih, List.append_assoc]

theorem eventsOfMembers_append (members rest : List (String × Json)) :
    eventsOfMembers (members ++ rest) = eventsOfMembers members ++ eventsOfMembers rest := by
  induction members with
  | nil => rfl
  | cons m members ih => simp only [List.cons_append, eventsOfMembers, ih, List.append_assoc]

/-- The events that opened a container and filled it so far. -/
def Partial.taken : Partial → List Event
  | .array items => .beginArray :: eventsOfItems items.reverse
  | .object members key =>
    .beginObject :: (eventsOfMembers members.reverse ++ key.toList.map Event.key)

namespace Assembly

/-- The events that were given so far. -/
def taken (a : Assembly) : List Event :=
  a.result.toList.flatMap events ++ a.enclosing.reverse.flatMap Partial.taken

theorem taken_cons (p : Partial) (outer : List Partial) (result : Option Json) :
    taken ⟨p :: outer, result⟩ = taken ⟨outer, result⟩ ++ p.taken := by
  simp only [taken, List.reverse_cons, List.flatMap_append, List.flatMap_singleton,
    List.append_assoc]

theorem taken_put {a a' : Assembly} {v : Json} (h : a.put v = some a') :
    a'.taken = a.taken ++ v.events := by
  obtain ⟨enclosing, result⟩ := a
  rcases enclosing with _ | ⟨items | ⟨members, _ | key⟩, outer⟩
  · cases result with
    | none =>
      cases h
      simp only [taken, Option.toList_some, Option.toList_none, List.flatMap_singleton,
        List.reverse_nil, List.flatMap_nil, List.append_nil, List.nil_append]
    | some w => cases h
  · cases h
    simp only [taken_cons, Partial.taken, List.reverse_cons, eventsOfItems_append, eventsOfItems,
      List.append_nil, List.append_assoc, List.cons_append]
  · cases h
  · cases h
    simp only [taken_cons, Partial.taken, List.reverse_cons, eventsOfMembers_append,
      eventsOfMembers, Option.toList_some, Option.toList_none, List.map_cons, List.map_nil,
      List.append_nil, List.append_assoc, List.cons_append, List.nil_append]

theorem taken_feed {a a' : Assembly} {e : Event} (h : a.feed e = some a') :
    a'.taken = a.taken ++ [e] := by
  obtain ⟨enclosing, result⟩ := a
  cases e with
  | null => exact taken_put h
  | bool b => exact taken_put h
  | number n => exact taken_put h
  | string s => exact taken_put h
  | beginArray =>
    cases h
    exact taken_cons (.array []) enclosing result
  | beginObject =>
    cases h
    exact taken_cons (.object [] none) enclosing result
  | key k =>
    rcases enclosing with _ | ⟨items | ⟨members, _ | key⟩, outer⟩
    · cases h
    · cases h
    · cases h
      simp only [taken_cons, Partial.taken, Option.toList_some, Option.toList_none, List.map_cons,
        List.map_nil, List.append_nil, List.append_assoc, List.cons_append]
    · cases h
  | endArray =>
    rcases enclosing with _ | ⟨items | ⟨members, _ | key⟩, outer⟩
    · cases h
    · have hput := taken_put (a := ⟨outer, result⟩) h
      simp only [hput, taken_cons, Partial.taken, events, List.append_assoc, List.cons_append]
    · cases h
    · cases h
  | endObject =>
    rcases enclosing with _ | ⟨items | ⟨members, _ | key⟩, outer⟩
    · cases h
    · cases h
    · have hput := taken_put (a := ⟨outer, result⟩) h
      simp only [hput, taken_cons, Partial.taken, events, Option.toList_none, List.map_nil,
        List.append_nil, List.append_assoc, List.cons_append]
    · cases h

theorem taken_foldlM (stream : List Event) {a a' : Assembly}
    (h : stream.foldlM feed a = some a') : a'.taken = a.taken ++ stream := by
  induction stream generalizing a with
  | nil =>
    cases h
    exact (List.append_nil _).symm
  | cons e rest ih =>
    obtain ⟨a₁, he, hrest⟩ := Option.bind_eq_some_iff.1 ((List.foldlM_cons ..).symm.trans h)
    rw [ih hrest, taken_feed he, List.append_assoc, List.singleton_append]

end Assembly

/-- A value is assembled from its events and from no other stream. -/
theorem ofEvents?_eq_some_iff {stream : List Event} {v : Json} :
    ofEvents? stream = some v ↔ stream = v.events := by
  constructor
  · intro h
    obtain ⟨⟨enclosing, result⟩, hrun, hresult⟩ := Option.bind_eq_some_iff.1 h
    have htaken := Assembly.taken_foldlM stream hrun
    cases enclosing with
    | nil =>
      -- Nothing is open, so what was taken are the events of the result.
      obtain rfl : result = some v := hresult
      simpa only [Assembly.taken, Assembly.start, Option.toList_some, Option.toList_none,
        List.flatMap_singleton, List.flatMap_nil, List.reverse_nil, List.append_nil,
        List.nil_append] using htaken.symm
    | cons p outer => cases hresult
  · rintro rfl
    have hrun : v.events.foldlM Assembly.feed .start = some ⟨[], some v⟩ := foldlM_events .start v
    rw [ofEvents?, hrun]
    rfl

theorem eq_of_events {v w : Json} (h : v.events = w.events) : v = w := by
  have hread := ofEvents?_eq_some_iff.2 (Eq.refl v.events)
  exact Option.some.inj (hread.symm.trans (ofEvents?_eq_some_iff.2 h))

theorem read_eq_ok_iff {text : String} {v : Json} :
    read text = .ok v ↔ (readEvents text.toUTF8.toList).fault = none ∧
      (readEvents text.toUTF8.toList).events.map (·.event) = v.events := by
  rw [← ofEvents?_eq_some_iff]
  simp only [read, readBytes]
  constructor
  · intro h
    split at h
    · cases h
    · next hfault hvalue =>
      cases h
      exact ⟨hfault, hvalue⟩
    · cases h
  · rintro ⟨hfault, hvalue⟩
    rw [hfault, hvalue]

theorem fault_of_read {text : String} {e : ReadError} (h : read text = .error e) :
    ∃ fault, (readEvents text.toUTF8.toList).fault = some fault ∧
      e = ⟨text.toUTF8.toList, fault⟩ := by
  rcases readBytes_cases text.toUTF8.toList with ⟨v, hv, -⟩ | ⟨fault, herror, hfault⟩
  · cases h.symm.trans hv
  · exact ⟨fault, hfault, Except.error.inj (h.symm.trans herror)⟩

end Json

namespace Recorder

/-- A text is recorded as its value is. -/
theorem addText_of_read (r : Recorder) {text : String} {v : Json} (h : Json.read text = .ok v) :
    r.addText text = (r.addDocument v).map fun p => (p.1, .ok p.2) := by
  obtain ⟨hfault, hevents⟩ := Json.read_eq_ok_iff.1 h
  simp only [addText, addDocument, hevents, hfault]
  cases v.events.foldlM feed r with
  | error cause => rfl
  | ok r₁ =>
    simp only [ok_bind]
    cases r₁.finish <;> rfl

/-- A text that is not JSON is refused for its fault, and nothing stays open. -/
theorem Idle.addText_of_fault {r : Recorder} (hidle : r.Idle) {text : String} {e : Json.ReadError}
    (h : Json.read text = .error e) : ∃ r', r.addText text = .ok (r', .error e) ∧ r'.Idle := by
  obtain ⟨fault, hfault, rfl⟩ := Json.fault_of_read h
  obtain ⟨a, hassembled, -⟩ := Json.readEvents_wellFormed text.toUTF8.toList
  -- The events in front of a fault are those of an unfinished text, so none of them is misplaced.
  obtain ⟨r₁, hr, -⟩ := (hidle.follows.feedAll _).of_some hassembled
  refine ⟨r₁.abandon, ?_, rfl, rfl⟩
  simp only [Recorder.addText, hr, hfault]
  rfl

end Recorder

end JsonTyping
