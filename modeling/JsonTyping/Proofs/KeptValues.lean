import JsonTyping.Proofs.EventStreams
import JsonTyping.Proofs.PlainEvidence
import JsonTyping.Proofs.RepeatedKeys

/-!
# What is kept of a value

`Json.kept` says what a recorder keeps of a value, and `Table.ReadsAs` what is read back from a
table for a handle. A handle that stands for a value reads as what is kept of it, and as nothing
else (`Table.readsAs_iff`). So an idle recorder whose indices have no limit takes the event streams
of values and no other streams, and gives them back as far as it keeps them
(`Recorder.takes_iff_events`).
-/

namespace JsonTyping

/-- What may be kept of a value: the kind of a scalar, the text or the format of a string, and all
of what a container holds, in order and with repeated keys. -/
inductive Kept where
  | null
  | bool (value : Bool)
  | integer
  | double
  | text (value : String)
  | dropped
  /-- A text of which only the format was kept. -/
  | format (f : Format)
  /-- A text that was kept for the attributes of its format. -/
  | traits (f : Format) (value : String)
  | array (items : List Kept)
  | object (members : List (String × Kept))

/-- What is kept of a text: the target of a reference itself; of another text the format, or what
carries its attributes; of a text without format the text if it is not too long. -/
def Settings.keptText (settings : Settings) (isTarget : Bool) (s : String) : Kept :=
  if isTarget then .text s
  else
    match settings.formatOf s with
    | some f => if f.hasTraits then .traits f s else .format f
    | none => if Text.units16 s ≤ settings.internMaxLen then .text s else .dropped

namespace Json

mutual

def kept (settings : Settings) (isTarget : Bool) : Json → Kept
  | .null => .null
  | .bool b => .bool b
  | .number (.integer _) => .integer
  | .number (.double _) => .double
  | .string s => settings.keptText isTarget s
  | .array items => .array (keptItems settings items)
  | .object members => .object (keptMembers settings members)

def keptItems (settings : Settings) : List Json → List Kept
  | [] => []
  | v :: rest => v.kept settings false :: keptItems settings rest

def keptMembers (settings : Settings) : List (String × Json) → List (String × Kept)
  | [] => []
  | (k, v) :: rest =>
    (k, v.kept settings (settings.handleRefs && k == "$ref")) :: keptMembers settings rest

end

def keptMember (settings : Settings) (m : String × Json) : String × Kept :=
  (m.1, m.2.kept settings (settings.handleRefs && m.1 == "$ref"))

theorem keptItems_eq (settings : Settings) (items : List Json) :
    keptItems settings items = items.map (kept settings false) := by
  induction items with
  | nil => rfl
  | cons v rest ih => rw [keptItems, ih, List.map_cons]

theorem keptMembers_eq (settings : Settings) (members : List (String × Json)) :
    keptMembers settings members = members.map (keptMember settings) := by
  induction members with
  | nil => rfl
  | cons m rest ih =>
    obtain ⟨k, v⟩ := m
    rw [keptMembers, ih, List.map_cons, keptMember]

end Json

namespace Table

/-- What is read back for a handle: its kind, the text and the format behind it, the items and the
members, and in turn what is read for these. -/
inductive ReadsAs (t : Table) : Handle → Kept → Prop
  | null : ReadsAs t .null .null
  | bool (b : Bool) : ReadsAs t (.bool b) (.bool b)
  | integer : ReadsAs t .integer .integer
  | double : ReadsAs t .double .double
  | dropped : ReadsAs t .dropped .dropped
  | text {i : Nat} {s : String} (hs : t.keptText (.text i) = .ok s) : ReadsAs t (.text i) (.text s)
  | format {i : Nat} {f : Format} (hf : t.format? (.format i) = some f) :
    ReadsAs t (.format i) (.format f)
  | traits {i : Nat} {f : Format} {s : String} (hf : t.format? (.traits i) = some f)
    (hs : t.keptText (.traits i) = .ok s) : ReadsAs t (.traits i) (.traits f s)
  | array {row : Nat} {hs : List Handle} {items : List Kept}
    (hrow : t.arrayItems (.array row) = .ok hs) (hitems : List.Forall₂ (ReadsAs t) hs items) :
    ReadsAs t (.array row) (.array items)
  | object {row : Nat} {ms : List (String × Handle)} {members : List (String × Kept)}
    (hrow : t.objectMembers (.object row) = .ok ms) (hkeys : ms.map (·.1) = members.map (·.1))
    (hvalues : List.Forall₂ (ReadsAs t) (ms.map (·.2)) (members.map (·.2))) :
    ReadsAs t (.object row) (.object members)

variable {t : Table} {i : Nat} {s : String}

theorem readsAs_iff_of_unique {h : Handle} {k' : Kept} (hread : t.ReadsAs h k')
    (hunique : ∀ k, t.ReadsAs h k → k = k') (k : Kept) : t.ReadsAs h k ↔ k = k' :=
  ⟨hunique k, fun hk => hk ▸ hread⟩

theorem readsAs_text (hi : t.strings[i]? = some s) (k : Kept) :
    t.ReadsAs (.text i) k ↔ k = .text s := by
  have hread : t.keptText (.text i) = .ok s := congrArg Except.ok (string_of_get hi)
  refine readsAs_iff_of_unique (.text hread) (fun k hk => ?_) k
  cases hk with
  | text hs =>
    cases hread.symm.trans hs
    rfl

theorem readsAs_format {f : Format} (hi : t.strings[i]? = some f.name) (k : Kept) :
    t.ReadsAs (.format i) k ↔ k = .format f := by
  have hfound : t.format? (.format i) = some f := by
    rw [format?, string_of_get hi, Format.ofName?_name]
  refine readsAs_iff_of_unique (.format hfound) (fun k hk => ?_) k
  cases hk with
  | format hf =>
    cases hfound.symm.trans hf
    rfl

theorem readsAs_traits {f : Format} (hi : t.strings[i]? = some s)
    (hf : Format.recognize s = some f) (k : Kept) :
    t.ReadsAs (.traits i) k ↔ k = .traits f s := by
  have hfound : t.format? (.traits i) = some f := by rw [format?, string_of_get hi, hf]
  have hread : t.keptText (.traits i) = .ok s := congrArg Except.ok (string_of_get hi)
  refine readsAs_iff_of_unique (.traits hfound hread) (fun k hk => ?_) k
  cases hk with
  | traits hf' hs =>
    cases hfound.symm.trans hf'
    cases hread.symm.trans hs
    rfl

theorem readsAs_array {row : Nat} {hs : List Handle} (hrow : t.arrays[row]? = some hs) (k : Kept) :
    t.ReadsAs (.array row) k ↔ ∃ items, k = .array items ∧ List.Forall₂ t.ReadsAs hs items := by
  have hread : t.arrayItems (.array row) = .ok hs := by
    rw [arrayItems, Table.items, hrow, Option.getD_some]
  constructor
  · intro h
    cases h with
    | array hrow' hitems =>
      cases hread.symm.trans hrow'
      exact ⟨_, rfl, hitems⟩
  · rintro ⟨items, rfl, hitems⟩
    exact .array hread hitems

theorem readsAs_object {row : Nat} {hs : List (Nat × Handle)} (hrow : t.objects[row]? = some hs)
    (k : Kept) :
    t.ReadsAs (.object row) k ↔ ∃ members, k = .object members ∧
      hs.map (fun m => t.string m.1) = members.map (·.1) ∧
        List.Forall₂ t.ReadsAs (hs.map (·.2)) (members.map (·.2)) := by
  have hread : t.objectMembers (.object row) =
      .ok (hs.map fun m => (t.string m.1, m.2)) := by
    rw [objectMembers, Table.members, hrow, Option.getD_some]
  constructor
  · intro h
    cases h with
    | object hrow' hkeys hvalues =>
      cases hread.symm.trans hrow'
      rw [List.map_map] at hkeys hvalues
      exact ⟨_, rfl, hkeys, hvalues⟩
  · rintro ⟨members, rfl, hkeys, hvalues⟩
    refine .object hread ?_ ?_
    · rwa [List.map_map]
    · rwa [List.map_map]

/-- A handle that stands for a text reads as what is kept of the text. -/
theorem readsAs_of_keepsText {isTarget : Bool} {h : Handle} (hs : t.KeepsText isTarget h s)
    (k : Kept) : t.ReadsAs h k ↔ k = t.settings.keptText isTarget s := by
  have hformat : t.recognize s = t.settings.formatOf s := rfl
  unfold KeepsText at hs
  unfold Settings.keptText
  rw [hformat] at hs
  split at hs
  · next htarget =>
    obtain ⟨i, rfl, hi⟩ := hs
    rw [if_pos htarget]
    exact readsAs_text hi k
  · next htarget =>
    rw [if_neg htarget]
    cases hf : t.settings.formatOf s with
    | some f =>
      simp only [hf] at hs ⊢
      split at hs
      · next htraits =>
        obtain ⟨i, rfl, hi⟩ := hs
        rw [if_pos htraits]
        exact readsAs_traits hi (Format.recognize_of_formatOf hf) k
      · next htraits =>
        obtain ⟨i, rfl, hi⟩ := hs
        rw [if_neg htraits]
        exact readsAs_format hi k
    | none =>
      simp only [hf, Text.fitsUnits16_eq, decide_eq_true_iff] at hs ⊢
      split at hs
      · next hfits =>
        obtain ⟨i, rfl, hi⟩ := hs
        rw [if_pos hfits]
        exact readsAs_text hi k
      · next hfits =>
        subst hs
        rw [if_neg hfits]
        exact readsAs_iff_of_unique .dropped (fun k hk => by cases hk; rfl) k

/-- A handle that stands for a value reads as what is kept of the value, and as nothing else. -/
theorem readsAs_iff (v : Json) {isTarget : Bool} {h : Handle} (hv : t.Keeps isTarget h v)
    (k : Kept) : t.ReadsAs h k ↔ k = v.kept t.settings isTarget := by
  induction v using Json.inductionOn generalizing isTarget h k with
  | null =>
    simp only [Keeps] at hv
    subst hv
    exact readsAs_iff_of_unique .null (fun k hk => by cases hk; rfl) k
  | bool b =>
    simp only [Keeps] at hv
    subst hv
    exact readsAs_iff_of_unique (.bool b) (fun k hk => by cases hk; rfl) k
  | number n =>
    cases n with
    | integer m =>
      simp only [Keeps] at hv
      subst hv
      exact readsAs_iff_of_unique .integer (fun k hk => by cases hk; rfl) k
    | double x =>
      simp only [Keeps] at hv
      subst hv
      exact readsAs_iff_of_unique .double (fun k hk => by cases hk; rfl) k
  | string s =>
    simp only [Keeps] at hv
    rw [Json.kept]
    exact readsAs_of_keepsText hv k
  | array items ih =>
    simp only [Keeps] at hv
    obtain ⟨row, hs, rfl, hrow, hitems⟩ := hv
    have hreads : ∀ ks, List.Forall₂ t.ReadsAs hs ks ↔ ks = items.map (·.kept t.settings false) :=
      forall₂_iff_eq_map (keepsItems_iff.1 hitems) fun h v hv hkeeps k => ih v hv hkeeps k
    rw [readsAs_array hrow, Json.kept, Json.keptItems_eq]
    simp only [hreads, exists_eq_right]
  | object members ih =>
    simp only [Keeps] at hv
    obtain ⟨row, hs, rfl, hrow, hmembers⟩ := hv
    have hpairs := keepsMembers_iff.1 hmembers
    have hkeys : hs.map (fun m => t.string m.1) = members.map (·.1) :=
      List.forall₂_eq_eq_eq ▸ List.forall₂_map_left_iff.2 (List.forall₂_map_right_iff.2
        (hpairs.imp fun m n hm => string_of_get hm.1))
    have hvalues : ∀ ks, List.Forall₂ t.ReadsAs (hs.map (·.2)) ks ↔
        ks = members.map fun m => (Json.keptMember t.settings m).2 :=
      forall₂_iff_eq_map (S := fun h m => t.Keeps (t.settings.handleRefs && m.1 == "$ref") h m.2)
        (List.forall₂_map_left_iff.2 (hpairs.imp fun m n hm => hm.2))
        fun h m hm hkeeps k => ih m hm hkeeps k
    rw [readsAs_object hrow, Json.kept, Json.keptMembers_eq, hkeys]
    simp only [hvalues]
    constructor
    · rintro ⟨kept, rfl, hfst, hsnd⟩
      rw [List.zip_of_prod hfst.symm hsnd, List.zip_of_prod (List.map_map ..) (List.map_map ..)]
      rfl
    · rintro rfl
      refine ⟨_, rfl, ?_, ?_⟩
      · rw [List.map_map]
        rfl
      · rw [List.map_map]
        rfl

/-- How many entries a table has: texts, objects and arrays. -/
def entries (t : Table) : Nat := t.strings.size + t.rows

theorem entries_intern_le (t : Table) (s : String) : (t.intern s).1.entries ≤ t.entries + 1 := by
  unfold intern
  split
  · exact Nat.le_succ _
  · simp only [entries, rows, Array.size_push]
    omega

theorem entries_addText_le (t : Table) (isTarget : Bool) (s : String) :
    (t.addText isTarget s).1.entries ≤ t.entries + 1 := by
  unfold addText
  split
  · exact entries_intern_le t s
  · split
    · split
      · exact entries_intern_le t s
      · exact entries_intern_le t _
    · split
      · exact entries_intern_le t s
      · exact Nat.le_succ _

end Table

/-! ### Streams that are taken -/

namespace Recorder

variable {r r' : Recorder}

theorem table_put {h : Handle} (hput : r.put h = .ok r') : r'.table = r.table := by
  unfold put at hput
  split at hput
  · split at hput
    · cases hput
    · cases hput
      rfl
  · cases hput
  · cases hput
    rfl
  · cases hput
    rfl

theorem finish_eq_ok {h : Handle} (hfinish : r.finish = .ok (r', h)) :
    r.enclosing = [] ∧ r.root = some h ∧ r' = { r with root := none } := by
  unfold finish at hfinish
  split at hfinish
  · next hclosed =>
    split at hfinish
    · next hroot =>
      cases hfinish
      exact ⟨List.isEmpty_iff.1 hclosed, hroot, rfl⟩
    · cases hfinish
  · cases hfinish

/-- An event that is taken makes nothing, or a handle that is committed. -/
theorem feedWith_eq_ok {commit : Recorder → Handle → Except Misuse Recorder} {e : Event}
    (h : r.feedWith commit e = .ok r') : ∃ r₁ made, r.make e = .ok (r₁, made) ∧
      (made = none ∧ r₁ = r' ∨ ∃ h, made = some h ∧ commit r₁ h = .ok r') := by
  obtain ⟨⟨r₁, made⟩, hmake, hcommit⟩ := bind_eq_ok.1 h
  refine ⟨r₁, made, hmake, ?_⟩
  cases made with
  | none => exact .inl ⟨rfl, Except.ok.inj hcommit⟩
  | some h => exact .inr ⟨h, rfl, hcommit⟩

theorem setKey_eq_ok {name : String} (h : r.setKey name = .ok r') :
    ∃ members outer, r.enclosing = .object members none :: outer ∧
      r' = { r with
        table := (r.table.intern name).1
        enclosing := .object members (some (r.table.intern name).2) :: outer } := by
  unfold setKey at h
  dsimp only [intern] at h
  split at h
  · next members outer hopen => exact ⟨members, outer, hopen, (Except.ok.inj h).symm⟩
  · cases h
  · cases h

/-- What an event makes: a handle, for which the table may get an entry, an open container, or a
key. -/
inductive Makes (r : Recorder) : Event → Recorder → Option Handle → Prop
  | null : Makes r .null r (some .null)
  | bool (b : Bool) : Makes r (.bool b) r (some (.bool b))
  | integer (n : Int) : Makes r (.number (.integer n)) r (some .integer)
  | double (x : Double) : Makes r (.number (.double x)) r (some .double)
  | text (s : String) :
      Makes r (.string s) { r with table := (r.table.addText r.expectsTarget s).1 }
        (some (r.table.addText r.expectsTarget s).2)
  | beginArray : Makes r .beginArray { r with enclosing := .array [] :: r.enclosing } none
  | beginObject : Makes r .beginObject { r with enclosing := .object [] none :: r.enclosing } none
  | key (name : String) {members outer} (hopen : r.enclosing = .object members none :: outer) :
      Makes r (.key name) { r with
        table := (r.table.intern name).1
        enclosing := .object members (some (r.table.intern name).2) :: outer } none
  | array {items outer} (hopen : r.enclosing = .array items :: outer) :
      Makes r .endArray { r with
        table := (r.table.addArray items.reverse).1
        enclosing := outer } (some (r.table.addArray items.reverse).2)
  | object {members outer} (hopen : r.enclosing = .object members none :: outer) :
      Makes r .endObject { r with
        table := (r.table.addObject members.reverse).1
        enclosing := outer } (some (r.table.addObject members.reverse).2)

theorem makes_of_make {e : Event} {made : Option Handle} (h : r.make e = .ok (r', made)) :
    r.Makes e r' made := by
  unfold make at h
  cases e with
  | null =>
    cases h
    exact .null
  | bool b =>
    cases h
    exact .bool b
  | number n =>
    cases n with
    | integer n =>
      cases h
      exact .integer n
    | double x =>
      cases h
      exact .double x
  | string s =>
    cases h
    exact .text s
  | beginArray =>
    cases h
    exact .beginArray
  | beginObject =>
    cases h
    exact .beginObject
  | key name =>
    dsimp only at h
    cases hkey : r.setKey name with
    | error cause =>
      rw [hkey] at h
      cases h
    | ok r₁ =>
      rw [hkey] at h
      cases h
      obtain ⟨members, outer, hopen, rfl⟩ := setKey_eq_ok hkey
      exact .key name hopen
  | endArray =>
    dsimp only at h
    split at h
    · next items outer hopen =>
      cases h
      exact .array hopen
    · cases h
  | endObject =>
    dsimp only at h
    split at h
    · next members outer hopen =>
      cases h
      exact .object hopen
    · cases h
    · cases h

theorem Makes.entries_le {e : Event} {made : Option Handle} (h : r.Makes e r' made) :
    r'.table.entries ≤ r.table.entries + 1 := by
  cases h with
  | null | bool _ | integer _ | double _ | beginArray | beginObject => exact Nat.le_succ _
  | text s => exact Table.entries_addText_le r.table r.expectsTarget s
  | key name _ => exact Table.entries_intern_le r.table name
  | @array items _ _ =>
    have hrows := (r.table.addArray_spec items.reverse).2.1
    simp only [Table.entries, hrows]
    simp only [Table.addArray]
    omega
  | @object members _ _ =>
    have hrows := (r.table.addObject_spec members.reverse).2.1
    simp only [Table.entries, hrows]
    simp only [Table.addObject]
    omega

/-- An event adds at most one entry to the table. -/
theorem entries_feed_le {e : Event} (hfeed : r.feed e = .ok r') :
    r'.table.entries ≤ r.table.entries + 1 := by
  obtain ⟨r₁, made, hmake, ⟨-, rfl⟩ | ⟨h, -, hput⟩⟩ := feedWith_eq_ok hfeed
  · exact (makes_of_make hmake).entries_le
  · rw [table_put hput]
    exact (makes_of_make hmake).entries_le

theorem entries_foldlM_le {stream : List Event} (hrun : stream.foldlM feed r = .ok r') :
    r'.table.entries ≤ r.table.entries + stream.length := by
  induction stream generalizing r with
  | nil =>
    cases hrun
    exact Nat.le_refl _
  | cons e rest ih =>
    obtain ⟨r₁, hfirst, hrest⟩ := foldlM_cons_eq_ok.1 hrun
    have hle := entries_feed_le hfirst
    have hle' := ih hrest
    rw [List.length_cons]
    omega

/-- A stream that is taken without a limit. -/
def takeStream (r : Recorder) (stream : List Event) : Except Misuse (Recorder × Handle) :=
  r.takeWith put stream

/-- What an idle recorder takes to its end are the events of a value. -/
theorem Idle.exists_of_takeStream (hidle : r.Idle) {stream : List Event} {h : Handle}
    (hrun : r.takeStream stream = .ok (r', h)) : ∃ v : Json, stream = v.events := by
  obtain ⟨r₁, hfed, hfinish⟩ := bind_eq_ok.1 hrun
  obtain ⟨a, ha, -, hfollows⟩ := (hidle.follows.feedAll stream).of_ok hfed
  obtain ⟨hclosed, v, hresult⟩ := hfollows.of_finish hfinish
  refine ⟨v, Json.ofEvents?_eq_some_iff.1 ?_⟩
  rw [Json.ofEvents?, ha, Option.bind_eq_bind, Option.bind_some, hclosed, hresult]
  rfl

/-- Without a limit an idle recorder takes the events of exactly one value and no other streams:
whatever is out of place in a stream is noticed, at the latest at its end. After the events of a
value the recorder is idle again, has what it had, with at most one entry more for each event, and
the handle that it gives reads as what is kept of the value. -/
theorem takes_iff_events (hidle : r.Idle) (stream : List Event) :
    ((∃ r' h, r.takeStream stream = .ok (r', h)) ↔ ∃! v : Json, stream = v.events) ∧
    ∀ v : Json, stream = v.events → ∃ r' h, r.takeStream stream = .ok (r', h) ∧
      (∀ k, r'.table.ReadsAs h k ↔ k = v.kept r.table.settings false) ∧ r'.Idle ∧
      r.table.Extends r'.table ∧ r'.table.entries ≤ r.table.entries + stream.length := by
  have htaken : ∀ v : Json, stream = v.events → ∃ r' h, r.takeStream stream = .ok (r', h) ∧
      (∀ k, r'.table.ReadsAs h k ↔ k = v.kept r.table.settings false) ∧ r'.Idle ∧
      r.table.Extends r'.table ∧ r'.table.entries ≤ r.table.entries + stream.length := by
    rintro v rfl
    obtain ⟨r', h, hrun, hextends, hidle', hkeeps, -⟩ := hidle.addDocument v
    refine ⟨r', h, hrun, fun k => ?_, hidle', hextends, ?_⟩
    · rw [Table.readsAs_iff v hkeeps, hextends.settings]
    · obtain ⟨r₁, hfed, hfinish⟩ := bind_eq_ok.1 hrun
      have hle := entries_foldlM_le hfed
      obtain ⟨-, -, rfl⟩ := finish_eq_ok hfinish
      exact hle
  refine ⟨⟨?_, ?_⟩, htaken⟩
  · rintro ⟨r', h, hrun⟩
    obtain ⟨v, hv⟩ := hidle.exists_of_takeStream hrun
    exact ⟨v, hv, fun w hw => Json.eq_of_events (hw.symm.trans hv)⟩
  · rintro ⟨v, hv, -⟩
    obtain ⟨r', h, hrun, -⟩ := htaken v hv
    exact ⟨r', h, hrun⟩

end Recorder

end JsonTyping
