import JsonTyping.Proofs.KeptValues

/-!
# Limits of tables

A handle has room for an index of 28 bits, so a recorder that would make a larger one stops
(`Recorder.takeChecked`). It records a value as a recorder without a limit does if no index in what
that one records is above the limit, and else its tables overflow (`Recorder.Idle.takeWithin`). What
is taken are thus the streams of the values for which there is room, and there is room as long as
entries and events together are no more than there are indices (`Recorder.takeChecked_iff_events`).
-/

namespace JsonTyping

namespace Table

/-- No index above the limit stands in the rows that the second table has and the first has not. -/
structure AddsWithin (limit : Nat) (t t' : Table) : Prop where
  objects : ∀ row members, t.objects.size ≤ row → t'.objects[row]? = some members →
    ∀ m ∈ members, m.1 ≤ limit ∧ m.2.index ≤ limit
  arrays : ∀ row items, t.arrays.size ≤ row → t'.arrays[row]? = some items →
    ∀ h ∈ items, h.index ≤ limit

variable {limit : Nat} {t u u' : Table}

theorem AddsWithin.refl (limit : Nat) (t : Table) : AddsWithin limit t t where
  objects row members hrow h := by
    rw [Array.getElem?_eq_none hrow] at h
    cases h
  arrays row items hrow h := by
    rw [Array.getElem?_eq_none hrow] at h
    cases h

/-- Only the rows count. -/
theorem AddsWithin.congr (hobjects : u'.objects = u.objects) (harrays : u'.arrays = u.arrays) :
    AddsWithin limit t u' ↔ AddsWithin limit t u := by
  constructor
  · intro h
    exact ⟨hobjects ▸ h.objects, harrays ▸ h.arrays⟩
  · intro h
    exact ⟨hobjects ▸ h.objects, harrays ▸ h.arrays⟩

theorem forall_push_iff {α : Type} {a : Array α} {n : Nat} (hn : n ≤ a.size) {x : α}
    {P : α → Prop} : (∀ i y, n ≤ i → (a.push x)[i]? = some y → P y) ↔
      (∀ i y, n ≤ i → a[i]? = some y → P y) ∧ P x := by
  constructor
  · intro h
    exact ⟨fun i y hi hy => h i y hi (getElem?_push_of_eq_some hy),
      h a.size x hn Array.getElem?_push_size⟩
  · rintro ⟨hold, hnew⟩ i y hi hy
    rw [Array.getElem?_push] at hy
    split at hy
    · exact Option.some.inj hy ▸ hnew
    · exact hold i y hi hy

theorem addsWithin_addArray_iff (hsize : t.arrays.size ≤ u.arrays.size) {items : List Handle} :
    AddsWithin limit t (u.addArray items).1 ↔
      AddsWithin limit t u ∧ ∀ h ∈ items, h.index ≤ limit := by
  have hpush := forall_push_iff hsize (x := items) (P := fun l => ∀ h ∈ l, h.index ≤ limit)
  constructor
  · rintro ⟨hobjects, harrays⟩
    exact ⟨⟨hobjects, (hpush.1 harrays).1⟩, (hpush.1 harrays).2⟩
  · rintro ⟨⟨hobjects, harrays⟩, hitems⟩
    exact ⟨hobjects, hpush.2 ⟨harrays, hitems⟩⟩

theorem addsWithin_addObject_iff (hsize : t.objects.size ≤ u.objects.size)
    {members : List (Nat × Handle)} :
    AddsWithin limit t (u.addObject members).1 ↔
      AddsWithin limit t u ∧ ∀ m ∈ members, m.1 ≤ limit ∧ m.2.index ≤ limit := by
  have hpush := forall_push_iff hsize (x := members)
    (P := fun l => ∀ m ∈ l, m.1 ≤ limit ∧ m.2.index ≤ limit)
  constructor
  · rintro ⟨hobjects, harrays⟩
    exact ⟨⟨(hpush.1 hobjects).1, harrays⟩, (hpush.1 hobjects).2⟩
  · rintro ⟨⟨hobjects, harrays⟩, hmembers⟩
    exact ⟨hpush.2 ⟨hobjects, hmembers⟩, harrays⟩

theorem size_le_of_kept {α : Type} {a b : Array α}
    (h : ∀ (i : Nat) x, a[i]? = some x → b[i]? = some x) : a.size ≤ b.size := by
  by_contra hlt
  have hb := h b.size a[b.size] (Array.getElem?_eq_getElem (Nat.not_le.1 hlt))
  rw [Array.getElem?_eq_none (Nat.le_refl _)] at hb
  cases hb

theorem rows_intern (t : Table) (s : String) :
    (t.intern s).1.objects = t.objects ∧ (t.intern s).1.arrays = t.arrays := by
  unfold intern
  split <;> exact ⟨rfl, rfl⟩

theorem rows_addText (t : Table) (isTarget : Bool) (s : String) :
    (t.addText isTarget s).1.objects = t.objects ∧ (t.addText isTarget s).1.arrays = t.arrays := by
  unfold addText
  split
  · exact rows_intern t s
  · split
    · split
      · exact rows_intern t s
      · exact rows_intern t _
    · split
      · exact rows_intern t s
      · exact ⟨rfl, rfl⟩

/-- A text is found at an index below the number of entries, or is the next entry. -/
theorem intern_le (t : Table) (s : String) : (t.intern s).2 ≤ t.entries := by
  unfold intern
  split
  · next i hi =>
    obtain ⟨hlt, -⟩ := Array.getElem?_eq_some_iff.1 (getElem?_of_idxOf? hi)
    exact (Nat.le_of_lt hlt).trans (Nat.le_add_right _ _)
  · exact Nat.le_add_right _ _

theorem index_addText_le (t : Table) (isTarget : Bool) (s : String) :
    (t.addText isTarget s).2.index ≤ t.entries := by
  unfold addText
  split
  · exact intern_le t s
  · split
    · split
      · exact intern_le t s
      · exact intern_le t _
    · split
      · exact intern_le t s
      · exact Nat.zero_le _

end Table

/-- A key does not count before it has its value. -/
def OpenRow.Within (limit : Nat) : OpenRow → Prop
  | .object members _ => ∀ m ∈ members, m.1 ≤ limit ∧ m.2.index ≤ limit
  | .array items => ∀ h ∈ items, h.index ≤ limit

namespace Recorder

variable {limit : Nat} {t : Table} {r r' : Recorder} {e : Event} {stream : List Event}

/-- No index above the limit stands in what was recorded since the recorder had the table `t`. -/
@[mk_iff]
structure Within (limit : Nat) (t : Table) (r : Recorder) : Prop where
  table : t.AddsWithin limit r.table
  enclosing : ∀ row ∈ r.enclosing, row.Within limit
  root : ∀ h ∈ r.root, h.index ≤ limit

theorem Idle.within (hidle : r.Idle) (limit : Nat) : r.Within limit r.table where
  table := .refl limit r.table
  enclosing := by
    rw [hidle.1]
    exact List.forall_mem_nil _
  root := by
    rw [hidle.2]
    rintro h ⟨⟩

/-- A value can be put within the limit if its own index and that of its key are. -/
theorem within_put_iff {h : Handle} (hput : r.put h = .ok r') : r'.Within limit t ↔
    r.Within limit t ∧ h.index ≤ limit ∧ ∀ key ∈ r.pendingKey?, key ≤ limit := by
  obtain ⟨table, enclosing, root⟩ := r
  unfold put at hput
  unfold pendingKey?
  rcases enclosing with _ | ⟨⟨members, _ | key⟩ | items, outer⟩
  · cases root with
    | some _ => cases hput
    | none =>
      cases hput
      simp [within_iff]
  · cases hput
  · cases hput
    simp only [within_iff, List.forall_mem_cons, OpenRow.Within, Option.mem_def,
      Option.some.injEq, forall_eq']
    tauto
  · cases hput
    simp only [within_iff, List.forall_mem_cons, OpenRow.Within, Option.mem_def, reduceCtorEq,
      false_implies, forall_const]
    tauto

/-- Making a handle moves what is open into a row, and changes no index. -/
theorem Makes.within_iff {made : Option Handle} (h : r.Makes e r' made)
    (ext : t.Extends r.table) : r'.Within limit t ↔ r.Within limit t := by
  have hobjects := Table.size_le_of_kept ext.objects
  have harrays := Table.size_le_of_kept ext.arrays
  obtain ⟨table, enclosing, root⟩ := r
  cases h with
  | null | bool _ | integer _ | double _ => exact Iff.rfl
  | text s =>
    obtain ⟨hobj, harr⟩ := table.rows_addText (expectsTarget ⟨table, enclosing, root⟩) s
    simp only [Recorder.within_iff, Table.AddsWithin.congr hobj harr]
  | beginArray | beginObject =>
    simp [Recorder.within_iff, OpenRow.Within]
  | key name hopen =>
    obtain ⟨hobj, harr⟩ := table.rows_intern name
    dsimp only at hopen
    subst hopen
    simp only [Recorder.within_iff, Table.AddsWithin.congr hobj harr, List.forall_mem_cons,
      OpenRow.Within]
  | @array items outer hopen =>
    dsimp only at hopen
    subst hopen
    simp only [Recorder.within_iff, Table.addsWithin_addArray_iff harrays, List.forall_mem_cons,
      OpenRow.Within, List.mem_reverse, and_assoc]
  | @object members outer hopen =>
    dsimp only at hopen
    subst hopen
    simp only [Recorder.within_iff, Table.addsWithin_addObject_iff hobjects, List.forall_mem_cons,
      OpenRow.Within, List.mem_reverse, and_assoc]

/-! ### Streams within a limit -/

theorem fits_iff {h : Handle} :
    (h.index ≤ limit && r.pendingKey?.all (· ≤ limit)) = true ↔
      h.index ≤ limit ∧ ∀ key ∈ r.pendingKey?, key ≤ limit := by
  simp only [Bool.and_eq_true, decide_eq_true_eq, Option.all_eq_true, Option.mem_def]

theorem Within.of_feed (ext : t.Extends r.table) (hfeed : r.feed e = .ok r')
    (h : r'.Within limit t) : r.Within limit t := by
  obtain ⟨r₁, made, hmake, hmade⟩ := feedWith_eq_ok hfeed
  rw [← (makes_of_make hmake).within_iff ext]
  rcases hmade with ⟨-, rfl⟩ | ⟨_, -, hput⟩
  · exact h
  · exact ((within_put_iff hput).1 h).1

/-- One event with and without the limit: as long as nothing is above the limit there is no
difference, and when something is, the tables overflow. -/
theorem feedWithin_of_feed (ext : t.Extends r.table) (hr : r.Within limit t)
    (hfeed : r.feed e = .ok r') :
    (r'.Within limit t → r.feedWith (putWithin limit) e = .ok r') ∧
      (¬ r'.Within limit t → r.feedWith (putWithin limit) e = .error .tableOverflow) := by
  obtain ⟨r₁, made, hmake, hmade⟩ := feedWith_eq_ok hfeed
  have hr₁ : r₁.Within limit t := ((makes_of_make hmake).within_iff ext).2 hr
  rcases hmade with ⟨rfl, rfl⟩ | ⟨h, rfl, hput⟩
  · refine ⟨fun _ => ?_, fun habove => absurd hr₁ habove⟩
    rw [feedWith, hmake]
    rfl
  · have hcommit : r.feedWith (putWithin limit) e = r₁.putWithin limit h := by
      rw [feedWith, hmake]
      rfl
    rw [hcommit, putWithin, within_put_iff hput, ← fits_iff]
    constructor
    · rintro ⟨-, hfits⟩
      rw [if_pos hfits, hput]
    · intro habove
      exact if_neg fun hfits => habove ⟨hr₁, hfits⟩

theorem feed_of_feedWithin (h : r.feedWith (putWithin limit) e = .ok r') : r.feed e = .ok r' := by
  obtain ⟨r₁, made, hmake, hmade⟩ := feedWith_eq_ok h
  rw [feed, feedWith, hmake]
  rcases hmade with ⟨rfl, rfl⟩ | ⟨h, rfl, hput⟩
  · rfl
  · unfold putWithin at hput
    split at hput
    · exact hput
    · cases hput

theorem foldlM_feed_of_feedWithin (h : stream.foldlM (feedWith (putWithin limit)) r = .ok r') :
    stream.foldlM feed r = .ok r' := by
  induction stream generalizing r with
  | nil => exact h
  | cons e rest ih =>
    obtain ⟨r₁, hfirst, hrest⟩ := foldlM_cons_eq_ok.1 h
    rw [List.foldlM_cons, feed_of_feedWithin hfirst]
    exact ih hrest

theorem Within.of_foldlM {a : Json.Assembly} (hf : r.Follows a) (ext : t.Extends r.table)
    (hrun : stream.foldlM feed r = .ok r') (h : r'.Within limit t) : r.Within limit t := by
  induction stream generalizing r a with
  | nil =>
    cases hrun
    exact h
  | cons e rest ih =>
    obtain ⟨r₁, hfirst, hrest⟩ := foldlM_cons_eq_ok.1 hrun
    obtain ⟨a₁, -, ext₁, hf₁⟩ := (hf.feed e).of_ok hfirst
    exact (ih hf₁ (ext.trans ext₁) hrest).of_feed ext hfirst

/-- A stream that is taken without the limit: it is taken with it as well if nothing ends up above
the limit, and else the tables overflow. -/
theorem foldlM_feedWithin {a : Json.Assembly} (hf : r.Follows a) (ext : t.Extends r.table)
    (hr : r.Within limit t) (hrun : stream.foldlM feed r = .ok r') :
    (r'.Within limit t → stream.foldlM (feedWith (putWithin limit)) r = .ok r') ∧
      (¬ r'.Within limit t →
        stream.foldlM (feedWith (putWithin limit)) r = .error .tableOverflow) := by
  induction stream generalizing r a with
  | nil =>
    cases hrun
    exact ⟨fun _ => rfl, fun habove => absurd hr habove⟩
  | cons e rest ih =>
    obtain ⟨r₁, hfirst, hrest⟩ := foldlM_cons_eq_ok.1 hrun
    obtain ⟨a₁, -, ext₁, hf₁⟩ := (hf.feed e).of_ok hfirst
    obtain ⟨hwithin, habove⟩ := feedWithin_of_feed ext hr hfirst
    rw [List.foldlM_cons]
    by_cases hr₁ : r₁.Within limit t
    · rw [hwithin hr₁]
      exact ih hf₁ (ext.trans ext₁) hr₁ hrest
    · -- What is above the limit once stays there.
      rw [habove hr₁]
      exact ⟨fun hr' => absurd (hr'.of_foldlM hf₁ (ext.trans ext₁) hrest) hr₁, fun _ => rfl⟩

/-! ### Room in the tables -/

/-- A key that waits is a text of the table. -/
theorem Follows.key_lt {a : Json.Assembly} (hf : r.Follows a) {members : List (Nat × Handle)}
    {key : Nat} (hrow : .object members (some key) ∈ r.enclosing) :
    key < r.table.strings.size := by
  have hkept : ∀ row ∈ r.enclosing, ∃ p, row.Keeps r.table p :=
    ((List.forall₂_and_left _ _).1 (hf.enclosing.imp fun _ p h => ⟨⟨p, h⟩, h⟩)).1
  obtain ⟨p, hkeeps⟩ := hkept _ hrow
  cases p with
  | array items => exact hkeeps.elim
  | object members name =>
    obtain ⟨-, -, hkey⟩ := hkeeps
    cases hkey with
    | some hk => exact (Array.getElem?_eq_some_iff.1 hk).1

theorem mem_of_pendingKey? {key : Nat} (h : key ∈ r.pendingKey?) :
    ∃ members, .object members (some key) ∈ r.enclosing := by
  unfold pendingKey? at h
  split at h
  · next members pending outer hopen =>
    rw [Option.mem_def.1 h] at hopen
    exact ⟨members, hopen ▸ List.mem_cons_self⟩
  · cases h

/-- What is made is found among the entries, or is the next one, and so is a key that waits. -/
theorem Makes.index_le {a : Json.Assembly} (hf : r.Follows a) {h : Handle}
    (hmakes : r.Makes e r' (some h)) :
    h.index ≤ r.table.entries ∧ ∀ key ∈ r'.pendingKey?, key ≤ r.table.entries := by
  have hwaits : (∀ row ∈ r'.enclosing, row ∈ r.enclosing) →
      ∀ key ∈ r'.pendingKey?, key ≤ r.table.entries := by
    intro hsub key hkey
    obtain ⟨members, hrow⟩ := mem_of_pendingKey? hkey
    exact (Nat.le_of_lt (hf.key_lt (hsub _ hrow))).trans (Nat.le_add_right _ _)
  have hrows : r.table.arrays.size ≤ r.table.entries ∧ r.table.objects.size ≤ r.table.entries := by
    simp only [Table.entries, Table.rows]
    omega
  cases hmakes with
  | null | bool _ | integer _ | double _ => exact ⟨Nat.zero_le _, hwaits fun _ h => h⟩
  | text s => exact ⟨Table.index_addText_le _ _ _, hwaits fun _ h => h⟩
  | array hopen =>
    exact ⟨hrows.1, hwaits fun _ hrow => hopen ▸ List.mem_cons_of_mem _ hrow⟩
  | object hopen =>
    exact ⟨hrows.2, hwaits fun _ hrow => hopen ▸ List.mem_cons_of_mem _ hrow⟩

/-- While there are fewer entries than indices, the limit is not noticed. -/
theorem feedWithin_of_entries {a : Json.Assembly} (hf : r.Follows a)
    (hroom : r.table.entries ≤ limit) (e : Event) :
    r.feedWith (putWithin limit) e = r.feed e := by
  unfold feed feedWith
  cases hmake : r.make e with
  | error cause => rfl
  | ok result =>
    obtain ⟨r₁, _ | h⟩ := result
    · rfl
    · obtain ⟨hindex, hkey⟩ := (makes_of_make hmake).index_le hf
      exact if_pos (fits_iff.2 ⟨hindex.trans hroom, fun key hmem => (hkey key hmem).trans hroom⟩)

theorem foldlM_feedWithin_of_entries {a : Json.Assembly} (hf : r.Follows a)
    (hroom : r.table.entries + stream.length ≤ limit + 1) :
    stream.foldlM (feedWith (putWithin limit)) r = stream.foldlM feed r := by
  induction stream generalizing r a with
  | nil => rfl
  | cons e rest ih =>
    rw [List.length_cons] at hroom
    rw [List.foldlM_cons, List.foldlM_cons, feedWithin_of_entries hf (by omega)]
    cases hfirst : r.feed e with
    | error cause => rfl
    | ok r₁ =>
      obtain ⟨a₁, -, -, hf₁⟩ := (hf.feed e).of_ok hfirst
      have hle := entries_feed_le hfirst
      exact ih hf₁ (by omega)

/-- Recording the value makes no index above the limit: neither of the value itself nor of anything
in it. -/
def HasRoom (limit : Nat) (r : Recorder) (v : Json) : Prop :=
  ∃ r' h, r.addDocument v = .ok (r', h) ∧ h.index ≤ limit ∧ r.table.AddsWithin limit r'.table

theorem Idle.hasRoom_iff (hidle : r.Idle) (limit : Nat) (v : Json) : ∃ r₁ r' h,
    v.events.foldlM feed r = .ok r₁ ∧ r₁.finish = .ok (r', h) ∧
      (r.HasRoom limit v ↔ r₁.Within limit r.table) := by
  obtain ⟨r', h, hrun, -⟩ := hidle.addDocument v
  obtain ⟨r₁, hfed, hfinish⟩ := bind_eq_ok.1 hrun
  obtain ⟨hclosed, hroot, rfl⟩ := finish_eq_ok hfinish
  refine ⟨r₁, _, h, hfed, hfinish, ?_⟩
  rw [within_iff, hclosed, hroot]
  constructor
  · rintro ⟨r₂, h₂, hrun₂, hindex, htable⟩
    cases hrun.symm.trans hrun₂
    refine ⟨htable, List.forall_mem_nil _, ?_⟩
    rintro _ ⟨⟩
    exact hindex
  · rintro ⟨htable, -, hindex⟩
    exact ⟨_, h, hrun, hindex h rfl, htable⟩

/-- The events of a value are taken within the limit as without it if there is room for the value,
and else the tables overflow. -/
theorem Idle.takeWithin (hidle : r.Idle) (v : Json) :
    (r.HasRoom limit v → r.takeWith (putWithin limit) v.events = r.takeStream v.events) ∧
      (¬ r.HasRoom limit v → r.takeWith (putWithin limit) v.events = .error .tableOverflow) := by
  obtain ⟨r₁, r', h, hfed, hfinish, hiff⟩ := hidle.hasRoom_iff limit v
  obtain ⟨hwithin, habove⟩ := foldlM_feedWithin hidle.follows (.refl _) (hidle.within limit) hfed
  rw [hiff, takeStream, takeWith, takeWith]
  refine ⟨fun hroom => ?_, fun hroom => ?_⟩
  · rw [hwithin hroom]
    exact congrArg (· >>= finish) hfed.symm
  · rw [habove hroom]
    rfl

theorem Idle.hasRoom_of_entries (hidle : r.Idle) {v : Json}
    (hroom : r.table.entries + v.events.length ≤ limit + 1) : r.HasRoom limit v := by
  obtain ⟨r₁, r', h, hfed, -, hiff⟩ := hidle.hasRoom_iff limit v
  rw [hiff]
  by_contra habove
  have hover := (foldlM_feedWithin hidle.follows (.refl _) (hidle.within limit) hfed).2 habove
  rw [foldlM_feedWithin_of_entries hidle.follows hroom, hfed] at hover
  cases hover

/-- An idle recorder takes the events of exactly one value, for which there is room in its tables,
and no other streams: whatever is out of place in a stream is noticed, at the latest at its end, and
where there is no room the tables overflow. There is room as long as entries and events together are
no more than there are indices. After the events of a value the recorder is idle again, has what it
had, with at most one entry more for each event, and the handle that it gives reads as what is kept
of the value. -/
theorem takeChecked_iff_events (hidle : r.Idle) (stream : List Event) :
    ((∃ r' h, r.takeChecked stream = .ok (r', h)) ↔
      ∃! v : Json, stream = v.events ∧ r.HasRoom Handle.maxIndex v) ∧
    ∀ v : Json, stream = v.events →
      (r.HasRoom Handle.maxIndex v → ∃ r' h, r.takeChecked stream = .ok (r', h) ∧
        (∀ k, r'.table.ReadsAs h k ↔ k = v.kept r.table.settings false) ∧ r'.Idle ∧
        r.table.Extends r'.table ∧ r'.table.entries ≤ r.table.entries + stream.length) ∧
      (¬ r.HasRoom Handle.maxIndex v → r.takeChecked stream = .error .tableOverflow) ∧
      (r.table.entries + stream.length ≤ Handle.maxIndex + 1 → r.HasRoom Handle.maxIndex v) := by
  obtain ⟨htakes, hreads⟩ := takes_iff_events hidle stream
  have hlimit : ∀ v : Json, stream = v.events →
      (r.HasRoom Handle.maxIndex v → r.takeChecked stream = r.takeStream stream) ∧
        (¬ r.HasRoom Handle.maxIndex v → r.takeChecked stream = .error .tableOverflow) := by
    rintro v rfl
    exact hidle.takeWithin v
  refine ⟨⟨?_, ?_⟩, fun v hv => ⟨fun hroom => ?_, (hlimit v hv).2, ?_⟩⟩
  · rintro ⟨r', h, hrun⟩
    obtain ⟨r₁, hfed, hfinish⟩ := bind_eq_ok.1 hrun
    have hunlimited : r.takeStream stream = .ok (r', h) :=
      bind_eq_ok.2 ⟨r₁, foldlM_feed_of_feedWithin hfed, hfinish⟩
    obtain ⟨v, hv, hunique⟩ := htakes.1 ⟨r', h, hunlimited⟩
    refine ⟨v, ⟨hv, ?_⟩, fun w hw => hunique w hw.1⟩
    by_contra habove
    cases hrun.symm.trans ((hlimit v hv).2 habove)
  · rintro ⟨v, ⟨hv, hroom⟩, -⟩
    obtain ⟨r', h, hrun, -⟩ := hreads v hv
    exact ⟨r', h, ((hlimit v hv).1 hroom).trans hrun⟩
  · rw [(hlimit v hv).1 hroom]
    exact hreads v hv
  · rintro hentries
    subst hv
    exact hidle.hasRoom_of_entries hentries

/-- An object that repeats a key, with a text of each sort. -/
def mixed : Json :=
  .object [("a", .string "abc"), ("$ref", .string "#/abc"),
    ("a", .array [.number (.double .zero), .string "2024-01-31", .string "é"])]

/-- Of the texts one is too long, one is the target of a reference, of one the format is kept, and
one is short enough. -/
theorem takeChecked_iff_events_mixed :
    (Recorder.empty { handleRefs := true, internMaxLen := 1 }).Idle ∧
      ∃ r' h, (Recorder.empty { handleRefs := true, internMaxLen := 1 }).takeChecked
          [.beginObject, .key "a", .string "abc", .key "$ref", .string "#/abc", .key "a",
            .beginArray, .number (.double .zero), .string "2024-01-31", .string "é", .endArray,
            .endObject] = .ok (r', h) ∧
        r'.table.ReadsAs h (.object [("a", .dropped), ("$ref", .text "#/abc"),
          ("a", .array [.double, .format .date, .text "é"])]) := by
  have hidle : (Recorder.empty { handleRefs := true, internMaxLen := 1 }).Idle := ⟨rfl, rfl⟩
  have hkept : mixed.kept { handleRefs := true, internMaxLen := 1 } false =
      .object [("a", .dropped), ("$ref", .text "#/abc"),
        ("a", .array [.double, .format .date, .text "é"])] := rfl
  obtain ⟨hreads, -, hroom⟩ := (takeChecked_iff_events hidle mixed.events).2 mixed rfl
  obtain ⟨r', h, hrun, hreads, -⟩ := hreads (hroom (by decide))
  exact ⟨hidle, r', h, hrun, (hreads _).2 hkept.symm⟩

/-! ### Rows of arrays -/

theorem Makes.arrays_size {made : Option Handle} (h : r.Makes e r' made) :
    r'.table.arrays.size = r.table.arrays.size + [e].count .endArray := by
  cases h with
  | null | bool _ | integer _ | double _ | beginArray | beginObject => rfl
  | text s => exact congrArg Array.size (r.table.rows_addText r.expectsTarget s).2
  | key name _ => exact congrArg Array.size (r.table.rows_intern name).2
  | array _ => exact Array.size_push _
  | object _ => rfl

/-- Every array that ends gets a row of its own. -/
theorem arrays_size_foldlM (hrun : stream.foldlM feed r = .ok r') :
    r'.table.arrays.size = r.table.arrays.size + stream.count .endArray := by
  induction stream generalizing r with
  | nil =>
    cases hrun
    rfl
  | cons e rest ih =>
    obtain ⟨r₁, hfirst, hrest⟩ := foldlM_cons_eq_ok.1 hrun
    obtain ⟨r₂, made, hmake, hmade⟩ := feedWith_eq_ok hfirst
    have hsize := (makes_of_make hmake).arrays_size
    have htable : r₁.table = r₂.table := by
      rcases hmade with ⟨-, rfl⟩ | ⟨h, -, hput⟩
      · rfl
      · exact table_put hput
    have hcount : (e :: rest).count .endArray = [e].count .endArray + rest.count .endArray := by
      rw [← List.singleton_append, List.count_append]
    rw [ih hrest, htable, hsize, hcount, Nat.add_assoc]

theorem root_of_put {h : Handle} (hput : r.put h = .ok r') (hclosed : r'.enclosing = []) :
    r'.root = some h := by
  unfold put at hput
  split at hput
  · split at hput
    · cases hput
    · cases hput
      rfl
  · cases hput
  · cases hput
    cases hclosed
  · cases hput
    cases hclosed

/-- The row of an array comes after those of all arrays in it. -/
theorem index_of_array {items : List Json} {h : Handle}
    (hrun : r.addDocument (.array items) = .ok (r', h)) :
    h.index = r.table.arrays.size + (Json.eventsOfItems items).count .endArray := by
  obtain ⟨r₁, hfed, hfinish⟩ := bind_eq_ok.1 hrun
  obtain ⟨hclosed, hroot, -⟩ := finish_eq_ok hfinish
  rw [Json.events, ← List.cons_append, List.foldlM_append] at hfed
  obtain ⟨r₂, hitems, hlast⟩ := bind_eq_ok.1 hfed
  have hsize := arrays_size_foldlM hitems
  simp only [List.foldlM_cons, List.foldlM_nil, bind_pure] at hlast
  obtain ⟨r₃, made, hmake, hmade⟩ := feedWith_eq_ok hlast
  cases makes_of_make hmake with
  | array hopen =>
    rcases hmade with ⟨hnone, -⟩ | ⟨own, hown, hput⟩
    · cases hnone
    · cases hown
      rw [root_of_put hput hclosed] at hroot
      cases hroot
      exact hsize

theorem Idle.overflows_of_array (hidle : r.Idle) {items : List Json}
    (h : limit < r.table.arrays.size + (Json.eventsOfItems items).count .endArray) :
    r.takeWith (putWithin limit) (Json.array items).events = .error .tableOverflow := by
  refine (hidle.takeWithin (.array items)).2 ?_
  rintro ⟨r', own, hrun, hindex, -⟩
  rw [index_of_array hrun] at hindex
  exact Nat.not_le.2 h hindex

/-- Empty arrays in an array. -/
def emptyArrays (n : Nat) : Json := .array (List.replicate n (.array []))

theorem count_eventsOfItems_replicate (n : Nat) :
    (Json.eventsOfItems (List.replicate n (.array []))).count .endArray = n := by
  induction n with
  | zero => rfl
  | succ n ih =>
    rw [List.replicate_succ, Json.eventsOfItems, List.count_append, ih]
    exact Nat.add_comm 1 n

/-- For as many arrays in an array as there are indices there is no room. And of a text in a format
the text is kept if formats are not looked for. -/
theorem takeChecked_overflows :
    (Recorder.empty {}).Idle ∧
    (∃! v : Json, (emptyArrays (Handle.maxIndex + 1)).events = v.events) ∧
    (Recorder.empty {}).takeChecked (emptyArrays (Handle.maxIndex + 1)).events =
      .error .tableOverflow ∧
    Format.recognize "2024-01-31" = some .date ∧
    ∃ r' h, (Recorder.empty { inferStringFormats := false }).takeChecked [.string "2024-01-31"] =
      .ok (r', h) ∧ r'.table.ReadsAs h (.text "2024-01-31") := by
  have hidle : (Recorder.empty {}).Idle := ⟨rfl, rfl⟩
  have hidle' : (Recorder.empty { inferStringFormats := false }).Idle := ⟨rfl, rfl⟩
  obtain ⟨r', h, hrun, hreads, -⟩ :=
    (takes_iff_events hidle' [.string "2024-01-31"]).2 (.string "2024-01-31") rfl
  have hroom : (Recorder.empty { inferStringFormats := false }).HasRoom Handle.maxIndex
      (.string "2024-01-31") := hidle'.hasRoom_of_entries (by decide)
  have hchecked := ((hidle'.takeWithin (.string "2024-01-31")).1 hroom).trans hrun
  refine ⟨hidle, ⟨_, rfl, fun w hw => Json.eq_of_events hw.symm⟩, hidle.overflows_of_array ?_,
    by decide +kernel, r', h, hchecked, (hreads _).2 rfl⟩
  rw [count_eventsOfItems_replicate]
  exact Nat.lt_of_lt_of_le (Nat.lt_succ_self _) (Nat.le_add_left _ _)

end Recorder

end JsonTyping
