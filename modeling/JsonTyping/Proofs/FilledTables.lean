import JsonTyping.Proofs.KeptValues

/-!
# Filled tables

A table is filled if each of its rows stands for a container that was given, part by part
(`Table.Filled`). Then no row leads out of the table or back to itself, and formats are those of the
texts that were given (`Table.Filled.wellFormed`). Texts and rows may be added.
-/

namespace JsonTyping

/-- Nothing but its kind was kept of the value. -/
def Handle.IsBare : Handle → Prop
  | .null | .bool _ | .integer | .double | .dropped => True
  | _ => False

namespace Table

/-- What the handle leads to is in the table. -/
def Has (t : Table) : Handle → Prop
  | .text i | .format i | .traits i => i < t.strings.size
  | .object row => row < t.objects.size
  | .array row => row < t.arrays.size
  | _ => True

/-- The one handle stands in the row of the other. -/
def Contains (t : Table) (inner : Handle) : Handle → Prop
  | .object row => ∃ members, t.objects[row]? = some members ∧ inner ∈ members.map (·.2)
  | .array row => ∃ items, t.arrays[row]? = some items ∧ inner ∈ items
  | _ => False

/-- A handle that shows a format shows that of the text that was given, and it leads to the text
itself exactly if the format has attributes. -/
def ShowsFormat (t : Table) (h : Handle) (v : Json) : Prop :=
  match h with
  | .format _ => ∃ s f, v = .string s ∧ Format.recognize s = some f ∧ t.format? h = some f ∧
      f.hasTraits = false
  | .traits _ => ∃ s f, v = .string s ∧ Format.recognize s = some f ∧ t.format? h = some f ∧
      f.hasTraits = true
  | _ => True

variable {t : Table} {isTarget : Bool} {h : Handle} {v : Json} {s : String}

theorem has_of_getElem? {i : Nat} (hi : t.strings[i]? = some s) : t.Has (.text i) :=
  (Array.getElem?_eq_some_iff.1 hi).1

/-- What a handle that stands for a value may lead to. -/
theorem Keeps.cases (hk : t.Keeps isTarget h v) :
    h.IsBare ∨
    (∃ i s, h = .text i ∧ t.strings[i]? = some s) ∨
    (∃ i s f, h = .format i ∧ t.strings[i]? = some f.name ∧ v = .string s ∧
      t.recognize s = some f ∧ f.hasTraits = false) ∨
    (∃ i s f, h = .traits i ∧ t.strings[i]? = some s ∧ v = .string s ∧
      t.recognize s = some f ∧ f.hasTraits = true) ∨
    (∃ row hs items, h = .array row ∧ t.arrays[row]? = some hs ∧ v = .array items ∧
      List.Forall₂ (t.Keeps false) hs items) ∨
    ∃ row hs members, h = .object row ∧ t.objects[row]? = some hs ∧ v = .object members ∧
      List.Forall₂ t.KeepsMember hs members := by
  cases v with
  | null | bool b =>
    simp only [Keeps] at hk
    exact .inl (hk ▸ trivial)
  | number n =>
    cases n <;>
    · simp only [Keeps] at hk
      exact .inl (hk ▸ trivial)
  | string s =>
    simp only [Keeps, KeepsText] at hk
    split at hk
    · obtain ⟨i, hi, hs⟩ := hk
      exact .inr (.inl ⟨i, s, hi, hs⟩)
    split at hk
    · next f hf =>
      cases htraits : f.hasTraits
      all_goals
        rw [htraits] at hk
        obtain ⟨i, hi, hs⟩ := hk
      · exact .inr (.inr (.inl ⟨i, s, f, hi, hs, rfl, hf, htraits⟩))
      · exact .inr (.inr (.inr (.inl ⟨i, s, f, hi, hs, rfl, hf, htraits⟩)))
    split at hk
    · obtain ⟨i, hi, hs⟩ := hk
      exact .inr (.inl ⟨i, s, hi, hs⟩)
    · exact .inl (hk ▸ trivial)
  | array items =>
    simp only [Keeps] at hk
    obtain ⟨row, hs, hrow, hget, hitems⟩ := hk
    have hkept := keepsItems_iff.1 hitems
    exact .inr (.inr (.inr (.inr (.inl ⟨row, hs, items, hrow, hget, rfl, hkept⟩))))
  | object members =>
    simp only [Keeps] at hk
    obtain ⟨row, hs, hrow, hget, hmembers⟩ := hk
    exact .inr (.inr (.inr (.inr (.inr
      ⟨row, hs, members, hrow, hget, rfl, keepsMembers_iff.1 hmembers⟩))))

theorem Keeps.has (hk : t.Keeps isTarget h v) : t.Has h := by
  obtain hbare | ⟨i, s, rfl, hi⟩ | ⟨i, s, f, rfl, hi, -⟩ | ⟨i, s, f, rfl, hi, -⟩ |
    ⟨row, hs, items, rfl, hrow, -⟩ | ⟨row, hs, members, rfl, hrow, -⟩ := hk.cases
  · cases h <;> trivial
  · exact has_of_getElem? hi
  · exact has_of_getElem? hi
  · exact has_of_getElem? hi
  · exact (Array.getElem?_eq_some_iff.1 hrow).1
  · exact (Array.getElem?_eq_some_iff.1 hrow).1

theorem Keeps.showsFormat (hk : t.Keeps isTarget h v) : t.ShowsFormat h v := by
  have hrecognize : ∀ {s : String} {f : Format}, t.recognize s = some f →
      Format.recognize s = some f := @Format.recognize_of_formatOf t.settings
  obtain hbare | ⟨i, s, rfl, -⟩ | ⟨i, s, f, rfl, hi, rfl, hf, htraits⟩ |
    ⟨i, s, f, rfl, hi, rfl, hf, htraits⟩ | ⟨row, hs, items, rfl, -⟩ |
    ⟨row, hs, members, rfl, -⟩ := hk.cases
  · cases h <;> trivial
  · exact trivial
  · refine ⟨s, f, rfl, hrecognize hf, ?_, htraits⟩
    rw [format?, string_of_get hi, Format.ofName?_name]
  · refine ⟨s, f, rfl, hrecognize hf, ?_, htraits⟩
    rw [format?, string_of_get hi, hrecognize hf]
  · exact trivial
  · exact trivial

/-- What stands for a value contains only what stands for its parts, so this comes to an end. -/
theorem Keeps.acc (hk : t.Keeps isTarget h v) : Acc t.Contains h := by
  induction v using Json.inductionOn generalizing isTarget h with
  | array items ih =>
    simp only [Keeps] at hk
    obtain ⟨row, hs, rfl, hrow, hitems⟩ := hk
    refine ⟨_, fun inner hinner => ?_⟩
    obtain ⟨hs', hrow', hmem⟩ := hinner
    cases hrow.symm.trans hrow'
    obtain ⟨v, hv, hkeeps⟩ := exists_right_of_forall₂ (keepsItems_iff.1 hitems) hmem
    exact ih v hv hkeeps
  | object members ih =>
    simp only [Keeps] at hk
    obtain ⟨row, hs, rfl, hrow, hmembers⟩ := hk
    refine ⟨_, fun inner hinner => ?_⟩
    obtain ⟨hs', hrow', hmem⟩ := hinner
    cases hrow.symm.trans hrow'
    obtain ⟨m, hm, rfl⟩ := List.mem_map.1 hmem
    obtain ⟨n, hn, hkeeps⟩ := exists_right_of_forall₂ (keepsMembers_iff.1 hmembers) hm
    exact ih n hn hkeeps.2
  | _ =>
    -- A handle that stands for a scalar has no row.
    refine ⟨_, fun inner hinner => ?_⟩
    obtain hbare | ⟨i, s, rfl, -⟩ | ⟨i, s, f, rfl, -⟩ | ⟨i, s, f, rfl, -⟩ |
      ⟨row, hs, items, -, -, hv, -⟩ | ⟨row, hs, members, -, -, hv, -⟩ := hk.cases
    · cases h <;> first | exact hinner.elim | exact hbare.elim
    · exact hinner.elim
    · exact hinner.elim
    · exact hinner.elim
    · cases hv
    · cases hv

/-- Each row stands for a container whose events are a piece of the stream, and no text is kept
twice. -/
structure Filled (t : Table) (stream : List Event) : Prop where
  objects : ∀ (row : Nat) hs, t.objects[row]? = some hs →
    ∃ members, (Json.object members).events <:+: stream ∧ List.Forall₂ t.KeepsMember hs members
  arrays : ∀ (row : Nat) hs, t.arrays[row]? = some hs →
    ∃ items, (Json.array items).events <:+: stream ∧ List.Forall₂ (t.Keeps false) hs items
  distinct : t.strings.toList.Nodup

/-- Nothing leads out of the table, and from row to row everything leads to an end. Each row is that
of a container in the stream; its parts stand for the parts of the container, in order, and show
their formats. No text is kept twice. In the row of an object each value has a key before it, which
is one of the texts. -/
structure WellFormed (t : Table) (stream : List Event) : Prop where
  has : ∀ inner outer, t.Contains inner outer → t.Has inner
  keys : ∀ (row : Nat) hs, t.objects[row]? = some hs → ∀ m ∈ hs, t.Has (.text m.1)
  wellFounded : WellFounded t.Contains
  objects : ∀ (row : Nat) hs, t.objects[row]? = some hs →
    ∃ members, (Json.object members).events <:+: stream ∧
      List.Forall₂ (fun m n => t.string m.1 = n.1 ∧ t.ShowsFormat m.2 n.2) hs members
  arrays : ∀ (row : Nat) hs, t.arrays[row]? = some hs →
    ∃ items, (Json.array items).events <:+: stream ∧ List.Forall₂ t.ShowsFormat hs items
  distinct : ∀ (i j : Nat) s, t.strings[i]? = some s → t.strings[j]? = some s → i = j

section Filled

variable {stream : List Event}

/-- Texts may be added, and events may come after those that were given. -/
theorem Filled.mono (hf : t.Filled stream) {t' : Table} (ext : t.Extends t')
    (hobjects : t'.objects = t.objects) (harrays : t'.arrays = t.arrays)
    (hdistinct : t'.strings.toList.Nodup) (more : List Event) : t'.Filled (stream ++ more) where
  objects row hs hrow := by
    rw [hobjects] at hrow
    obtain ⟨members, hevents, hkeeps⟩ := hf.objects row hs hrow
    exact ⟨members, List.infix_append_of_infix_left hevents, hkeeps.imp fun _ _ hm => hm.mono ext⟩
  arrays row hs hrow := by
    rw [harrays] at hrow
    obtain ⟨items, hevents, hkeeps⟩ := hf.arrays row hs hrow
    exact ⟨items, List.infix_append_of_infix_left hevents, hkeeps.imp fun _ _ hv => hv.mono ext⟩
  distinct := hdistinct

theorem Filled.more (hf : t.Filled stream) (more : List Event) : t.Filled (stream ++ more) :=
  hf.mono (.refl t) rfl rfl hf.distinct more

theorem nodup_intern (h : t.strings.toList.Nodup) (s : String) :
    (t.intern s).1.strings.toList.Nodup := by
  unfold intern
  split
  · exact h
  · next hnone =>
    have hnew : s ∉ t.strings.toList := by
      rwa [Array.idxOf?_eq_none_iff, ← Array.mem_toList_iff] at hnone
    rw [Array.toList_push, ← List.concat_eq_append]
    exact h.concat hnew

theorem Filled.intern (hf : t.Filled stream) (s : String) : (t.intern s).1.Filled stream := by
  have hrows : (t.intern s).1.objects = t.objects ∧ (t.intern s).1.arrays = t.arrays := by
    unfold Table.intern
    split <;> exact ⟨rfl, rfl⟩
  have hmono := hf.mono (t.intern_spec s).1 hrows.1 hrows.2 (nodup_intern hf.distinct s) []
  rwa [List.append_nil] at hmono

theorem Filled.addText (hf : t.Filled stream) (isTarget : Bool) (s : String) :
    (t.addText isTarget s).1.Filled stream := by
  unfold Table.addText
  split
  · exact hf.intern s
  · split
    · split
      · exact hf.intern s
      · exact hf.intern _
    · split
      · exact hf.intern s
      · exact hf

theorem Filled.addObject (hf : t.Filled stream) {hs : List (Nat × Handle)}
    {members : List (String × Json)} (hkeeps : List.Forall₂ t.KeepsMember hs members)
    (hevents : (Json.object members).events <:+: stream) :
    (t.addObject hs).1.Filled stream := by
  have ext := (t.addObject_spec hs).1
  refine ⟨fun row ms hrow => ?_, fun row ms hrow => ?_, hf.distinct⟩
  · rw [Table.addObject, Array.getElem?_push] at hrow
    split at hrow
    · cases hrow
      exact ⟨members, hevents, hkeeps.imp fun _ _ hm => hm.mono ext⟩
    · obtain ⟨members', hevents', hkeeps'⟩ := hf.objects row ms hrow
      exact ⟨members', hevents', hkeeps'.imp fun _ _ hm => hm.mono ext⟩
  · obtain ⟨items, hevents', hkeeps'⟩ := hf.arrays row ms hrow
    exact ⟨items, hevents', hkeeps'.imp fun _ _ hv => hv.mono ext⟩

theorem Filled.addArray (hf : t.Filled stream) {hs : List Handle} {items : List Json}
    (hkeeps : List.Forall₂ (t.Keeps false) hs items)
    (hevents : (Json.array items).events <:+: stream) : (t.addArray hs).1.Filled stream := by
  have ext := (t.addArray_spec hs).1
  refine ⟨fun row ms hrow => ?_, fun row ms hrow => ?_, hf.distinct⟩
  · obtain ⟨members, hevents', hkeeps'⟩ := hf.objects row ms hrow
    exact ⟨members, hevents', hkeeps'.imp fun _ _ hm => hm.mono ext⟩
  · rw [Table.addArray, Array.getElem?_push] at hrow
    split at hrow
    · cases hrow
      exact ⟨items, hevents, hkeeps.imp fun _ _ hv => hv.mono ext⟩
    · obtain ⟨items', hevents', hkeeps'⟩ := hf.arrays row ms hrow
      exact ⟨items', hevents', hkeeps'.imp fun _ _ hv => hv.mono ext⟩

/-- From row to row a filled table leads to an end. -/
theorem Filled.wellFounded (hf : t.Filled stream) : WellFounded t.Contains := by
  refine ⟨fun outer => ⟨_, fun inner hinner => ?_⟩⟩
  cases outer with
  | object row =>
    obtain ⟨hs, hrow, hmem⟩ := hinner
    obtain ⟨members, -, hkeeps⟩ := hf.objects row hs hrow
    obtain ⟨m, hm, rfl⟩ := List.mem_map.1 hmem
    obtain ⟨n, -, hn⟩ := exists_right_of_forall₂ hkeeps hm
    exact hn.2.acc
  | array row =>
    obtain ⟨hs, hrow, hmem⟩ := hinner
    obtain ⟨items, -, hkeeps⟩ := hf.arrays row hs hrow
    obtain ⟨v, -, hv⟩ := exists_right_of_forall₂ hkeeps hmem
    exact hv.acc
  | _ => exact hinner.elim

theorem Filled.wellFormed (hf : t.Filled stream) : t.WellFormed stream where
  has inner outer hinner := by
    cases outer with
    | object row =>
      obtain ⟨hs, hrow, hmem⟩ := hinner
      obtain ⟨members, -, hkeeps⟩ := hf.objects row hs hrow
      obtain ⟨m, hm, rfl⟩ := List.mem_map.1 hmem
      obtain ⟨n, -, hn⟩ := exists_right_of_forall₂ hkeeps hm
      exact hn.2.has
    | array row =>
      obtain ⟨hs, hrow, hmem⟩ := hinner
      obtain ⟨items, -, hkeeps⟩ := hf.arrays row hs hrow
      obtain ⟨v, -, hv⟩ := exists_right_of_forall₂ hkeeps hmem
      exact hv.has
    | _ => exact hinner.elim
  keys row hs hrow m hm := by
    obtain ⟨members, -, hkeeps⟩ := hf.objects row hs hrow
    obtain ⟨n, -, hn⟩ := exists_right_of_forall₂ hkeeps hm
    exact has_of_getElem? hn.1
  wellFounded := hf.wellFounded
  objects row hs hrow := by
    obtain ⟨members, hevents, hkeeps⟩ := hf.objects row hs hrow
    exact ⟨members, hevents, hkeeps.imp fun m n hm => ⟨string_of_get hm.1, hm.2.showsFormat⟩⟩
  arrays row hs hrow := by
    obtain ⟨items, hevents, hkeeps⟩ := hf.arrays row hs hrow
    exact ⟨items, hevents, hkeeps.imp fun _ _ hv => hv.showsFormat⟩
  distinct i j s hi hj := by
    rw [← Array.getElem?_toList] at hi hj
    obtain ⟨hlt, -⟩ := List.getElem?_eq_some_iff.1 hi
    exact (List.getElem?_inj hlt hf.distinct).1 (hi.trans hj.symm)

end Filled

end Table

end JsonTyping
