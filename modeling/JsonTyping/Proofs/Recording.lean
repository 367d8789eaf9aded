import JsonTyping.Proofs.Runs
import JsonTyping.Samples.Collection
import Mathlib.Data.List.Forall2
import Mathlib.Data.List.Induction

/-!
# What recorded values stand for

`Table.Keeps` says which value a handle of a table stands for. Recording keeps step with the
assembly of a value from its events (`Recorder.Follows.feed`), so a collection keeps every value it
observed (`Collection.Observed.keeps`), and no value has more levels than the table has rows.
-/

namespace JsonTyping

namespace Json

mutual

/-- How deep containers are nested in a value. -/
def depth : Json → Nat
  | .null | .bool _ | .number _ | .string _ => 0
  | .array items => depthItems items + 1
  | .object members => depthMembers members + 1

def depthItems : List Json → Nat
  | [] => 0
  | v :: rest => max v.depth (depthItems rest)

def depthMembers : List (String × Json) → Nat
  | [] => 0
  | (_, v) :: rest => max v.depth (depthMembers rest)

end

theorem depthItems_le_iff {items : List Json} {n : Nat} :
    depthItems items ≤ n ↔ ∀ v ∈ items, v.depth ≤ n := by
  induction items with
  | nil => simp [depthItems]
  | cons v rest ih => simp only [depthItems, Nat.max_le, ih, List.forall_mem_cons]

theorem depthMembers_le_iff {members : List (String × Json)} {n : Nat} :
    depthMembers members ≤ n ↔ ∀ m ∈ members, m.2.depth ≤ n := by
  induction members with
  | nil => simp [depthMembers]
  | cons m rest ih => simp only [depthMembers, Nat.max_le, ih, List.forall_mem_cons]

end Json

namespace Table

def rows (t : Table) : Nat := t.objects.size + t.arrays.size

/-- The second table has all that the first one has, at the same indices and rows. -/
structure Extends (t t' : Table) : Prop where
  settings : t'.settings = t.settings
  strings : ∀ (i : Nat) s, t.strings[i]? = some s → t'.strings[i]? = some s
  objects : ∀ (i : Nat) m, t.objects[i]? = some m → t'.objects[i]? = some m
  arrays : ∀ (i : Nat) l, t.arrays[i]? = some l → t'.arrays[i]? = some l
  rows : t.rows ≤ t'.rows

theorem Extends.refl (t : Table) : Extends t t :=
  ⟨rfl, fun _ _ h => h, fun _ _ h => h, fun _ _ h => h, Nat.le_refl _⟩

theorem Extends.trans {t u w : Table} (h : Extends t u) (k : Extends u w) : Extends t w where
  settings := k.settings.trans h.settings
  strings i s hs := k.strings i s (h.strings i s hs)
  objects i m hm := k.objects i m (h.objects i m hm)
  arrays i l hl := k.arrays i l (h.arrays i l hl)
  rows := Nat.le_trans h.rows k.rows

theorem getElem?_push_of_eq_some {α : Type} {a : Array α} {i : Nat} {x y : α}
    (h : a[i]? = some x) : (a.push y)[i]? = some x := by
  obtain ⟨hi, hx⟩ := Array.getElem?_eq_some_iff.1 h
  rw [Array.getElem?_push_lt hi, hx]

theorem getElem?_of_idxOf? {a : Array String} {s : String} {i : Nat} (h : a.idxOf? s = some i) :
    a[i]? = some s := by
  obtain ⟨l⟩ := a
  rw [List.idxOf?_toArray] at h
  obtain ⟨hi, hs, -⟩ := List.idxOf?_eq_some_iff.1 h
  exact Array.getElem?_eq_some_iff.2 ⟨hi, hs⟩

theorem intern_spec (t : Table) (s : String) :
    Extends t (t.intern s).1 ∧ (t.intern s).1.strings[(t.intern s).2]? = some s := by
  unfold intern
  split
  · next i hi => exact ⟨.refl t, getElem?_of_idxOf? hi⟩
  · have hext : Extends t { t with strings := t.strings.push s } :=
      ⟨rfl, fun _ _ h => getElem?_push_of_eq_some h, fun _ _ h => h, fun _ _ h => h, Nat.le_refl _⟩
    exact ⟨hext, Array.getElem?_push_size⟩

theorem addObject_spec (t : Table) (members : List (Nat × Handle)) :
    Extends t (t.addObject members).1 ∧ (t.addObject members).1.rows = t.rows + 1 ∧
      ∃ row, (t.addObject members).2 = .object row ∧
        (t.addObject members).1.objects[row]? = some members := by
  have hrows : (t.addObject members).1.rows = t.rows + 1 := by
    simp only [addObject, rows, Array.size_push]
    omega
  have hext : Extends t (t.addObject members).1 :=
    ⟨rfl, fun _ _ h => h, fun _ _ h => getElem?_push_of_eq_some h, fun _ _ h => h, by omega⟩
  exact ⟨hext, hrows, t.objects.size, rfl, Array.getElem?_push_size⟩

theorem addArray_spec (t : Table) (items : List Handle) :
    Extends t (t.addArray items).1 ∧ (t.addArray items).1.rows = t.rows + 1 ∧
      ∃ row, (t.addArray items).2 = .array row ∧
        (t.addArray items).1.arrays[row]? = some items := by
  have hrows : (t.addArray items).1.rows = t.rows + 1 := by
    simp only [addArray, rows, Array.size_push]
    omega
  have hext : Extends t (t.addArray items).1 :=
    ⟨rfl, fun _ _ h => h, fun _ _ h => h, fun _ _ h => getElem?_push_of_eq_some h, by omega⟩
  exact ⟨hext, hrows, t.arrays.size, rfl, Array.getElem?_push_size⟩

/-! ### Handles and values -/

/-- The handle stands for a text: for the target of a reference, or for any other text. -/
def KeepsText (t : Table) (isTarget : Bool) (h : Handle) (s : String) : Prop :=
  if isTarget then ∃ i, h = .text i ∧ t.strings[i]? = some s
  else
    match t.recognize s with
    | some f =>
      if f.hasTraits then ∃ i, h = .traits i ∧ t.strings[i]? = some s
      else ∃ i, h = .format i ∧ t.strings[i]? = some f.name
    | none =>
      if Text.fitsUnits16 s t.settings.internMaxLen then ∃ i, h = .text i ∧ t.strings[i]? = some s
      else h = .dropped

mutual

/-- The handle stands for a value. -/
def Keeps (t : Table) (isTarget : Bool) (h : Handle) : Json → Prop
  | .null => h = .null
  | .bool b => h = .bool b
  | .number (.integer _) => h = .integer
  | .number (.double _) => h = .double
  | .string s => t.KeepsText isTarget h s
  | .array items => ∃ row hs, h = .array row ∧ t.arrays[row]? = some hs ∧ KeepsItems t hs items
  | .object members =>
    ∃ row hs, h = .object row ∧ t.objects[row]? = some hs ∧ KeepsMembers t hs members

def KeepsItems (t : Table) : List Handle → List Json → Prop
  | hs, [] => hs = []
  | hs, v :: rest => ∃ h hs', hs = h :: hs' ∧ Keeps t false h v ∧ KeepsItems t hs' rest

def KeepsMembers (t : Table) : List (Nat × Handle) → List (String × Json) → Prop
  | hs, [] => hs = []
  | hs, (k, v) :: rest =>
    ∃ i h hs', hs = (i, h) :: hs' ∧ t.strings[i]? = some k
      ∧ Keeps t (t.settings.handleRefs && k == "$ref") h v ∧ KeepsMembers t hs' rest

end

def KeepsMember (t : Table) (m : Nat × Handle) (n : String × Json) : Prop :=
  t.strings[m.1]? = some n.1 ∧ t.Keeps (t.settings.handleRefs && n.1 == "$ref") m.2 n.2

theorem keepsItems_iff {t : Table} {hs : List Handle} {items : List Json} :
    t.KeepsItems hs items ↔ List.Forall₂ (t.Keeps false) hs items := by
  induction items generalizing hs with
  | nil => simp [KeepsItems]
  | cons v rest ih =>
    simp only [KeepsItems, List.forall₂_cons_right_iff, ih]
    constructor
    · rintro ⟨h, hs', rfl, hv, hrest⟩
      exact ⟨h, hs', hv, hrest, rfl⟩
    · rintro ⟨h, hs', hv, hrest, rfl⟩
      exact ⟨h, hs', rfl, hv, hrest⟩

theorem keepsMembers_iff {t : Table} {hs : List (Nat × Handle)} {members : List (String × Json)} :
    t.KeepsMembers hs members ↔ List.Forall₂ t.KeepsMember hs members := by
  induction members generalizing hs with
  | nil => simp [KeepsMembers]
  | cons m rest ih =>
    obtain ⟨k, v⟩ := m
    simp only [KeepsMembers, List.forall₂_cons_right_iff, ih]
    constructor
    · rintro ⟨i, h, hs', rfl, hk, hv, hrest⟩
      exact ⟨(i, h), hs', ⟨hk, hv⟩, hrest, rfl⟩
    · rintro ⟨⟨i, h⟩, hs', ⟨hk, hv⟩, hrest, rfl⟩
      exact ⟨i, h, hs', rfl, hk, hv, hrest⟩

theorem KeepsText.mono {t t' : Table} (ext : Extends t t') {isTarget : Bool} {h : Handle}
    {s : String} (hk : t.KeepsText isTarget h s) : t'.KeepsText isTarget h s := by
  have lift : ∀ {make : Nat → Handle} {kept : String},
      (∃ i, h = make i ∧ t.strings[i]? = some kept) →
        ∃ i, h = make i ∧ t'.strings[i]? = some kept :=
    fun ⟨i, hi, hs⟩ => ⟨i, hi, ext.strings i _ hs⟩
  have hrec : t'.recognize s = t.recognize s := by simp only [recognize, ext.settings]
  unfold KeepsText at hk ⊢
  rw [hrec, ext.settings]
  split at hk
  · next htarget => rw [if_pos htarget]; exact lift hk
  · next htarget =>
    rw [if_neg htarget]
    split at hk
    · split at hk
      · next htraits => rw [if_pos htraits]; exact lift hk
      · next htraits => rw [if_neg htraits]; exact lift hk
    · split at hk
      · next hfits => rw [if_pos hfits]; exact lift hk
      · next hfits => rw [if_neg hfits]; exact hk

mutual

theorem Keeps.mono {t t' : Table} (ext : Extends t t') {isTarget : Bool} {h : Handle} :
    ∀ {v : Json}, t.Keeps isTarget h v → t'.Keeps isTarget h v
  | .null, hk | .bool _, hk | .number (.integer _), hk | .number (.double _), hk => by
    simpa only [Keeps] using hk
  | .string s, hk => by
    simp only [Keeps] at hk ⊢
    exact hk.mono ext
  | .array items, hk => by
    simp only [Keeps] at hk ⊢
    obtain ⟨row, hs, rfl, hrow, hitems⟩ := hk
    exact ⟨row, hs, rfl, ext.arrays row hs hrow, KeepsItems.mono ext hitems⟩
  | .object members, hk => by
    simp only [Keeps] at hk ⊢
    obtain ⟨row, hs, rfl, hrow, hmembers⟩ := hk
    exact ⟨row, hs, rfl, ext.objects row hs hrow, KeepsMembers.mono ext hmembers⟩

theorem KeepsItems.mono {t t' : Table} (ext : Extends t t') {hs : List Handle} :
    ∀ {items : List Json}, t.KeepsItems hs items → t'.KeepsItems hs items
  | [], hk => by simpa only [KeepsItems] using hk
  | v :: rest, hk => by
    simp only [KeepsItems] at hk ⊢
    obtain ⟨h, hs', rfl, hv, hrest⟩ := hk
    exact ⟨h, hs', rfl, Keeps.mono ext hv, KeepsItems.mono ext hrest⟩

theorem KeepsMembers.mono {t t' : Table} (ext : Extends t t') {hs : List (Nat × Handle)} :
    ∀ {members : List (String × Json)}, t.KeepsMembers hs members → t'.KeepsMembers hs members
  | [], hk => by simpa only [KeepsMembers] using hk
  | (k, v) :: rest, hk => by
    simp only [KeepsMembers] at hk ⊢
    obtain ⟨i, h, hs', rfl, hkey, hv, hrest⟩ := hk
    refine ⟨i, h, hs', rfl, ext.strings i k hkey, ?_, KeepsMembers.mono ext hrest⟩
    rw [ext.settings]
    exact Keeps.mono ext hv

end

theorem KeepsMember.mono {t t' : Table} (ext : Extends t t') {m : Nat × Handle}
    {n : String × Json} (h : t.KeepsMember m n) : t'.KeepsMember m n := by
  refine ⟨ext.strings _ _ h.1, ?_⟩
  rw [ext.settings]
  exact h.2.mono ext

theorem addText_spec (t : Table) (isTarget : Bool) (s : String) :
    Extends t (t.addText isTarget s).1 ∧
      (t.addText isTarget s).1.KeepsText isTarget (t.addText isTarget s).2 s := by
  have keep : ∀ kept : String, Extends t (t.intern kept).1 ∧
      (t.intern kept).1.strings[(t.intern kept).2]? = some kept := fun kept => t.intern_spec kept
  have hrec : ∀ kept : String, (t.intern kept).1.recognize s = t.recognize s := fun kept => by
    simp only [recognize, (keep kept).1.settings]
  have hmax : ∀ kept : String, (t.intern kept).1.settings = t.settings := fun kept =>
    (keep kept).1.settings
  unfold addText KeepsText
  by_cases htarget : isTarget
  · simp only [htarget, if_true]
    exact ⟨(keep s).1, _, rfl, (keep s).2⟩
  · simp only [htarget, Bool.false_eq_true, if_false]
    cases hf : t.recognize s with
    | some f =>
      by_cases htraits : f.hasTraits
      · simp only [htraits, if_true, hrec, hf]
        exact ⟨(keep s).1, _, rfl, (keep s).2⟩
      · simp only [htraits, Bool.false_eq_true, if_false, hrec, hf]
        exact ⟨(keep f.name).1, _, rfl, (keep f.name).2⟩
    | none =>
      by_cases hfits : Text.fitsUnits16 s t.settings.internMaxLen
      · simp only [hfits, if_true, hrec, hf, hmax]
        exact ⟨(keep s).1, _, rfl, (keep s).2⟩
      · simp only [hfits, Bool.false_eq_true, if_false, hf]
        exact ⟨.refl t, trivial⟩

end Table

/-! ### Recording and assembling side by side -/

/-- The open row stands for the open container. -/
def OpenRow.Keeps (t : Table) : OpenRow → Json.Partial → Prop
  | .array hs, .array items =>
    List.Forall₂ (t.Keeps false) hs items ∧ Json.depthItems items ≤ t.rows
  | .object hs key, .object members name =>
    List.Forall₂ t.KeepsMember hs members ∧ Json.depthMembers members ≤ t.rows
      ∧ Option.Rel (fun i k => t.strings[i]? = some k) key name
  | _, _ => False

theorem OpenRow.Keeps.mono {t t' : Table} (ext : t.Extends t') {row : OpenRow} {p : Json.Partial}
    (h : row.Keeps t p) : row.Keeps t' p := by
  have hrows := ext.rows
  cases row with
  | array hs =>
    cases p with
    | array items =>
      obtain ⟨hitems, hdepth⟩ := h
      exact ⟨hitems.imp fun _ _ hv => hv.mono ext, Nat.le_trans hdepth hrows⟩
    | object members name => exact h.elim
  | object hs key =>
    cases p with
    | array items => exact h.elim
    | object members name =>
      obtain ⟨hmembers, hdepth, hkey⟩ := h
      refine ⟨hmembers.imp fun _ _ hm => hm.mono ext, Nat.le_trans hdepth hrows, ?_⟩
      cases hkey with
      | some hk => exact .some (ext.strings _ _ hk)
      | none => exact .none

namespace Recorder

/-- The recorder has recorded what the assembly has assembled. -/
structure Follows (r : Recorder) (a : Json.Assembly) : Prop where
  enclosing : List.Forall₂ (OpenRow.Keeps r.table) r.enclosing a.enclosing
  root : Option.Rel (fun h v => r.table.Keeps false h v ∧ v.depth ≤ r.table.rows) r.root a.result

theorem Follows.mono {r : Recorder} {a : Json.Assembly} (h : r.Follows a) {t : Table}
    (ext : r.table.Extends t) : Follows { r with table := t } a where
  enclosing := h.enclosing.imp fun _ _ hrow => hrow.mono ext
  root := by
    obtain ⟨table, enclosing, root⟩ := r
    obtain ⟨opened, result⟩ := a
    cases h.root with
    | some hv => exact .some ⟨hv.1.mono ext, Nat.le_trans hv.2 ext.rows⟩
    | none => exact .none

/-- A step of the recorder and the same step of the assembly: both succeed and the recorder still
follows, or both refuse. -/
def InStep (t : Table) (x : Except Misuse Recorder) (y : Option Json.Assembly) : Prop :=
  (∃ r a, x = .ok r ∧ y = some a ∧ t.Extends r.table ∧ r.Follows a) ∨
    (∃ e, x = .error e) ∧ y = none

theorem InStep.of_extends {t u : Table} {x : Except Misuse Recorder} {y : Option Json.Assembly}
    (ext : t.Extends u) (h : InStep u x y) : InStep t x y := by
  rcases h with ⟨r, a, hr, ha, hext, hf⟩ | h
  · exact .inl ⟨r, a, hr, ha, ext.trans hext, hf⟩
  · exact .inr h

/-- A step of the recorder that succeeds is a step of the assembly. -/
theorem InStep.of_ok {t : Table} {x : Except Misuse Recorder} {y : Option Json.Assembly}
    (h : InStep t x y) {r : Recorder} (hx : x = .ok r) :
    ∃ a, y = some a ∧ t.Extends r.table ∧ r.Follows a := by
  rcases h with ⟨r', a, hr, ha, ext, hf⟩ | ⟨⟨e, he⟩, -⟩
  · cases hx.symm.trans hr
    exact ⟨a, ha, ext, hf⟩
  · cases hx.symm.trans he

/-- And a step of the assembly that succeeds is one of the recorder. -/
theorem InStep.of_some {t : Table} {x : Except Misuse Recorder} {y : Option Json.Assembly}
    (h : InStep t x y) {a : Json.Assembly} (hy : y = some a) :
    ∃ r, x = .ok r ∧ t.Extends r.table ∧ r.Follows a := by
  rcases h with ⟨r, a', hr, ha, ext, hf⟩ | ⟨-, hnone⟩
  · cases hy.symm.trans ha
    exact ⟨r, hr, ext, hf⟩
  · cases hy.symm.trans hnone

theorem Follows.put {r : Recorder} {a : Json.Assembly} (hf : r.Follows a) {h : Handle} {v : Json}
    (hv : r.table.Keeps r.expectsTarget h v) (hd : v.depth ≤ r.table.rows) :
    InStep r.table (r.put h) (a.put v) := by
  obtain ⟨table, enclosing, root⟩ := r
  obtain ⟨opened, result⟩ := a
  obtain ⟨henc, hroot⟩ := hf
  cases henc with
  | nil =>
    cases hroot with
    | none => exact .inl ⟨_, _, rfl, rfl, .refl table, ⟨.nil, .some ⟨hv, hd⟩⟩⟩
    | some _ => exact .inr ⟨⟨_, rfl⟩, rfl⟩
  | @cons row p outer opened hrow hrest =>
    cases row with
    | array hs =>
      cases p with
      | object members name => exact hrow.elim
      | array items =>
        refine .inl ⟨_, _, rfl, rfl, .refl table, ⟨.cons ⟨.cons hv hrow.1, ?_⟩ hrest, hroot⟩⟩
        simp only [Json.depthItems, Nat.max_le]
        exact ⟨hd, hrow.2⟩
    | object hs key =>
      cases p with
      | array items => exact hrow.elim
      | object members name =>
        obtain ⟨hmembers, hdepth, hkey⟩ := hrow
        cases hkey with
        | none => exact .inr ⟨⟨_, rfl⟩, rfl⟩
        | @some i k hk =>
          have hname : table.string i = k := by simp only [Table.string, hk, Option.getD_some]
          simp only [expectsTarget, hname] at hv
          refine .inl ⟨_, _, rfl, rfl, .refl table,
            ⟨.cons ⟨.cons ⟨hk, hv⟩ hmembers, ?_, .none⟩ hrest, hroot⟩⟩
          simp only [Json.depthMembers, Nat.max_le]
          exact ⟨hd, hdepth⟩

theorem Follows.expectsTarget_mono {r : Recorder} {a : Json.Assembly} (hf : r.Follows a)
    {t : Table} (ext : r.table.Extends t) :
    expectsTarget { r with table := t } = r.expectsTarget := by
  obtain ⟨table, enclosing, root⟩ := r
  obtain ⟨opened, result⟩ := a
  cases hf.enclosing with
  | nil => rfl
  | @cons row p outer opened hrow hrest =>
    cases row with
    | array hs => rfl
    | object hs key =>
      cases p with
      | array items => exact hrow.elim
      | object members name =>
        obtain ⟨-, -, hkey⟩ := hrow
        cases hkey with
        | none => rfl
        | @some i k hk =>
          have hk' : t.strings[i]? = some k := ext.strings i k hk
          have hs : t.settings = table.settings := ext.settings
          simp only [expectsTarget, Table.string, hk, hk', hs]

theorem Follows.putText {r : Recorder} {a : Json.Assembly} (hf : r.Follows a) (s : String) :
    InStep r.table (r.feed (.string s)) (a.put (.string s)) := by
  obtain ⟨ext, hkeeps⟩ := r.table.addText_spec r.expectsTarget s
  have hput := (hf.mono ext).put (h := (r.table.addText r.expectsTarget s).2) (v := .string s)
    (by
      rw [hf.expectsTarget_mono ext]
      simpa only [Table.Keeps] using hkeeps)
    (Nat.zero_le _)
  exact hput.of_extends ext

theorem Follows.setKey {r : Recorder} {a : Json.Assembly} (hf : r.Follows a) (name : String) :
    InStep r.table (r.feed (.key name)) (a.feed (.key name)) := by
  obtain ⟨ext, hkept⟩ := r.table.intern_spec name
  have hf' := hf.mono ext
  obtain ⟨table, enclosing, root⟩ := r
  obtain ⟨opened, result⟩ := a
  obtain ⟨henc, hroot⟩ := hf'
  cases henc with
  | nil => exact .inr ⟨⟨_, rfl⟩, rfl⟩
  | @cons row p outer opened hrow hrest =>
    cases row with
    | array hs =>
      cases p with
      | array items => exact .inr ⟨⟨_, rfl⟩, rfl⟩
      | object members name => exact hrow.elim
    | object hs key =>
      cases p with
      | array items => exact hrow.elim
      | object members known =>
        obtain ⟨hmembers, hdepth, hkey⟩ := hrow
        cases hkey with
        | some _ => exact .inr ⟨⟨_, rfl⟩, rfl⟩
        | none =>
          exact .inl ⟨_, _, rfl, rfl, ext, ⟨.cons ⟨hmembers, hdepth, .some hkept⟩ hrest, hroot⟩⟩

theorem Follows.endArray {r : Recorder} {a : Json.Assembly} (hf : r.Follows a) :
    InStep r.table (r.feed .endArray) (a.feed .endArray) := by
  obtain ⟨table, enclosing, root⟩ := r
  obtain ⟨opened, result⟩ := a
  obtain ⟨henc, hroot⟩ := hf
  cases henc with
  | nil => exact .inr ⟨⟨_, rfl⟩, rfl⟩
  | @cons row p outer opened hrow hrest =>
    cases row with
    | object hs key =>
      cases p with
      | array items => exact hrow.elim
      | object members name => exact .inr ⟨⟨_, rfl⟩, rfl⟩
    | array hs =>
      cases p with
      | object members name => exact hrow.elim
      | array items =>
        obtain ⟨ext, hrows, row, hrow', hget⟩ := table.addArray_spec hs.reverse
        have houter : Follows ⟨table, outer, root⟩ ⟨opened, result⟩ := ⟨hrest, hroot⟩
        have hitems : List.Forall₂ (table.Keeps false) hs.reverse items.reverse :=
          List.forall₂_reverse_iff.2 hrow.1
        have hdepth : Json.depthItems items.reverse ≤ table.rows := by
          have h := Json.depthItems_le_iff.1 hrow.2
          exact Json.depthItems_le_iff.2 fun v hv => h v (List.mem_reverse.1 hv)
        have hput := (houter.mono ext).put (h := (table.addArray hs.reverse).2)
          (v := .array items.reverse)
          (by
            simp only [Table.Keeps]
            refine ⟨row, hs.reverse, hrow', hget, ?_⟩
            exact Table.keepsItems_iff.2 (hitems.imp fun _ _ hv => hv.mono ext))
          (by
            change Json.depthItems items.reverse + 1 ≤ (table.addArray hs.reverse).1.rows
            omega)
        exact hput.of_extends ext

theorem Follows.endObject {r : Recorder} {a : Json.Assembly} (hf : r.Follows a) :
    InStep r.table (r.feed .endObject) (a.feed .endObject) := by
  obtain ⟨table, enclosing, root⟩ := r
  obtain ⟨opened, result⟩ := a
  obtain ⟨henc, hroot⟩ := hf
  cases henc with
  | nil => exact .inr ⟨⟨_, rfl⟩, rfl⟩
  | @cons row p outer opened hrow hrest =>
    cases row with
    | array hs =>
      cases p with
      | array items => exact .inr ⟨⟨_, rfl⟩, rfl⟩
      | object members name => exact hrow.elim
    | object hs key =>
      cases p with
      | array items => exact hrow.elim
      | object members name =>
        obtain ⟨hrow1, hrow2, hkey⟩ := hrow
        cases hkey with
        | some _ => exact .inr ⟨⟨_, rfl⟩, rfl⟩
        | none =>
          obtain ⟨ext, hrows, row, hrow', hget⟩ := table.addObject_spec hs.reverse
          have houter : Follows ⟨table, outer, root⟩ ⟨opened, result⟩ := ⟨hrest, hroot⟩
          have hmembers : List.Forall₂ table.KeepsMember hs.reverse members.reverse :=
            List.forall₂_reverse_iff.2 hrow1
          have hdepth : Json.depthMembers members.reverse ≤ table.rows := by
            have h := Json.depthMembers_le_iff.1 hrow2
            exact Json.depthMembers_le_iff.2 fun m hm => h m (List.mem_reverse.1 hm)
          have hput := (houter.mono ext).put (h := (table.addObject hs.reverse).2)
            (v := .object members.reverse)
            (by
              simp only [Table.Keeps]
              refine ⟨row, hs.reverse, hrow', hget, ?_⟩
              exact Table.keepsMembers_iff.2 (hmembers.imp fun _ _ hm => hm.mono ext))
            (by
              change Json.depthMembers members.reverse + 1 ≤ (table.addObject hs.reverse).1.rows
              omega)
          exact hput.of_extends ext

/-- Event by event the recorder keeps step with the assembly. -/
theorem Follows.feed {r : Recorder} {a : Json.Assembly} (hf : r.Follows a) (e : Event) :
    InStep r.table (r.feed e) (a.feed e) := by
  have opens : ∀ {row : OpenRow} {p : Json.Partial}, row.Keeps r.table p →
      InStep r.table (.ok { r with enclosing := row :: r.enclosing })
        (some { a with enclosing := p :: a.enclosing }) := fun hrow =>
    .inl ⟨_, _, rfl, rfl, .refl _, ⟨.cons hrow hf.enclosing, hf.root⟩⟩
  cases e with
  | null => exact hf.put (by simp only [Table.Keeps]) (Nat.zero_le _)
  | bool b => exact hf.put (by simp only [Table.Keeps]) (Nat.zero_le _)
  | number n =>
    cases n with
    | integer i => exact hf.put (by simp only [Table.Keeps]) (Nat.zero_le _)
    | double x => exact hf.put (by simp only [Table.Keeps]) (Nat.zero_le _)
  | string s => exact hf.putText s
  | beginArray => exact opens ⟨.nil, Nat.zero_le _⟩
  | endArray => exact hf.endArray
  | beginObject => exact opens ⟨.nil, Nat.zero_le _, .none⟩
  | key name => exact hf.setKey name
  | endObject => exact hf.endObject

theorem Follows.feedAll {r : Recorder} {a : Json.Assembly} (hf : r.Follows a)
    (events : List Event) :
    InStep r.table (events.foldlM Recorder.feed r) (events.foldlM Json.Assembly.feed a) := by
  induction events generalizing r a with
  | nil => exact .inl ⟨r, a, rfl, rfl, .refl _, hf⟩
  | cons e rest ih =>
    simp only [List.foldlM_cons]
    rcases hf.feed e with ⟨r', a', hr, ha, ext, hf'⟩ | ⟨⟨x, hr⟩, ha⟩
    · rw [hr, ha]
      exact (ih hf').of_extends ext
    · rw [hr, ha]
      exact .inr ⟨⟨x, rfl⟩, rfl⟩

end Recorder

namespace Json

mutual

/-- The events of a value put it where a finished value goes. -/
theorem foldlM_events (a : Assembly) : ∀ v : Json, v.events.foldlM Assembly.feed a = a.put v
  | .null => by simp only [events, List.foldlM_cons, List.foldlM_nil, Assembly.feed, bind_pure]
  | .bool b => by simp only [events, List.foldlM_cons, List.foldlM_nil, Assembly.feed, bind_pure]
  | .number n => by simp only [events, List.foldlM_cons, List.foldlM_nil, Assembly.feed, bind_pure]
  | .string s => by simp only [events, List.foldlM_cons, List.foldlM_nil, Assembly.feed, bind_pure]
  | .array items => by
    have hitems := foldlM_eventsOfItems a.enclosing a.result [] items
    simp only [events, List.foldlM_cons, List.foldlM_append, List.foldlM_nil, Assembly.feed,
      Option.bind_eq_bind, Option.bind_some, hitems, bind_pure]
    simp only [List.append_nil, List.reverse_reverse]
  | .object members => by
    have hmembers := foldlM_eventsOfMembers a.enclosing a.result [] members
    simp only [events, List.foldlM_cons, List.foldlM_append, List.foldlM_nil, Assembly.feed,
      Option.bind_eq_bind, Option.bind_some, hmembers, bind_pure]
    simp only [List.append_nil, List.reverse_reverse]

theorem foldlM_eventsOfItems (outer : List Partial) (result : Option Json) (done : List Json) :
    ∀ items : List Json,
      (eventsOfItems items).foldlM Assembly.feed ⟨.array done :: outer, result⟩ =
        some ⟨.array (items.reverse ++ done) :: outer, result⟩
  | [] => rfl
  | v :: rest => by
    have hv := foldlM_events ⟨.array done :: outer, result⟩ v
    have hrest := foldlM_eventsOfItems outer result (v :: done) rest
    simp only [eventsOfItems, List.foldlM_append, hv, Assembly.put, Option.bind_eq_bind,
      Option.bind_some, hrest, List.reverse_cons, List.append_assoc, List.cons_append,
      List.nil_append]

theorem foldlM_eventsOfMembers (outer : List Partial) (result : Option Json)
    (done : List (String × Json)) :
    ∀ members : List (String × Json),
      (eventsOfMembers members).foldlM Assembly.feed ⟨.object done none :: outer, result⟩ =
        some ⟨.object (members.reverse ++ done) none :: outer, result⟩
  | [] => rfl
  | (k, v) :: rest => by
    have hv := foldlM_events ⟨.object done (some k) :: outer, result⟩ v
    have hrest := foldlM_eventsOfMembers outer result ((k, v) :: done) rest
    simp only [eventsOfMembers, List.foldlM_cons, List.foldlM_append, hv, Assembly.feed,
      Assembly.put, Option.bind_eq_bind, Option.bind_some, hrest, List.reverse_cons,
      List.append_assoc, List.cons_append, List.nil_append]

end

end Json

/-! ### Collections -/

/-- Nothing is open, and nothing waits to be taken. -/
def Recorder.Idle (r : Recorder) : Prop := r.enclosing = [] ∧ r.root = none

theorem Recorder.Idle.follows {r : Recorder} (h : r.Idle) : r.Follows .start := by
  obtain ⟨table, enclosing, root⟩ := r
  obtain ⟨henc, hroot⟩ := h
  change enclosing = [] at henc
  change root = none at hroot
  subst henc hroot
  exact ⟨.nil, .none⟩

/-- What a recorder that was idle recorded and gave away. -/
theorem Recorder.Follows.finish {r : Recorder} {a : Json.Assembly} (hf : r.Follows a) {v : Json}
    (henc : a.enclosing = []) (hroot : a.result = some v) :
    ∃ r' h, r.finish = .ok (r', h) ∧ r'.table = r.table ∧ r'.Idle ∧
      r.table.Keeps false h v ∧ v.depth ≤ r.table.rows := by
  obtain ⟨table, enclosing, root⟩ := r
  obtain ⟨opened, result⟩ := a
  obtain ⟨h1, h2⟩ := hf
  subst henc hroot
  cases h1 with
  | nil =>
    cases h2 with
    | @some h _ hv => exact ⟨_, h, rfl, rfl, ⟨rfl, rfl⟩, hv⟩

theorem Recorder.Follows.of_finish {r r' : Recorder} {a : Json.Assembly} {h : Handle}
    (hf : r.Follows a) (hok : r.finish = .ok (r', h)) :
    a.enclosing = [] ∧ ∃ v, a.result = some v := by
  obtain ⟨table, enclosing, root⟩ := r
  obtain ⟨opened, result⟩ := a
  obtain ⟨h1, h2⟩ := hf
  cases h1 with
  | cons _ _ => cases hok
  | nil =>
    cases h2 with
    | none => cases hok
    | some hv => exact ⟨rfl, _, rfl⟩

/-- A document is always recorded, and the recorder keeps it. -/
theorem Recorder.Idle.addDocument {r : Recorder} (hidle : r.Idle) (v : Json) :
    ∃ r' h, r.addDocument v = .ok (r', h) ∧ r.table.Extends r'.table ∧ r'.Idle ∧
      r'.table.Keeps false h v ∧ v.depth ≤ r'.table.rows := by
  have hassembled : v.events.foldlM Json.Assembly.feed .start = some ⟨[], some v⟩ :=
    Json.foldlM_events .start v
  obtain ⟨r₁, hr, ext, hf⟩ := (hidle.follows.feedAll v.events).of_some hassembled
  obtain ⟨r', h, hfin, htable, hidle', hv⟩ := hf.finish rfl rfl
  refine ⟨r', h, ?_, htable ▸ ext, hidle', htable ▸ hv⟩
  simp only [Recorder.addDocument, hr]
  exact hfin

/-- The recorder keeps the value of a text that it took. -/
theorem Recorder.Idle.addText {r r' : Recorder} (hidle : r.Idle) {s : String}
    {result : Except Json.ReadError Handle} (hok : r.addText s = .ok (r', result)) :
    r.table.Extends r'.table ∧ r'.Idle ∧
      ∀ h, result = .ok h →
        ∃ v, Json.read s = .ok v ∧ r'.table.Keeps false h v ∧ v.depth ≤ r'.table.rows := by
  rcases hidle.follows.feedAll ((Json.readEvents s.toUTF8.toList).events.map (·.event)) with
    ⟨r₁, a, hr, ha, ext, hf⟩ | ⟨⟨x, hx⟩, -⟩
  · simp only [Recorder.addText, hr] at hok
    cases hfault : (Json.readEvents s.toUTF8.toList).fault with
    | some fault =>
      simp only [hfault] at hok
      cases hok
      exact ⟨ext, ⟨rfl, rfl⟩, fun h hh => by cases hh⟩
    | none =>
      simp only [hfault, ok_bind] at hok
      cases hfin : r₁.finish with
      | error e =>
        rw [hfin] at hok
        cases hok
      | ok p =>
        obtain ⟨r₂, h⟩ := p
        rw [hfin] at hok
        cases hok
        obtain ⟨henc, v, hres⟩ := hf.of_finish hfin
        obtain ⟨r₃, h₃, hfin', htable, hidle', hv⟩ := hf.finish henc hres
        rw [hfin] at hfin'
        cases hfin'
        refine ⟨htable ▸ ext, hidle', fun h' hh => ?_⟩
        cases hh
        refine ⟨v, ?_, htable ▸ hv⟩
        have hread : Json.ofEvents? ((Json.readEvents s.toUTF8.toList).events.map (·.event)) =
            some v := by
          simp only [Json.ofEvents?, ha, Option.bind_eq_bind, Option.bind_some, henc, hres,
            List.isEmpty_nil, if_true]
        simp only [Json.read, Json.readBytes, hfault, hread]
  · simp only [Recorder.addText, hx] at hok
    cases hok

namespace Collection

/-- A collection that has observed these values in this order: as documents, or as texts of which
the refused ones are no samples. -/
inductive Observed (settings : Settings) : List Json → Collection → Prop
  | empty : Observed settings [] (.empty settings)
  | document {values : List Json} {c c' : Collection} {v : Json} :
    Observed settings values c → c.observeDocument v = .ok c' →
      Observed settings (values ++ [v]) c'
  | text {values : List Json} {c c' : Collection} {s : String} {v : Json} :
    Observed settings values c → c.observeText s = .ok (c', .ok ()) → Json.read s = .ok v →
      Observed settings (values ++ [v]) c'
  | refused {values : List Json} {c c' : Collection} {s : String} {e : Json.ReadError} :
    Observed settings values c → c.observeText s = .ok (c', .error e) →
      Observed settings values c'

/-- The collection keeps these values. -/
structure Keeps (settings : Settings) (values : List Json) (c : Collection) : Prop where
  settings : c.recorder.table.settings = settings
  idle : c.recorder.Idle
  roots : List.Forall₂ (c.recorder.table.Keeps false) c.roots values
  depth : ∀ v ∈ values, v.depth ≤ c.recorder.table.rows

theorem Keeps.mono {settings : Settings} {values : List Json} {c : Collection}
    (h : Keeps settings values c) {r : Recorder} (hidle : r.Idle)
    (ext : c.recorder.table.Extends r.table) : Keeps settings values ⟨r, c.roots⟩ where
  settings := ext.settings.trans h.settings
  idle := hidle
  roots := h.roots.imp fun _ _ hv => hv.mono ext
  depth v hv := Nat.le_trans (h.depth v hv) ext.rows

theorem Keeps.append {settings : Settings} {values : List Json} {c : Collection}
    (h : Keeps settings values c) {v : Json} {root : Handle}
    (hv : c.recorder.table.Keeps false root v) (hd : v.depth ≤ c.recorder.table.rows) :
    Keeps settings (values ++ [v]) ⟨c.recorder, c.roots ++ [root]⟩ where
  settings := h.settings
  idle := h.idle
  roots := List.rel_append h.roots (.cons hv .nil)
  depth w hw := by
    rcases List.mem_append.1 hw with hw | hw
    · exact h.depth w hw
    · rwa [List.mem_singleton.1 hw]

/-- A document is always observed. -/
theorem Keeps.observeDocument {settings : Settings} {values : List Json} {c : Collection}
    (h : Keeps settings values c) (v : Json) :
    ∃ c', c.observeDocument v = .ok c' ∧ Keeps settings (values ++ [v]) c' := by
  obtain ⟨r, root, hr, ext, hidle, hv, hd⟩ := h.idle.addDocument v
  refine ⟨⟨r, c.roots ++ [root]⟩, ?_, (h.mono hidle ext).append hv hd⟩
  simp only [Collection.observeDocument, hr]
  rfl

theorem Keeps.observeText {settings : Settings} {values : List Json} {c c' : Collection}
    (h : Keeps settings values c) {s : String} {result : Except Json.ReadError Unit}
    (hok : c.observeText s = .ok (c', result)) :
    (∃ v, Json.read s = .ok v ∧ result = .ok () ∧ Keeps settings (values ++ [v]) c') ∨
      (∃ e, result = .error e) ∧ Keeps settings values c' := by
  cases hr : c.recorder.addText s with
  | error e =>
    simp only [Collection.observeText, hr] at hok
    cases hok
  | ok p =>
    obtain ⟨r, taken⟩ := p
    obtain ⟨ext, hidle, hkept⟩ := h.idle.addText hr
    simp only [Collection.observeText, hr] at hok
    cases taken with
    | ok root =>
      cases hok
      obtain ⟨v, hread, hv, hd⟩ := hkept root rfl
      exact .inl ⟨v, hread, rfl, (h.mono hidle ext).append hv hd⟩
    | error e =>
      cases hok
      exact .inr ⟨⟨e, rfl⟩, h.mono hidle ext⟩

/-- A collection keeps what it observed. -/
theorem Observed.keeps {settings : Settings} {values : List Json} {c : Collection}
    (h : Observed settings values c) : Keeps settings values c := by
  induction h with
  | empty =>
    exact ⟨rfl, ⟨rfl, rfl⟩, .nil, fun v hv => by cases hv⟩
  | @document values c c' v _ hok ih =>
    obtain ⟨c'', hok', hkeeps⟩ := ih.observeDocument v
    rw [hok] at hok'
    cases hok'
    exact hkeeps
  | text _ hok hread ih =>
    rcases ih.observeText hok with ⟨v, hread', -, hkeeps⟩ | ⟨⟨e, he⟩, -⟩
    · rw [hread] at hread'
      cases hread'
      exact hkeeps
    · cases he
  | refused _ hok ih =>
    rcases ih.observeText hok with ⟨v, -, hresult, -⟩ | ⟨-, hkeeps⟩
    · cases hresult
    · exact hkeeps

/-- Every list of values is observed by some collection. -/
theorem exists_observed (settings : Settings) (values : List Json) :
    ∃ c, values.foldlM observeDocument (.empty settings) = .ok c ∧ Observed settings values c := by
  induction values using List.reverseRecOn with
  | nil => exact ⟨_, rfl, .empty⟩
  | append_singleton values v ih =>
    obtain ⟨c, hfold, hobs⟩ := ih
    obtain ⟨c', hok, -⟩ := hobs.keeps.observeDocument v
    refine ⟨c', ?_, hobs.document hok⟩
    rw [List.foldlM_append, hfold]
    change ([v].foldlM observeDocument c) = _
    simp only [List.foldlM_cons, List.foldlM_nil, hok]
    rfl

end Collection

end JsonTyping
