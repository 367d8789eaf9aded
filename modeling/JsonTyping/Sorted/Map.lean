/-!
# Finite maps kept in key order

A `SortedMap` lists its entries with strictly increasing keys. Reading a key back after an update is
`find?_insert`.
-/

namespace JsonTyping

universe u v

/-- A finite map: its entries in strictly increasing order of their keys. -/
structure SortedMap (α : Type u) (β : Type v) [Ord α] where
  entries : List (α × β)
  sorted : entries.Pairwise fun a b => compare a.1 b.1 = .lt
  deriving DecidableEq

namespace SortedMap

variable {α : Type u} {β : Type v} [Ord α]

/-- Gives the key `a` the value that `f` makes of its present one, if any. -/
def place (a : α) (f : Option β → β) : List (α × β) → List (α × β)
  | [] => [(a, f none)]
  | (b, y) :: rest =>
    match compare a b with
    | .lt => (a, f none) :: (b, y) :: rest
    | .eq => (b, f (some y)) :: rest
    | .gt => (b, y) :: place a f rest

theorem key_of_mem_place [Std.LawfulEqOrd α] {a : α} {f : Option β → β} {l : List (α × β)}
    {e : α × β} (h : e ∈ place a f l) : e.1 = a ∨ ∃ e' ∈ l, e'.1 = e.1 := by
  induction l with
  | nil =>
    simp only [place, List.mem_singleton] at h
    exact .inl (by simp [h])
  | cons p rest ih =>
    obtain ⟨b, y⟩ := p
    simp only [place] at h
    split at h
    · rcases List.mem_cons.1 h with rfl | h
      · exact .inl rfl
      · exact .inr ⟨e, h, rfl⟩
    · rcases List.mem_cons.1 h with rfl | h
      · exact .inr ⟨(b, y), List.mem_cons_self, rfl⟩
      · exact .inr ⟨e, List.mem_cons_of_mem _ h, rfl⟩
    · rcases List.mem_cons.1 h with rfl | h
      · exact .inr ⟨(b, y), List.mem_cons_self, rfl⟩
      · rcases ih h with h | ⟨e', he', hk⟩
        · exact .inl h
        · exact .inr ⟨e', List.mem_cons_of_mem _ he', hk⟩

theorem pairwise_place [Std.TransOrd α] [Std.LawfulEqOrd α] (a : α) (f : Option β → β)
    {l : List (α × β)} (h : l.Pairwise fun x y => compare x.1 y.1 = .lt) :
    (place a f l).Pairwise fun x y => compare x.1 y.1 = .lt := by
  induction l with
  | nil => simp [place]
  | cons p rest ih =>
    obtain ⟨b, y⟩ := p
    have hb := List.pairwise_cons.1 h
    simp only [place]
    split
    · next hab =>
      refine List.pairwise_cons.2 ⟨fun x hx => ?_, h⟩
      rcases List.mem_cons.1 hx with rfl | hx
      · exact hab
      · exact Std.TransCmp.lt_trans hab (hb.1 x hx)
    · exact List.pairwise_cons.2 ⟨hb.1, hb.2⟩
    · next hab =>
      refine List.pairwise_cons.2 ⟨fun x hx => ?_, ih hb.2⟩
      rcases key_of_mem_place hx with hk | ⟨e', he', hk⟩
      · rw [hk]
        exact Std.OrientedCmp.gt_iff_lt.1 hab
      · rw [← hk]
        exact hb.1 e' he'

def empty : SortedMap α β := ⟨[], .nil⟩

instance : EmptyCollection (SortedMap α β) := ⟨empty⟩

instance : Inhabited (SortedMap α β) := ⟨empty⟩

def size (m : SortedMap α β) : Nat := m.entries.length

def keys (m : SortedMap α β) : List α := m.entries.map (·.1)

def values (m : SortedMap α β) : List β := m.entries.map (·.2)

def find? [BEq α] (m : SortedMap α β) (a : α) : Option β := m.entries.lookup a

def contains [BEq α] (m : SortedMap α β) (a : α) : Bool := (m.find? a).isSome

def erase [BEq α] (m : SortedMap α β) (a : α) : SortedMap α β :=
  ⟨m.entries.filter (·.1 != a), m.sorted.sublist List.filter_sublist⟩

variable [Std.TransOrd α] [Std.LawfulEqOrd α]

def alter (m : SortedMap α β) (a : α) (f : Option β → β) : SortedMap α β :=
  ⟨place a f m.entries, pairwise_place a f m.sorted⟩

def insert (m : SortedMap α β) (a : α) (b : β) : SortedMap α β := m.alter a fun _ => b

/-- The entries of `l`; of two with the same key the later one counts. -/
def ofList (l : List (α × β)) : SortedMap α β := l.foldl (fun m e => m.insert e.1 e.2) empty

section Lookup

variable [DecidableEq α]

omit [Ord α] [Std.TransOrd α] [Std.LawfulEqOrd α] in
theorem lookup_cons_eq (x b : α) (y : β) (l : List (α × β)) :
    ((b, y) :: l).lookup x = if x = b then some y else l.lookup x := by
  change (match x == b with | true => some y | false => l.lookup x) = _
  by_cases hx : x = b
  · simp [hx]
  · simp [beq_false_of_ne hx, hx]

omit [Std.TransOrd α] in
theorem lookup_eq_none_of_lt {a : α} {l : List (α × β)}
    (h : ∀ e ∈ l, compare a e.1 = .lt) : l.lookup a = none := by
  induction l with
  | nil => rfl
  | cons p rest ih =>
    obtain ⟨b, y⟩ := p
    have hne : a ≠ b := by
      rintro rfl
      have hlt := h (a, y) List.mem_cons_self
      simp [Std.ReflCmp.compare_self] at hlt
    rw [lookup_cons_eq, if_neg hne]
    exact ih fun e he => h e (List.mem_cons_of_mem _ he)

theorem lookup_place {a x : α} {f : Option β → β} {l : List (α × β)}
    (h : l.Pairwise fun x y => compare x.1 y.1 = .lt) :
    (place a f l).lookup x = if x = a then some (f (l.lookup a)) else l.lookup x := by
  induction l with
  | nil => exact lookup_cons_eq x a _ []
  | cons p rest ih =>
    obtain ⟨b, y⟩ := p
    have hb := List.pairwise_cons.1 h
    simp only [place]
    split
    · next hab =>
      have hne : a ≠ b := by
        rintro rfl
        simp [Std.ReflCmp.compare_self] at hab
      have hnone : rest.lookup a = none :=
        lookup_eq_none_of_lt fun e he => Std.TransCmp.lt_trans hab (hb.1 e he)
      rw [lookup_cons_eq x a, lookup_cons_eq a b, if_neg hne, hnone]
    · next hab =>
      have : a = b := Std.LawfulEqCmp.eq_of_compare hab
      subst this
      by_cases hx : x = a
      · simp [hx]
      · simp [lookup_cons_eq, hx]
    · next hab =>
      have hne : a ≠ b := by
        rintro rfl
        simp [Std.ReflCmp.compare_self] at hab
      rw [lookup_cons_eq x b, lookup_cons_eq a b, lookup_cons_eq x b, if_neg hne, ih hb.2]
      by_cases hxb : x = b
      · subst hxb
        simp [Ne.symm hne]
      · simp [hxb]

/-- Reading after an update: the updated key has the new value, every other key keeps its own. -/
theorem find?_alter (m : SortedMap α β) (a x : α) (f : Option β → β) :
    (m.alter a f).find? x = if x = a then some (f (m.find? a)) else m.find? x :=
  lookup_place m.sorted

theorem find?_insert (m : SortedMap α β) (a x : α) (b : β) :
    (m.insert a b).find? x = if x = a then some b else m.find? x :=
  find?_alter m a x _

omit [Std.TransOrd α] in
theorem find?_eq_some_iff {m : SortedMap α β} {a : α} {b : β} :
    m.find? a = some b ↔ (a, b) ∈ m.entries := by
  obtain ⟨l, hl⟩ := m
  change l.lookup a = some b ↔ (a, b) ∈ l
  induction l with
  | nil => simp
  | cons p rest ih =>
    obtain ⟨k, y⟩ := p
    have hk := List.pairwise_cons.1 hl
    rw [lookup_cons_eq, List.mem_cons]
    by_cases hak : a = k
    · subst hak
      have hrest : (a, b) ∉ rest := fun hmem => by
        have hlt := hk.1 (a, b) hmem
        simp [Std.ReflCmp.compare_self] at hlt
      simp [hrest, eq_comm]
    · rw [if_neg hak, ih hk.2]
      simp [hak]

omit [Std.TransOrd α] in
theorem mem_keys {m : SortedMap α β} {a : α} : a ∈ m.keys ↔ ∃ b, m.find? a = some b := by
  simp only [keys, List.mem_map, find?_eq_some_iff]
  constructor
  · rintro ⟨⟨k, b⟩, hmem, rfl⟩
    exact ⟨b, hmem⟩
  · rintro ⟨b, hmem⟩
    exact ⟨(a, b), hmem, rfl⟩

omit [Std.TransOrd α] [Std.LawfulEqOrd α] in
theorem find?_erase (m : SortedMap α β) (a x : α) :
    (m.erase a).find? x = if x = a then none else m.find? x := by
  obtain ⟨l, hl⟩ := m
  change (l.filter (·.1 != a)).lookup x = if x = a then none else l.lookup x
  clear hl
  induction l with
  | nil => simp
  | cons p rest ih =>
    obtain ⟨k, y⟩ := p
    by_cases hka : k = a
    · subst hka
      rw [List.filter_cons_of_neg (by simp), ih, lookup_cons_eq]
      by_cases hx : x = k <;> simp [hx]
    · rw [List.filter_cons_of_pos (by simpa using hka), lookup_cons_eq, lookup_cons_eq, ih]
      by_cases hx : x = k
      · subst hx
        simp [hka]
      · simp [hx]

theorem ext_find? {m n : SortedMap α β} (h : ∀ a, m.find? a = n.find? a) : m = n := by
  have hmem : ∀ e, e ∈ m.entries ↔ e ∈ n.entries := fun e => by
    rw [← find?_eq_some_iff (a := e.1) (b := e.2), h, find?_eq_some_iff]
  have hnodup : ∀ k : SortedMap α β, k.entries.Nodup := fun k =>
    k.sorted.imp fun hlt heq => by
      subst heq
      simp [Std.ReflCmp.compare_self] at hlt
  have hperm := (List.perm_ext_iff_of_nodup (hnodup m) (hnodup n)).2 hmem
  have hentries : m.entries = n.entries := by
    refine hperm.eq_of_pairwise (fun a b _ _ hab hba => ?_) m.sorted n.sorted
    have haa := Std.TransCmp.lt_trans hab hba
    simp [Std.ReflCmp.compare_self] at haa
  obtain ⟨l, hl⟩ := m
  obtain ⟨k, hk⟩ := n
  change l = k at hentries
  subst hentries
  rfl

theorem mem_of_find?_ofList {l : List (α × β)} {a : α} {b : β}
    (h : (ofList l).find? a = some b) : (a, b) ∈ l := by
  suffices ∀ m : SortedMap α β, (l.foldl (fun m e => m.insert e.1 e.2) m).find? a = some b →
      (a, b) ∈ l ∨ m.find? a = some b by
    rcases this empty h with hmem | hnone
    · exact hmem
    · cases hnone
  clear h
  induction l with
  | nil => exact fun m hm => .inr hm
  | cons e rest ih =>
    intro m hm
    rcases ih _ hm with hmem | hfound
    · exact .inl (List.mem_cons_of_mem e hmem)
    · rw [find?_insert] at hfound
      by_cases ha : a = e.1
      · rw [if_pos ha] at hfound
        refine .inl (List.mem_cons.2 (.inl ?_))
        rw [ha, ← Option.some.inj hfound]
      · rw [if_neg ha] at hfound
        exact .inr hfound

theorem exists_find?_ofList {l : List (α × β)} {a : α} {b : β} (h : (a, b) ∈ l) :
    ∃ b', (ofList l).find? a = some b' := by
  suffices ∀ m : SortedMap α β, ((a, b) ∈ l ∨ ∃ b', m.find? a = some b') →
      ∃ b', (l.foldl (fun m e => m.insert e.1 e.2) m).find? a = some b' from this empty (.inl h)
  clear h
  induction l with
  | nil => exact fun m hm => hm.elim (fun hmem => absurd hmem List.not_mem_nil) id
  | cons e rest ih =>
    intro m hm
    refine ih _ ?_
    by_cases ha : a = e.1
    · exact .inr ⟨e.2, by rw [find?_insert, if_pos ha]⟩
    · rcases hm with hmem | ⟨b', hb'⟩
      · rcases List.mem_cons.1 hmem with heq | hmem
        · exact absurd (congrArg Prod.fst heq) ha
        · exact .inl hmem
      · exact .inr ⟨b', by rw [find?_insert, if_neg ha, hb']⟩

end Lookup

end SortedMap

end JsonTyping
