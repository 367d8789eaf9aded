/-!
# Finite sets kept in order

A `SortedSet` lists its elements in strictly increasing order, so two sets with the same elements
are equal (`SortedSet.ext_mem`) and listing a set is listing it in order.
-/

namespace JsonTyping

universe u

/-- A finite set: its elements in strictly increasing order. -/
structure SortedSet (α : Type u) [Ord α] where
  toList : List α
  sorted : toList.Pairwise fun a b => compare a b = .lt
  deriving DecidableEq

namespace SortedSet

variable {α : Type u} [Ord α]

/-- Puts `a` at its place; an element that is already there stays alone. -/
def place (a : α) : List α → List α
  | [] => [a]
  | b :: rest =>
    match compare a b with
    | .lt => a :: b :: rest
    | .eq => b :: rest
    | .gt => b :: place a rest

theorem mem_place [Std.LawfulEqOrd α] {a x : α} {l : List α} :
    x ∈ place a l ↔ x = a ∨ x ∈ l := by
  induction l with
  | nil => simp [place]
  | cons b rest ih =>
    simp only [place]
    split
    · simp
    · next h =>
      have hab : a = b := Std.LawfulEqCmp.eq_of_compare h
      simp [hab]
    · simp only [List.mem_cons, ih]
      constructor
      · rintro (h | h | h) <;> simp [h]
      · rintro (h | h | h) <;> simp [h]

theorem pairwise_place [Std.TransOrd α] [Std.LawfulEqOrd α] (a : α) {l : List α}
    (h : l.Pairwise fun x y => compare x y = .lt) :
    (place a l).Pairwise fun x y => compare x y = .lt := by
  induction l with
  | nil => simp [place]
  | cons b rest ih =>
    have hb := List.pairwise_cons.1 h
    simp only [place]
    split
    · next hab =>
      refine List.pairwise_cons.2 ⟨fun x hx => ?_, h⟩
      rcases List.mem_cons.1 hx with rfl | hx
      · exact hab
      · exact Std.TransCmp.lt_trans hab (hb.1 x hx)
    · exact h
    · next hab =>
      refine List.pairwise_cons.2 ⟨fun x hx => ?_, ih hb.2⟩
      rcases mem_place.1 hx with rfl | hx
      · exact Std.OrientedCmp.gt_iff_lt.1 hab
      · exact hb.1 x hx

def empty : SortedSet α := ⟨[], .nil⟩

instance : EmptyCollection (SortedSet α) := ⟨empty⟩

instance : Inhabited (SortedSet α) := ⟨empty⟩

def singleton (a : α) : SortedSet α := ⟨[a], by simp⟩

instance : Membership α (SortedSet α) := ⟨fun s a => a ∈ s.toList⟩

theorem mem_iff {a : α} {s : SortedSet α} : a ∈ s ↔ a ∈ s.toList := Iff.rfl

def contains [BEq α] (s : SortedSet α) (a : α) : Bool := s.toList.contains a

theorem contains_iff [BEq α] [LawfulBEq α] {s : SortedSet α} {a : α} :
    s.contains a = true ↔ a ∈ s :=
  List.contains_iff_mem

def size (s : SortedSet α) : Nat := s.toList.length

def isEmpty (s : SortedSet α) : Bool := s.toList.isEmpty

def any (s : SortedSet α) (p : α → Bool) : Bool := s.toList.any p

def filter (s : SortedSet α) (p : α → Bool) : SortedSet α :=
  ⟨s.toList.filter p, s.sorted.sublist List.filter_sublist⟩

@[simp] theorem not_mem_empty (a : α) : ¬ a ∈ (empty : SortedSet α) := by
  simp [mem_iff, empty]

@[simp] theorem mem_singleton {a b : α} : a ∈ singleton b ↔ a = b := by
  simp [mem_iff, singleton]

theorem nodup [Std.ReflOrd α] (s : SortedSet α) : s.toList.Nodup :=
  s.sorted.imp fun hlt heq => by
    rw [heq, Std.ReflOrd.compare_self] at hlt
    cases hlt

theorem ext_mem [Std.TransOrd α] {s t : SortedSet α} (h : ∀ a, a ∈ s ↔ a ∈ t) : s = t := by
  obtain ⟨l, hl⟩ := s
  obtain ⟨m, hm⟩ := t
  simp only [mem_iff] at h
  suffices l = m by simp [this]
  induction l generalizing m with
  | nil =>
    cases m with
    | nil => rfl
    | cons b m => simpa using h b
  | cons a l ih =>
    cases m with
    | nil => simpa using h a
    | cons b m =>
      have ha := List.pairwise_cons.1 hl
      have hb := List.pairwise_cons.1 hm
      have irrefl : ∀ x : α, compare x x ≠ .lt := fun x hx => by
        simp [Std.ReflCmp.compare_self] at hx
      have hab : a = b := by
        rcases List.mem_cons.1 ((h a).1 List.mem_cons_self) with hab | ham
        · exact hab
        · rcases List.mem_cons.1 ((h b).2 List.mem_cons_self) with hba | hbl
          · exact hba.symm
          · exact absurd (Std.TransCmp.lt_trans (ha.1 b hbl) (hb.1 a ham)) (irrefl a)
      subst hab
      refine congrArg (a :: ·) (ih ha.2 m hb.2 fun x => ?_)
      constructor
      · intro hx
        rcases List.mem_cons.1 ((h x).1 (List.mem_cons_of_mem a hx)) with rfl | hx'
        · exact absurd (ha.1 x hx) (irrefl x)
        · exact hx'
      · intro hx
        rcases List.mem_cons.1 ((h x).2 (List.mem_cons_of_mem a hx)) with rfl | hx'
        · exact absurd (hb.1 x hx) (irrefl x)
        · exact hx'

variable [Std.TransOrd α] [Std.LawfulEqOrd α]

def insert (s : SortedSet α) (a : α) : SortedSet α := ⟨place a s.toList, pairwise_place a s.sorted⟩

def insertMany (s : SortedSet α) (l : List α) : SortedSet α := l.foldl insert s

def ofList (l : List α) : SortedSet α := empty.insertMany l

def union (s t : SortedSet α) : SortedSet α := s.insertMany t.toList

@[simp] theorem mem_insert {s : SortedSet α} {a x : α} : x ∈ s.insert a ↔ x = a ∨ x ∈ s :=
  mem_place

@[simp] theorem mem_insertMany {s : SortedSet α} {l : List α} {x : α} :
    x ∈ s.insertMany l ↔ x ∈ l ∨ x ∈ s := by
  induction l generalizing s with
  | nil => simp [insertMany]
  | cons a l ih =>
    have := ih (s := s.insert a)
    simp only [insertMany, List.foldl_cons] at this ⊢
    simp only [this, mem_insert, List.mem_cons]
    grind

@[simp] theorem mem_ofList {l : List α} {x : α} : x ∈ ofList l ↔ x ∈ l := by
  simp [ofList]

theorem toList_ofList_ne_nil {l : List α} (h : l ≠ []) : (ofList l).toList ≠ [] := by
  obtain ⟨a, ha⟩ := List.exists_mem_of_ne_nil l h
  have hmem : a ∈ (ofList l).toList := mem_iff.1 (mem_ofList.2 ha)
  exact List.ne_nil_of_mem hmem

@[simp] theorem mem_union {s t : SortedSet α} {x : α} : x ∈ s.union t ↔ x ∈ s ∨ x ∈ t := by
  simp [union, or_comm, mem_iff (s := t)]

theorem union_comm (s t : SortedSet α) : s.union t = t.union s :=
  ext_mem fun a => by simp only [mem_union, or_comm]

theorem union_assoc (s t u : SortedSet α) : (s.union t).union u = s.union (t.union u) :=
  ext_mem fun a => by simp only [mem_union, or_assoc]

@[simp] theorem union_self (s : SortedSet α) : s.union s = s :=
  ext_mem fun a => by simp only [mem_union, or_self]

@[simp] theorem union_empty (s : SortedSet α) : s.union empty = s :=
  ext_mem fun a => by simp only [mem_union, not_mem_empty, or_false]

end SortedSet

end JsonTyping
