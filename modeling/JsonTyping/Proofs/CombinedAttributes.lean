import JsonTyping.Graph.Attributes
import Mathlib.Data.List.Forall2
import Mathlib.Data.List.Induction
import Mathlib.Order.Lattice

/-!
# Combined attributes

Attributes form a semilattice under `Attributes.combine`, with the empty ones as its least element.
Only for the two zeros does the order of combining leave a trace: of two bounds with the same value
one is kept, so what is combined in another order has the same values (`Attributes.Same`). What
several records come to depends only on which records there are, not on their order, their number
or how they are grouped (`Attributes.combineAll_same_of_groups`).
-/

namespace JsonTyping

theorem Names.union_comm (m n : Names) : m.union n = n.union m := by
  simp only [Names.union, SortedSet.union_comm m.given, SortedSet.union_comm m.inferred]

theorem Names.union_assoc (m n k : Names) : (m.union n).union k = m.union (n.union k) := by
  simp only [Names.union, SortedSet.union_assoc]

@[simp] theorem Names.union_self (n : Names) : n.union n = n := by
  simp only [Names.union, SortedSet.union_self]

@[simp] theorem Names.union_empty (n : Names) : n.union .empty = n := by
  simp only [Names.union, Names.empty, SortedSet.union_empty]

/-- Demoted names are a union like all others. -/
theorem Names.demote_union (m n : Names) : (m.union n).demote = m.demote.union n.demote := by
  have hempty : SortedSet.empty.union SortedSet.empty = (SortedSet.empty : SortedSet String) :=
    SortedSet.union_empty _
  have hswap : ∀ i j g h : SortedSet String,
      (i.union j).union (g.union h) = (i.union g).union (j.union h) := fun i j g h => by
    rw [SortedSet.union_assoc, ← SortedSet.union_assoc j, SortedSet.union_comm j g,
      SortedSet.union_assoc g, ← SortedSet.union_assoc]
  simp only [Names.demote, Names.union, hempty, hswap]

namespace Note

@[simp] theorem unset_join (n : Note) : unset.join n = n := by
  cases n <;> rfl

@[simp] theorem join_unset (n : Note) : n.join unset = n := by
  cases n <;> rfl

@[simp] theorem conflict_join (n : Note) : conflict.join n = conflict := by
  cases n <;> rfl

@[simp] theorem join_conflict (n : Note) : n.join conflict = conflict := by
  cases n <;> rfl

theorem text_join_text (a b : String) :
    (text a).join (text b) = if a = b then text a else conflict :=
  rfl

@[simp] theorem join_self (n : Note) : n.join n = n := by
  cases n with
  | text a => rw [text_join_text, if_pos rfl]
  | _ => rfl

theorem join_comm (m n : Note) : m.join n = n.join m := by
  cases m with
  | unset => rw [unset_join, join_unset]
  | conflict => rw [conflict_join, join_conflict]
  | text a =>
    cases n with
    | unset => rfl
    | conflict => rfl
    | text b =>
      by_cases hab : a = b
      · rw [hab]
      · rw [text_join_text, text_join_text, if_neg hab, if_neg (Ne.symm hab)]

theorem join_assoc (m n k : Note) : (m.join n).join k = m.join (n.join k) := by
  cases m with
  | unset => simp only [unset_join]
  | conflict => simp only [conflict_join]
  | text a =>
    cases n with
    | unset => simp only [join_unset, unset_join]
    | conflict => simp only [join_conflict, conflict_join]
    | text b =>
      cases k with
      | unset => simp only [join_unset]
      | conflict => simp only [join_conflict]
      | text c =>
        by_cases hab : a = b
        · subst hab
          by_cases hac : a = c
          · simp only [hac, join_self]
          · simp only [join_self, text_join_text, if_neg hac, join_conflict]
        · by_cases hbc : b = c
          · simp only [hbc, join_self, text_join_text, hbc ▸ hab, if_false, conflict_join]
          · simp only [text_join_text, if_neg hab, if_neg hbc, conflict_join, join_conflict]

end Note

theorem UriTraits.union_comm (a b : UriTraits) : a.union b = b.union a := by
  simp only [UriTraits.union, SortedSet.union_comm a.schemes, SortedSet.union_comm a.extensions]

theorem UriTraits.union_assoc (a b c : UriTraits) : (a.union b).union c = a.union (b.union c) := by
  simp only [UriTraits.union, SortedSet.union_assoc]

theorem UriTraits.union_self (a : UriTraits) : a.union a = a := by
  simp only [UriTraits.union, SortedSet.union_self]

section JoinOption

variable {α β : Type} {f : α → α → α}

theorem joinOption_comm (hf : ∀ a b, f a b = f b a) (x y : Option α) :
    joinOption f x y = joinOption f y x := by
  cases x <;> cases y <;> simp [joinOption, hf]

theorem joinOption_assoc (hf : ∀ a b c, f (f a b) c = f a (f b c)) (x y z : Option α) :
    joinOption f (joinOption f x y) z = joinOption f x (joinOption f y z) := by
  cases x <;> cases y <;> cases z <;> simp [joinOption, hf]

theorem joinOption_self (hf : ∀ a, f a a = a) (x : Option α) : joinOption f x x = x := by
  cases x <;> simp [joinOption, hf]

@[simp] theorem joinOption_none (x : Option α) : joinOption f x none = x := by
  cases x <;> rfl

@[simp] theorem none_joinOption (x : Option α) : joinOption f none x = x := by
  cases x <;> rfl

theorem map_joinOption {g : β → β → β} {φ : α → β} (hφ : ∀ a b, φ (f a b) = g (φ a) (φ b))
    (x y : Option α) : (joinOption f x y).map φ = joinOption g (x.map φ) (y.map φ) := by
  cases x <;> cases y <;> simp [joinOption, hφ]

end JoinOption

namespace Bounds

section Widen

variable {α : Type} {lower upper : α → α → α}

theorem widen_comm (hlower : ∀ x y, lower x y = lower y x) (hupper : ∀ x y, upper x y = upper y x)
    (a b : Bounds α) : a.widen lower upper b = b.widen lower upper a := by
  obtain ⟨al, ah⟩ := a
  obtain ⟨bl, bh⟩ := b
  cases al <;> cases bl <;> cases ah <;> cases bh <;> simp [widen, hlower, hupper]

theorem widen_assoc (hlower : ∀ x y z, lower (lower x y) z = lower x (lower y z))
    (hupper : ∀ x y z, upper (upper x y) z = upper x (upper y z)) (a b c : Bounds α) :
    (a.widen lower upper b).widen lower upper c = a.widen lower upper (b.widen lower upper c) := by
  obtain ⟨al, ah⟩ := a
  obtain ⟨bl, bh⟩ := b
  obtain ⟨cl, ch⟩ := c
  have hlow : ((widen lower upper ⟨al, ah⟩ ⟨bl, bh⟩).widen lower upper ⟨cl, ch⟩).low =
      (widen lower upper ⟨al, ah⟩ (widen lower upper ⟨bl, bh⟩ ⟨cl, ch⟩)).low := by
    cases al <;> cases bl <;> cases cl <;> simp [widen, hlower]
  have hhigh : ((widen lower upper ⟨al, ah⟩ ⟨bl, bh⟩).widen lower upper ⟨cl, ch⟩).high =
      (widen lower upper ⟨al, ah⟩ (widen lower upper ⟨bl, bh⟩ ⟨cl, ch⟩)).high := by
    cases ah <;> cases bh <;> cases ch <;> simp [widen, hupper]
  exact (Bounds.mk.injEq _ _ _ _).mpr ⟨hlow, hhigh⟩

theorem widen_self (hlower : ∀ x, lower x x = x) (hupper : ∀ x, upper x x = x) (a : Bounds α) :
    a.widen lower upper a = a := by
  obtain ⟨al, ah⟩ := a
  cases al <;> cases ah <;> simp [widen, hlower, hupper]

end Widen

/-- The values of the ends. Zeros of either sign have the same value. -/
def values (b : Bounds Double) : Bounds Int where
  low := b.low.map Double.toUnits
  high := b.high.map Double.toUnits

end Bounds

namespace Double

theorem toUnits_min (x y : Double) : (x.min y).toUnits = Min.min x.toUnits y.toUnits := by
  simp only [Double.min, lt, decide_eq_true_eq]
  split <;> omega

theorem toUnits_max (x y : Double) : (x.max y).toUnits = Max.max x.toUnits y.toUnits := by
  simp only [Double.max, lt, decide_eq_true_eq]
  split <;> omega

/-- Of several doubles the first of the least ones is kept. -/
theorem min_assoc (x y z : Double) : (x.min y).min z = x.min (y.min z) := by
  simp only [Double.min, lt, decide_eq_true_eq]
  grind

/-- Of several doubles the last of the greatest ones is kept. -/
theorem max_assoc (x y z : Double) : (x.max y).max z = x.max (y.max z) := by
  simp only [Double.max, lt, decide_eq_true_eq]
  grind

theorem min_self (x : Double) : x.min x = x := ite_self x

theorem max_self (x : Double) : x.max x = x := ite_self x

end Double

theorem Bounds.values_widen (a b : Bounds Double) :
    (a.widen Double.min Double.max b).values = a.values.widen min max b.values := by
  obtain ⟨al, ah⟩ := a
  obtain ⟨bl, bh⟩ := b
  cases al <;> cases bl <;> cases ah <;> cases bh <;>
    simp [values, widen, Double.toUnits_min, Double.toUnits_max]

/-! ### The laws of combining -/

namespace Attributes

/-- The attributes say the same: bounds of numbers have the same values, all else is equal. -/
structure Same (a b : Attributes) : Prop where
  names : a.names = b.names
  description : a.description = b.description
  range : a.range.map Bounds.values = b.range.map Bounds.values
  length : a.length = b.length
  pattern : a.pattern = b.pattern
  uri : a.uri = b.uri
  alwaysOffset : a.alwaysOffset = b.alwaysOffset

variable {a a' b b' c : Attributes}

@[refl] theorem Same.refl (a : Attributes) : a.Same a := ⟨rfl, rfl, rfl, rfl, rfl, rfl, rfl⟩

theorem Same.symm (h : a.Same b) : b.Same a :=
  ⟨h.names.symm, h.description.symm, h.range.symm, h.length.symm, h.pattern.symm, h.uri.symm,
    h.alwaysOffset.symm⟩

theorem Same.trans (h : a.Same b) (k : b.Same c) : a.Same c :=
  ⟨h.names.trans k.names, h.description.trans k.description, h.range.trans k.range,
    h.length.trans k.length, h.pattern.trans k.pattern, h.uri.trans k.uri,
    h.alwaysOffset.trans k.alwaysOffset⟩

instance : Trans Same Same Same := ⟨Same.trans⟩

theorem Same.of_eq (h : a = b) : a.Same b := h ▸ .refl a

theorem range_combine (a b : Attributes) : (a.combine b).range.map Bounds.values =
    joinOption (Bounds.widen min max) (a.range.map Bounds.values) (b.range.map Bounds.values) :=
  map_joinOption Bounds.values_widen a.range b.range

theorem Same.combine (ha : a.Same a') (hb : b.Same b') : (a.combine b).Same (a'.combine b') where
  names := by simp only [Attributes.combine, ha.names, hb.names]
  description := by simp only [Attributes.combine, ha.description, hb.description]
  range := by rw [range_combine, range_combine, ha.range, hb.range]
  length := by simp only [Attributes.combine, ha.length, hb.length]
  pattern := by simp only [Attributes.combine, ha.pattern, hb.pattern]
  uri := by simp only [Attributes.combine, ha.uri, hb.uri]
  alwaysOffset := by simp only [Attributes.combine, ha.alwaysOffset, hb.alwaysOffset]

theorem Same.makeInferred (h : a.Same b) : a.makeInferred.Same b.makeInferred where
  names := congrArg Names.demote h.names
  description := h.description
  range := h.range
  length := h.length
  pattern := h.pattern
  uri := h.uri
  alwaysOffset := h.alwaysOffset

theorem combine_comm (a b : Attributes) : (a.combine b).Same (b.combine a) where
  names := Names.union_comm a.names b.names
  description := Note.join_comm a.description b.description
  range := by
    rw [range_combine, range_combine]
    exact joinOption_comm (Bounds.widen_comm min_comm max_comm) _ _
  length := joinOption_comm (Bounds.widen_comm Nat.min_comm Nat.max_comm) a.length b.length
  pattern := Note.join_comm a.pattern b.pattern
  uri := joinOption_comm UriTraits.union_comm a.uri b.uri
  alwaysOffset := joinOption_comm Bool.and_comm a.alwaysOffset b.alwaysOffset

theorem combine_assoc (a b c : Attributes) :
    (a.combine b).combine c = a.combine (b.combine c) := by
  simp only [combine, Names.union_assoc, Note.join_assoc,
    joinOption_assoc (Bounds.widen_assoc Double.min_assoc Double.max_assoc),
    joinOption_assoc (Bounds.widen_assoc Nat.min_assoc Nat.max_assoc),
    joinOption_assoc UriTraits.union_assoc, joinOption_assoc Bool.and_assoc]

theorem combine_self (a : Attributes) : a.combine a = a := by
  simp only [combine, Names.union_self, Note.join_self,
    joinOption_self (Bounds.widen_self Double.min_self Double.max_self),
    joinOption_self (Bounds.widen_self Nat.min_self Nat.max_self),
    joinOption_self UriTraits.union_self, joinOption_self Bool.and_self]

@[simp] theorem combine_empty (a : Attributes) : a.combine empty = a := by
  simp only [combine, empty, Names.union_empty, Note.join_unset, joinOption_none]

@[simp] theorem empty_combine (a : Attributes) : empty.combine a = a := by
  simp only [combine, empty, Names.union_comm Names.empty, Names.union_empty, Note.unset_join,
    none_joinOption]

theorem makeInferred_combine (a b : Attributes) :
    (a.combine b).makeInferred = a.makeInferred.combine b.makeInferred := by
  simp only [makeInferred, combine, Names.demote_union]

/-! ### Several records -/

/-- Everything known from several records together. -/
def combineAll (l : List Attributes) : Attributes := l.foldl combine empty

theorem combineAll_concat (l : List Attributes) (a : Attributes) :
    combineAll (l ++ [a]) = (combineAll l).combine a := by
  simp only [combineAll, List.foldl_append, List.foldl_cons, List.foldl_nil]

theorem combineAll_singleton (a : Attributes) : combineAll [a] = a := empty_combine a

theorem combineAll_append (l l' : List Attributes) :
    combineAll (l ++ l') = (combineAll l).combine (combineAll l') := by
  induction l' using List.reverseRecOn with
  | nil => rw [List.append_nil, combineAll, combineAll, List.foldl_nil, combine_empty]
  | append_singleton l' a ih =>
    rw [← List.append_assoc, combineAll_concat, combineAll_concat, ih, combine_assoc]

/-- What is empty adds nothing. -/
theorem combineAll_filter (l : List Attributes) :
    combineAll (l.filter (!·.isEmpty)) = combineAll l := by
  induction l using List.reverseRecOn with
  | nil => rfl
  | append_singleton l a ih =>
    have hlast : combineAll ([a].filter (!·.isEmpty)) = a := by
      by_cases ha : a = empty
      · simp [isEmpty, ha, combineAll]
      · simp [isEmpty, ha, combineAll_singleton]
    rw [List.filter_append, combineAll_append, combineAll_concat, ih, hlast]

theorem combineAll_same {l l' : List Attributes} (h : List.Forall₂ Same l l') :
    (combineAll l).Same (combineAll l') := by
  have hfold : ∀ {a a' : Attributes}, a.Same a' →
      (l.foldl combine a).Same (l'.foldl combine a') := by
    induction h with
    | nil => exact fun ha => ha
    | cons hab _ ih => exact fun ha => ih (ha.combine hab)
  exact hfold (.refl empty)

/-- What is combined with others adds nothing once more. -/
theorem combineAll_combine_of_mem {l : List Attributes} (hb : b ∈ l) :
    ((combineAll l).combine b).Same (combineAll l) := by
  induction l using List.reverseRecOn with
  | nil => cases hb
  | append_singleton l a ih =>
    rw [combineAll_concat]
    rcases List.mem_append.1 hb with hmem | hlast
    · calc
        ((combineAll l).combine a).combine b = (combineAll l).combine (a.combine b) :=
          combine_assoc ..
        Same _ ((combineAll l).combine (b.combine a)) := (Same.refl _).combine (combine_comm a b)
        _ = ((combineAll l).combine b).combine a := (combine_assoc ..).symm
        Same _ ((combineAll l).combine a) := (ih hmem).combine (.refl a)
    · obtain rfl := List.mem_singleton.1 hlast
      rw [combine_assoc, combine_self]

/-- Records that add nothing one by one add nothing together. -/
theorem combine_combineAll {l : List Attributes} (h : ∀ a ∈ l, (c.combine a).Same c) :
    (c.combine (combineAll l)).Same c := by
  induction l using List.reverseRecOn with
  | nil => exact .of_eq (combine_empty c)
  | append_singleton l a ih =>
    have hinit := ih fun b hb => h b (List.mem_append_left [a] hb)
    have hlast := h a (List.mem_append_right l (List.mem_singleton_self a))
    rw [combineAll_concat, ← combine_assoc]
    exact (hinit.combine (.refl a)).trans hlast

/-- Only which records are combined matters, not their order or number. -/
theorem combineAll_same_of_mem_iff {l l' : List Attributes} (h : ∀ a, a ∈ l ↔ a ∈ l') :
    (combineAll l).Same (combineAll l') := by
  have habsorbs : ((combineAll l).combine (combineAll l')).Same (combineAll l) :=
    combine_combineAll fun a ha => combineAll_combine_of_mem ((h a).2 ha)
  have habsorbed : ((combineAll l').combine (combineAll l)).Same (combineAll l') :=
    combine_combineAll fun a ha => combineAll_combine_of_mem ((h a).1 ha)
  calc
    Same (combineAll l) ((combineAll l).combine (combineAll l')) := habsorbs.symm
    Same _ ((combineAll l').combine (combineAll l)) := combine_comm ..
    Same _ (combineAll l') := habsorbed

theorem combineAll_flatten (groups : List (List Attributes)) :
    combineAll groups.flatten = combineAll (groups.map combineAll) := by
  induction groups with
  | nil => rfl
  | cons group groups ih =>
    rw [List.flatten_cons, combineAll_append, ih, List.map_cons, ← List.singleton_append,
      combineAll_append, combineAll_singleton]

/-- It does not matter either which records were combined before. -/
theorem combineAll_same_of_groups {l l' : List Attributes} {groups : List (List Attributes)}
    (hgroups : List.Forall₂ (fun a group => a.Same (combineAll group)) l groups)
    (hmem : ∀ a, a ∈ groups.flatten ↔ a ∈ l') : (combineAll l).Same (combineAll l') := by
  have hmap : List.Forall₂ Same l (groups.map combineAll) := List.forall₂_map_right_iff.2 hgroups
  calc
    Same (combineAll l) (combineAll (groups.map combineAll)) := combineAll_same hmap
    _ = combineAll groups.flatten := (combineAll_flatten groups).symm
    Same _ (combineAll l') := combineAll_same_of_mem_iff hmem

end Attributes

end JsonTyping
