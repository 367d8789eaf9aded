import JsonTyping.Proofs.Gathering
import Mathlib.Data.List.Perm.Basic

/-!
# Rearranged lists

`Shuffled R` relates lists that correspond one by one under `R` after one of them is permuted, and
`Covers R` those in which nothing is without a partner in the other. `Alike` joins the two: it asks
for the first only where multiplicities count. All three pass through the operations that the
evidence of a position is made with.
-/

namespace JsonTyping

variable {α β γ δ : Type} {R : α → β → Prop} {P : γ → δ → Prop}

/-- The lists correspond one by one after the first one is permuted. -/
def Shuffled (R : α → β → Prop) (xs : List α) (ys : List β) : Prop :=
  ∃ zs, xs.Perm zs ∧ List.Forall₂ R zs ys

theorem Shuffled.nil : Shuffled R [] [] := ⟨[], .refl _, .nil⟩

theorem Shuffled.of_forall₂ {xs : List α} {ys : List β} (h : List.Forall₂ R xs ys) :
    Shuffled R xs ys :=
  ⟨xs, .refl xs, h⟩

theorem Shuffled.length_eq {xs : List α} {ys : List β} (h : Shuffled R xs ys) :
    xs.length = ys.length := by
  obtain ⟨zs, hperm, hzs⟩ := h
  rw [hperm.length_eq, hzs.length_eq]

theorem Shuffled.append {xs xs' : List α} {ys ys' : List β} (h : Shuffled R xs ys)
    (h' : Shuffled R xs' ys') : Shuffled R (xs ++ xs') (ys ++ ys') := by
  obtain ⟨zs, hperm, hzs⟩ := h
  obtain ⟨zs', hperm', hzs'⟩ := h'
  exact ⟨zs ++ zs', hperm.append hperm', List.rel_append hzs hzs'⟩

theorem Shuffled.filterMap {f : α → Option γ} {g : β → Option δ}
    (hfg : ∀ x y, R x y → Option.Rel P (f x) (g y)) {xs : List α} {ys : List β}
    (h : Shuffled R xs ys) : Shuffled P (xs.filterMap f) (ys.filterMap g) := by
  obtain ⟨zs, hperm, hzs⟩ := h
  exact ⟨zs.filterMap f, hperm.filterMap f, List.rel_filterMap (fun x y => hfg x y) hzs⟩

theorem Shuffled.flatMap {f : α → List γ} {g : β → List δ}
    (hfg : ∀ x y, R x y → Shuffled P (f x) (g y)) {xs : List α} {ys : List β}
    (h : Shuffled R xs ys) : Shuffled P (xs.flatMap f) (ys.flatMap g) := by
  obtain ⟨zs, hperm, hzs⟩ := h
  have hflat : Shuffled P (zs.flatMap f) (ys.flatMap g) := by
    clear hperm
    induction hzs with
    | nil => exact .nil
    | cons hxy _ ih => exact (hfg _ _ hxy).append ih
  obtain ⟨us, hperm', hus⟩ := hflat
  exact ⟨us, (hperm.flatMap_right f).trans hperm', hus⟩

/-- Everything in either list has a partner in the other. -/
def Covers (R : α → β → Prop) (xs : List α) (ys : List β) : Prop :=
  (∀ x ∈ xs, ∃ y ∈ ys, R x y) ∧ ∀ y ∈ ys, ∃ x ∈ xs, R x y

theorem Shuffled.covers {xs : List α} {ys : List β} (h : Shuffled R xs ys) : Covers R xs ys := by
  obtain ⟨zs, hperm, hzs⟩ := h
  refine ⟨fun x hx => exists_right_of_forall₂ hzs (hperm.mem_iff.1 hx), fun y hy => ?_⟩
  obtain ⟨x, hx, hxy⟩ := exists_left_of_forall₂ hzs hy
  exact ⟨x, hperm.mem_iff.2 hx, hxy⟩

theorem Covers.filterMap {f : α → Option γ} {g : β → Option δ}
    (hfg : ∀ x y, R x y → Option.Rel P (f x) (g y)) {xs : List α} {ys : List β}
    (h : Covers R xs ys) : Covers P (xs.filterMap f) (ys.filterMap g) := by
  refine ⟨fun a ha => ?_, fun b hb => ?_⟩
  · obtain ⟨x, hx, hxa⟩ := List.mem_filterMap.1 ha
    obtain ⟨y, hy, hxy⟩ := h.1 x hx
    have hrel := hfg x y hxy
    rw [hxa] at hrel
    cases hgy : g y with
    | none =>
      rw [hgy] at hrel
      cases hrel
    | some b =>
      rw [hgy] at hrel
      cases hrel with
      | some hab => exact ⟨b, List.mem_filterMap.2 ⟨y, hy, hgy⟩, hab⟩
  · obtain ⟨y, hy, hyb⟩ := List.mem_filterMap.1 hb
    obtain ⟨x, hx, hxy⟩ := h.2 y hy
    have hrel := hfg x y hxy
    rw [hyb] at hrel
    cases hfx : f x with
    | none =>
      rw [hfx] at hrel
      cases hrel
    | some a =>
      rw [hfx] at hrel
      cases hrel with
      | some hab => exact ⟨a, List.mem_filterMap.2 ⟨x, hx, hfx⟩, hab⟩

theorem Covers.flatMap {f : α → List γ} {g : β → List δ}
    (hfg : ∀ x y, R x y → Covers P (f x) (g y)) {xs : List α} {ys : List β}
    (h : Covers R xs ys) : Covers P (xs.flatMap f) (ys.flatMap g) := by
  refine ⟨fun a ha => ?_, fun b hb => ?_⟩
  · obtain ⟨x, hx, hxa⟩ := List.mem_flatMap.1 ha
    obtain ⟨y, hy, hxy⟩ := h.1 x hx
    obtain ⟨b, hb, hab⟩ := (hfg x y hxy).1 a hxa
    exact ⟨b, List.mem_flatMap.2 ⟨y, hy, hb⟩, hab⟩
  · obtain ⟨y, hy, hyb⟩ := List.mem_flatMap.1 hb
    obtain ⟨x, hx, hxy⟩ := h.2 y hy
    obtain ⟨a, ha, hab⟩ := (hfg x y hxy).2 b hyb
    exact ⟨a, List.mem_flatMap.2 ⟨x, hx, ha⟩, hab⟩

theorem Covers.isEmpty_eq {xs : List α} {ys : List β} (h : Covers R xs ys) :
    xs.isEmpty = ys.isEmpty := by
  cases xs with
  | nil =>
    cases ys with
    | nil => rfl
    | cons y ys =>
      obtain ⟨x, hx, -⟩ := h.2 y List.mem_cons_self
      cases hx
  | cons x xs =>
    obtain ⟨y, hy, -⟩ := h.1 x List.mem_cons_self
    rw [List.isEmpty_cons, eq_comm, List.isEmpty_eq_false_iff]
    exact List.ne_nil_of_mem hy

theorem Covers.any_eq {p : α → Bool} {q : β → Bool} (hpq : ∀ x y, R x y → p x = q y)
    {xs : List α} {ys : List β} (h : Covers R xs ys) : xs.any p = ys.any q := by
  rw [Bool.eq_iff_iff, List.any_eq_true, List.any_eq_true]
  constructor
  · rintro ⟨x, hx, hp⟩
    obtain ⟨y, hy, hxy⟩ := h.1 x hx
    exact ⟨y, hy, hpq x y hxy ▸ hp⟩
  · rintro ⟨y, hy, hq⟩
    obtain ⟨x, hx, hxy⟩ := h.2 y hy
    exact ⟨x, hx, (hpq x y hxy).symm ▸ hq⟩

theorem Covers.mem_iff {xs ys : List α} (h : Covers Eq xs ys) (a : α) : a ∈ xs ↔ a ∈ ys := by
  constructor
  · intro ha
    obtain ⟨b, hb, rfl⟩ := h.1 a ha
    exact hb
  · intro ha
    obtain ⟨b, hb, rfl⟩ := h.2 a ha
    exact hb

/-- Everything has a partner, and if multiplicities count, a partner of its own. -/
def Alike (counts : Bool) (R : α → β → Prop) (xs : List α) (ys : List β) : Prop :=
  Covers R xs ys ∧ (counts = true → Shuffled R xs ys)

variable {counts : Bool}

theorem Shuffled.alike {xs : List α} {ys : List β} (h : Shuffled R xs ys) : Alike counts R xs ys :=
  ⟨h.covers, fun _ => h⟩

theorem Alike.filterMap {f : α → Option γ} {g : β → Option δ}
    (hfg : ∀ x y, R x y → Option.Rel P (f x) (g y)) {xs : List α} {ys : List β}
    (h : Alike counts R xs ys) : Alike counts P (xs.filterMap f) (ys.filterMap g) :=
  ⟨h.1.filterMap hfg, fun hcounts => (h.2 hcounts).filterMap hfg⟩

theorem Alike.filterMap_eq {f : α → Option γ} {g : β → Option γ}
    (hfg : ∀ x y, R x y → f x = g y) {xs : List α} {ys : List β} (h : Alike counts R xs ys) :
    Alike counts Eq (xs.filterMap f) (ys.filterMap g) := by
  refine h.filterMap fun x y hxy => ?_
  rw [hfg x y hxy]
  cases g y with
  | none => exact .none
  | some c => exact .some rfl

theorem Alike.flatMap {f : α → List γ} {g : β → List δ}
    (hfg : ∀ x y, R x y → Alike counts P (f x) (g y)) {xs : List α} {ys : List β}
    (h : Alike counts R xs ys) : Alike counts P (xs.flatMap f) (ys.flatMap g) :=
  ⟨h.1.flatMap fun x y hxy => (hfg x y hxy).1,
    fun hcounts => (h.2 hcounts).flatMap fun x y hxy => (hfg x y hxy).2 hcounts⟩

theorem Alike.map {f : α → γ} {g : β → δ} (hfg : ∀ x y, R x y → P (f x) (g y)) {xs : List α}
    {ys : List β} (h : Alike counts R xs ys) : Alike counts P (xs.map f) (ys.map g) := by
  have hmap := h.filterMap (P := P) (f := fun x => some (f x)) (g := fun y => some (g y))
    fun x y hxy => .some (hfg x y hxy)
  simpa only [List.filterMap_eq_map'] using hmap

end JsonTyping
