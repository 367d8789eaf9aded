import Mathlib.Data.List.Basic
import Mathlib.Data.List.Forall2

/-!
# Runs of steps

Several parts of the library are steps over a state that may fail and keep what they did before the
failure. `outcome` runs such a step; its equations follow the steps one by one, and
`outcome_bind_ok` takes a successful run apart. Runs over lists give lists side by side.
-/

namespace JsonTyping

@[simp] theorem ok_bind {ε α β : Type} (a : α) (f : α → Except ε β) : (Except.ok a >>= f) = f a :=
  rfl

@[simp] theorem error_bind {ε α β : Type} (e : ε) (f : α → Except ε β) :
    (Except.error e >>= f) = .error e :=
  rfl

theorem bind_eq_ok {ε α β : Type} {m : Except ε α} {f : α → Except ε β} {b : β} :
    (m >>= f) = .ok b ↔ ∃ a, m = .ok a ∧ f a = .ok b := by
  cases m with
  | ok a =>
    rw [ok_bind]
    constructor
    · exact fun h => ⟨a, rfl, h⟩
    · rintro ⟨a', ha, h⟩
      cases ha
      exact h
  | error e =>
    rw [error_bind]
    constructor
    · nofun
    · rintro ⟨a, h, -⟩
      cases h

theorem foldlM_cons_eq_ok {ε α β : Type} {f : β → α → Except ε β} {a : α} {l : List α} {b b' : β} :
    (a :: l).foldlM f b = .ok b' ↔ ∃ c, f b a = .ok c ∧ l.foldlM f c = .ok b' := by
  rw [List.foldlM_cons]
  exact bind_eq_ok

variable {ε σ α β : Type}

/-- What a step ends with, and in which state. -/
def outcome (m : ExceptT ε (StateM σ) α) (s : σ) : Except ε α × σ := Id.run ((ExceptT.run m).run s)

@[simp] theorem outcome_pure (a : α) (s : σ) :
    outcome (pure a : ExceptT ε (StateM σ) α) s = (.ok a, s) :=
  rfl

@[simp] theorem outcome_throw (e : ε) (s : σ) :
    outcome (throw e : ExceptT ε (StateM σ) α) s = (.error e, s) :=
  rfl

@[simp] theorem outcome_get (s : σ) :
    outcome (get : ExceptT ε (StateM σ) σ) s = (.ok s, s) :=
  rfl

@[simp] theorem outcome_set (s s' : σ) :
    outcome (set s' : ExceptT ε (StateM σ) PUnit) s = (.ok ⟨⟩, s') :=
  rfl

@[simp] theorem outcome_modify (f : σ → σ) (s : σ) :
    outcome (modify f : ExceptT ε (StateM σ) PUnit) s = (.ok ⟨⟩, f s) :=
  rfl

theorem outcome_bind (m : ExceptT ε (StateM σ) α) (f : α → ExceptT ε (StateM σ) β) (s : σ) :
    outcome (m >>= f) s =
      match outcome m s with
      | (.ok a, s') => outcome (f a) s'
      | (.error e, s') => (.error e, s') := by
  change Id.run ((ExceptT.run (m >>= f)).run s) = _
  simp only [outcome, ExceptT.run_bind, StateT.run_bind]
  cases h : (ExceptT.run m).run s with
  | mk r s' =>
    cases r with
    | ok a => simp only [Id.run, bind]
    | error e => simp only [Id.run, bind]; rfl

theorem outcome_bind_of_ok {m : ExceptT ε (StateM σ) α} {s s' : σ} {a : α}
    (h : outcome m s = (.ok a, s')) (f : α → ExceptT ε (StateM σ) β) :
    outcome (m >>= f) s = outcome (f a) s' := by
  rw [outcome_bind, h]

/-- A successful run of two steps is one of the first and one of the second. -/
theorem outcome_bind_ok {m : ExceptT ε (StateM σ) α} {f : α → ExceptT ε (StateM σ) β} {s s' : σ}
    {b : β} :
    outcome (m >>= f) s = (.ok b, s') ↔
      ∃ a s₁, outcome m s = (.ok a, s₁) ∧ outcome (f a) s₁ = (.ok b, s') := by
  rw [outcome_bind]
  constructor
  · intro h
    cases hm : outcome m s with
    | mk r s₁ =>
      cases r with
      | ok a =>
        rw [hm] at h
        exact ⟨a, s₁, rfl, h⟩
      | error e =>
        rw [hm] at h
        cases h
  · rintro ⟨a, s₁, hm, hf⟩
    rw [hm]
    exact hf

theorem exists_right_of_forall₂ {R : α → β → Prop} {as : List α} {bs : List β}
    (h : List.Forall₂ R as bs) {a : α} (ha : a ∈ as) : ∃ b ∈ bs, R a b := by
  induction h with
  | nil => cases ha
  | cons hab _ ih =>
    rcases List.mem_cons.1 ha with rfl | ha
    · exact ⟨_, List.mem_cons_self, hab⟩
    · obtain ⟨b, hb, hR⟩ := ih ha
      exact ⟨b, List.mem_cons_of_mem _ hb, hR⟩

theorem exists_left_of_forall₂ {R : α → β → Prop} {as : List α} {bs : List β}
    (h : List.Forall₂ R as bs) {b : β} (hb : b ∈ bs) : ∃ a ∈ as, R a b :=
  exists_right_of_forall₂ h.flip hb

/-- Lists related to the same list are equal where elements related to the same one are. -/
theorem eq_of_forall₂ {R S : α → β → Prop} {l : List α} {as bs : List β}
    (hunique : ∀ x a b, R x a → S x b → a = b) (ha : List.Forall₂ R l as)
    (hb : List.Forall₂ S l bs) : as = bs := by
  induction ha generalizing bs with
  | nil =>
    cases hb
    rfl
  | cons hx _ ih =>
    cases hb with
    | cons hy hrest => rw [hunique _ _ _ hx hy, ih hrest]

theorem forall₂_of_map_eq {γ : Type} {f : α → γ} {g : β → γ} {l : List α} {k : List β}
    (h : l.map f = k.map g) : List.Forall₂ (fun a b => f a = g b) l k := by
  rw [← List.forall₂_eq_eq_eq] at h
  exact List.forall₂_map_right_iff.1 (List.forall₂_map_left_iff.1 h)

theorem map_eq_of_forall₂ {γ : Type} {R : α → β → Prop} {f : α → γ} {g : β → γ} {l : List α}
    {k : List β} (h : List.Forall₂ R l k) (heq : ∀ a ∈ l, ∀ b ∈ k, R a b → f a = g b) :
    l.map f = k.map g := by
  induction h with
  | nil => rfl
  | cons hab _ ih =>
    rw [List.map_cons, List.map_cons, heq _ List.mem_cons_self _ List.mem_cons_self hab,
      ih fun a ha b hb => heq a (List.mem_cons_of_mem _ ha) b (List.mem_cons_of_mem _ hb)]

/-- Related lists are equal where related elements are. -/
theorem eq_of_forall₂_of_mem {R : α → α → Prop} {l k : List α} (h : List.Forall₂ R l k)
    (heq : ∀ a ∈ l, ∀ b ∈ k, R a b → a = b) : l = k := by
  have hmap := map_eq_of_forall₂ h heq
  rwa [List.map_id', List.map_id'] at hmap

theorem forall₂_of_mapM_eq_some {f : α → Option β} {as : List α} {bs : List β}
    (h : as.mapM f = some bs) : List.Forall₂ (fun a b => f a = some b) as bs := by
  induction as generalizing bs with
  | nil =>
    rw [List.mapM_nil] at h
    obtain rfl := Option.some.inj h
    exact .nil
  | cons a as ih =>
    rw [List.mapM_cons] at h
    obtain ⟨b, hb, h⟩ := Option.bind_eq_some_iff.1 h
    obtain ⟨rest, hrest, h⟩ := Option.bind_eq_some_iff.1 h
    obtain rfl := Option.some.inj h
    exact .cons hb (ih hrest)

theorem forall₂_of_mapM_eq_ok {f : α → Except ε β} {as : List α} {bs : List β}
    (h : as.mapM f = .ok bs) : List.Forall₂ (fun a b => f a = .ok b) as bs := by
  induction as generalizing bs with
  | nil =>
    rw [List.mapM_nil] at h
    obtain rfl := Except.ok.inj h
    exact .nil
  | cons a as ih =>
    rw [List.mapM_cons] at h
    obtain ⟨b, hb, h⟩ := bind_eq_ok.1 h
    obtain ⟨rest, hrest, h⟩ := bind_eq_ok.1 h
    obtain rfl := Except.ok.inj h
    exact .cons hb (ih hrest)

theorem exists_of_mapM_eq_error {f : α → Except ε β} {as : List α} {e : ε}
    (h : as.mapM f = .error e) : ∃ a ∈ as, f a = .error e := by
  induction as with
  | nil =>
    rw [List.mapM_nil] at h
    cases h
  | cons a as ih =>
    rw [List.mapM_cons] at h
    cases ha : f a with
    | error e' =>
      rw [ha, error_bind] at h
      obtain rfl := Except.error.inj h
      exact ⟨a, List.mem_cons_self, ha⟩
    | ok b =>
      rw [ha, ok_bind] at h
      cases hrest : as.mapM f with
      | error e' =>
        rw [hrest, error_bind] at h
        obtain rfl := Except.error.inj h
        obtain ⟨c, hc, hfc⟩ := ih hrest
        exact ⟨c, List.mem_cons_of_mem a hc, hfc⟩
      | ok bs =>
        rw [hrest, ok_bind] at h
        cases h

/-- Elements that stand for others are related to the images of these, and to nothing else. -/
theorem forall₂_iff_eq_map {γ : Type} {S : α → γ → Prop} {R : α → β → Prop} {f : γ → β}
    {l : List α} {xs : List γ} (h : List.Forall₂ S l xs)
    (hR : ∀ a, ∀ x ∈ xs, S a x → ∀ b, R a b ↔ b = f x) (l' : List β) :
    List.Forall₂ R l l' ↔ l' = xs.map f := by
  induction h generalizing l' with
  | nil => exact List.forall₂_nil_left_iff
  | @cons a x l xs hax _ ih =>
    obtain ⟨hx, hxs⟩ := List.forall_mem_cons.1 fun x hx a => hR a x hx
    have hrest := ih fun a x hx => hxs x hx a
    rw [List.forall₂_cons_left_iff, List.map_cons]
    constructor
    · rintro ⟨b, l', hab, hl', rfl⟩
      rw [(hx a hax b).1 hab, (hrest l').1 hl']
    · rintro rfl
      exact ⟨f x, xs.map f, (hx a hax _).2 rfl, (hrest _).2 rfl, rfl⟩

theorem mem_of_lookup [BEq α] [LawfulBEq α] {l : List (α × β)} {a : α} {b : β}
    (h : l.lookup a = some b) : (a, b) ∈ l := by
  obtain ⟨before, after, rfl, -⟩ := List.lookup_eq_some_iff.1 h
  exact List.mem_append_right before List.mem_cons_self

theorem exists_lookup_of_mem [BEq α] [LawfulBEq α] {l : List (α × β)} {a : α} {b : β}
    (h : (a, b) ∈ l) : ∃ c, l.lookup a = some c := by
  cases hlookup : l.lookup a with
  | some c => exact ⟨c, rfl⟩
  | none =>
    have hne := List.lookup_eq_none_iff.1 hlookup (a, b) h
    rw [bne_self_eq_false] at hne
    cases hne

end JsonTyping
