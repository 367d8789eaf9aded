import JsonTyping.Graph.Describe
import JsonTyping.Proofs.GraphGrowth
import Mathlib.Data.List.Nodup
import Mathlib.Logic.Relator

/-!
# Descriptions up to the numbers of nodes

Two graphs that have the same nodes under different numbers describe them alike: the descriptions
only differ in the numbers of recursive types and in the order and repetition of arms, which
`describe` takes from texts with those numbers in them (`Graph.describe_sameUpTo`).
-/

namespace JsonTyping

/-- Every element of either list is related to one of the other. -/
def Paired {α β : Type} (R : α → β → Prop) (l : List α) (k : List β) : Prop :=
  (∀ a ∈ l, ∃ b ∈ k, R a b) ∧ ∀ b ∈ k, ∃ a ∈ l, R a b

theorem Paired.flip {α β : Type} {R : α → β → Prop} {l : List α} {k : List β} (h : Paired R l k) :
    Paired (flip R) k l :=
  ⟨h.2, h.1⟩

theorem Paired.map {α β γ δ : Type} {R : α → β → Prop} {S : γ → δ → Prop} {f : α → γ} {g : β → δ}
    {l : List α} {k : List β} (h : Paired R l k) (hf : ∀ a b, R a b → S (f a) (g b)) :
    Paired S (l.map f) (k.map g) := by
  refine ⟨fun c hc => ?_, fun d hd => ?_⟩
  · obtain ⟨a, ha, rfl⟩ := List.mem_map.1 hc
    obtain ⟨b, hb, hab⟩ := h.1 a ha
    exact ⟨g b, List.mem_map.2 ⟨b, hb, rfl⟩, hf a b hab⟩
  · obtain ⟨b, hb, rfl⟩ := List.mem_map.1 hd
    obtain ⟨a, ha, hab⟩ := h.2 b hb
    exact ⟨f a, List.mem_map.2 ⟨a, ha, rfl⟩, hf a b hab⟩

theorem Paired.flatMap {α β γ δ : Type} {R : α → β → Prop} {S : γ → δ → Prop} {f : α → List γ}
    {g : β → List δ} {l : List α} {k : List β} (h : Paired R l k)
    (hf : ∀ a b, R a b → Paired S (f a) (g b)) : Paired S (l.flatMap f) (k.flatMap g) := by
  refine ⟨fun c hc => ?_, fun d hd => ?_⟩
  · obtain ⟨a, ha, hc⟩ := List.mem_flatMap.1 hc
    obtain ⟨b, hb, hab⟩ := h.1 a ha
    obtain ⟨d, hd, hcd⟩ := (hf a b hab).1 c hc
    exact ⟨d, List.mem_flatMap.2 ⟨b, hb, hd⟩, hcd⟩
  · obtain ⟨b, hb, hd⟩ := List.mem_flatMap.1 hd
    obtain ⟨a, ha, hab⟩ := h.2 b hb
    obtain ⟨c, hc, hcd⟩ := (hf a b hab).2 d hd
    exact ⟨c, List.mem_flatMap.2 ⟨a, ha, hc⟩, hcd⟩

theorem Paired.singleton {α β : Type} {R : α → β → Prop} {a : α} {b : β} (h : R a b) :
    Paired R [a] [b] := by
  constructor
  · rintro _ ha
    obtain rfl := List.mem_singleton.1 ha
    exact ⟨b, List.mem_singleton_self b, h⟩
  · rintro _ hb
    obtain rfl := List.mem_singleton.1 hb
    exact ⟨a, List.mem_singleton_self a, h⟩

/-- The pairs as a list, each with an element of either list. -/
theorem Paired.exists_pairs {α β : Type} {R : α → β → Prop} {l : List α} {k : List β}
    (h : Paired R l k) :
    ∃ pairs : List (α × β), (∀ e ∈ pairs, R e.1 e.2) ∧
      (∀ a, a ∈ l ↔ a ∈ pairs.map Prod.fst) ∧ ∀ b, b ∈ k ↔ b ∈ pairs.map Prod.snd := by
  have hchoose : ∀ {γ δ : Type} {S : γ → δ → Prop} {l : List γ} {k : List δ},
      (∀ a ∈ l, ∃ b ∈ k, S a b) → ∃ pairs : List (γ × δ),
        (∀ e ∈ pairs, S e.1 e.2 ∧ e.2 ∈ k) ∧ pairs.map Prod.fst = l := by
    intro γ δ S l k hmem
    induction l with
    | nil => exact ⟨[], nofun, rfl⟩
    | cons a l ih =>
      obtain ⟨b, hb, hab⟩ := hmem a List.mem_cons_self
      obtain ⟨pairs, hpairs, rfl⟩ := ih fun c hc => hmem c (List.mem_cons_of_mem a hc)
      refine ⟨(a, b) :: pairs, fun e he => ?_, rfl⟩
      rcases List.mem_cons.1 he with rfl | he
      · exact ⟨hab, hb⟩
      · exact hpairs e he
  obtain ⟨left, hleft, rfl⟩ := hchoose h.1
  obtain ⟨right, hright, rfl⟩ := hchoose (S := fun b a => R a b) h.2
  refine ⟨left ++ right.map Prod.swap, fun e he => ?_, fun a => ?_, fun b => ?_⟩
  · rcases List.mem_append.1 he with he | he
    · exact (hleft e he).1
    · obtain ⟨e', he', rfl⟩ := List.mem_map.1 he
      exact (hright e' he').1
  · rw [List.map_append, List.mem_append, List.map_map]
    refine ⟨.inl, fun ha => ha.elim id fun ha => ?_⟩
    obtain ⟨e, he, rfl⟩ := List.mem_map.1 ha
    exact (hright e he).2
  · rw [List.map_append, List.mem_append, List.map_map]
    refine ⟨.inr, fun hb => hb.elim (fun hb => ?_) id⟩
    obtain ⟨e, he, rfl⟩ := List.mem_map.1 hb
    exact (hleft e he).2

/-- Elements without repetition that are paired one to one are equally many. -/
theorem Paired.length_eq {α β : Type} {R : α → β → Prop} (hR : Relator.BiUnique R) {l : List α}
    {k : List β} (hl : l.Nodup) (hk : k.Nodup) (h : Paired R l k) : l.length = k.length := by
  have hle : ∀ {γ δ : Type} {S : γ → δ → Prop} (_ : Relator.LeftUnique S) {l : List γ} {k : List δ},
      l.Nodup → (∀ a ∈ l, ∃ b ∈ k, S a b) → l.length ≤ k.length := by
    intro γ δ S hS l k hnodup hmem
    induction l generalizing k with
    | nil => exact Nat.zero_le _
    | cons a l ih =>
      obtain ⟨hnotMem, hnodup⟩ := List.nodup_cons.1 hnodup
      obtain ⟨b, hb, hab⟩ := hmem a List.mem_cons_self
      obtain ⟨before, after, rfl⟩ := List.append_of_mem hb
      have hrest := ih (k := before ++ after) hnodup fun c hc => by
        obtain ⟨d, hd, hcd⟩ := hmem c (List.mem_cons_of_mem a hc)
        refine ⟨d, ?_, hcd⟩
        rcases List.mem_append.1 hd with hd | hd
        · exact List.mem_append_left after hd
        · rcases List.mem_cons.1 hd with rfl | hd
          · exact absurd (hS hab hcd ▸ hc) hnotMem
          · exact List.mem_append_right before hd
      simp only [List.length_append, List.length_cons] at hrest ⊢
      omega
  refine Nat.le_antisymm (hle hR.1 hl h.1) ?_
  exact hle (S := fun b a => R a b) (fun _ _ _ hb hc => hR.2 hb hc) hk h.2

namespace Graph

/-- The properties are the same ones, with related types. -/
def SameProperties (R : NodeId → NodeId → Prop) (p q : SortedMap String Property) : Prop :=
  List.Forall₂ (fun e f : String × Property =>
    e.1 = f.1 ∧ e.2.optional = f.2.optional ∧ R e.2.type f.2.type) p.entries q.entries

/-- The shapes are the same, with related nodes for the nodes that they name. -/
inductive Corresponds (R : NodeId → NodeId → Prop) : Shape → Shape → Prop
  | primitive (kind : Primitive) : Corresponds R (.primitive kind) (.primitive kind)
  | enumeration (cases : SortedSet String) :
      Corresponds R (.enumeration cases) (.enumeration cases)
  | array {t u : NodeId} (h : R t u) : Corresponds R (.array t) (.array u)
  | record {p q : SortedMap String Property} (h : SameProperties R p q) :
      Corresponds R (.record p) (.record q)
  | object {p q : SortedMap String Property} {a b : Option NodeId} (h : SameProperties R p q)
      (hadditional : Option.Rel R a b) : Corresponds R (.object p a) (.object q b)
  | map {t u : NodeId} (h : R t u) : Corresponds R (.map t) (.map u)
  | union {l k : SortedSet NodeId} (h : Paired R l.toList k.toList) :
      Corresponds R (.union (some l)) (.union (some k))
  | intersection {l k : SortedSet NodeId} (h : Paired R l.toList k.toList) :
      Corresponds R (.intersection (some l)) (.intersection (some k))

/-! ### Descriptions that are the same -/

/-- The arms are listed under the key, or there is just the one. -/
def HasArms (key : String) (v : Json) (arms : List Json) : Prop :=
  arms = [v] ∨ v = .object [(key, .array arms)]

/-- The descriptions are the same when related numbers of recursive types count as equal, arms are
taken as sets, and members may come in any order. -/
inductive SameUpTo (R : NodeId → NodeId → Prop) : Json → Json → Prop
  | mark {t u : NodeId} (h : R t u) : SameUpTo R (recursiveMark t) (recursiveMark u)
  | null : SameUpTo R .null .null
  | text (s : String) : SameUpTo R (.string s) (.string s)
  | cases (l : List String) :
      SameUpTo R (.object [("enum", .ofStrings l)]) (.object [("enum", .ofStrings l)])
  | members (l : List (String × Json × Json)) (h : ∀ e ∈ l, SameUpTo R e.2.1 e.2.2) :
      SameUpTo R (.object (l.map fun e => (e.1, e.2.1))) (.object (l.map fun e => (e.1, e.2.2)))
  | arms {key : String} (hkey : key = "union" ∨ key = "allOf") {v w : Json} {l k : List Json}
      (hl : HasArms key v l) (hk : HasArms key w k) (pairs : List (Json × Json))
      (h : ∀ e ∈ pairs, SameUpTo R e.1 e.2) (hleft : ∀ a, a ∈ l ↔ a ∈ pairs.map Prod.fst)
      (hright : ∀ b, b ∈ k ↔ b ∈ pairs.map Prod.snd) : SameUpTo R v w
  | left {v v' w : Json} (hsame : v.same v' = true) (h : SameUpTo R v' w) : SameUpTo R v w
  | right {v w w' : Json} (hsame : w.same w' = true) (h : SameUpTo R v w') : SameUpTo R v w

variable {R : NodeId → NodeId → Prop}

theorem SameUpTo.member (key : String) {v w : Json} (h : SameUpTo R v w) :
    SameUpTo R (.object [(key, v)]) (.object [(key, w)]) := by
  refine .members [(key, v, w)] fun e he => ?_
  obtain rfl := List.mem_singleton.1 he
  exact h

theorem SameUpTo.twoMembers (key key' : String) {v v' w w' : Json} (h : SameUpTo R v w)
    (h' : SameUpTo R v' w') :
    SameUpTo R (.object [(key, v), (key', v')]) (.object [(key, w), (key', w')]) := by
  refine .members [(key, v, w), (key', v', w')] fun e he => ?_
  rcases List.mem_cons.1 he with rfl | he
  · exact h
  · obtain rfl := List.mem_singleton.1 he
    exact h'

theorem mem_of_mem_dedup {v : Json} {l : List Json} (h : v ∈ sortArms.dedup l) : v ∈ l := by
  induction l using sortArms.dedup.induct with
  | case1 first second rest hsame ih =>
    rw [sortArms.dedup, if_pos hsame] at h
    rcases List.mem_cons.1 (ih h) with rfl | h
    · exact List.mem_cons_self
    · exact List.mem_cons_of_mem _ (List.mem_cons_of_mem _ h)
  | case2 first second rest hsame ih =>
    rw [sortArms.dedup, if_neg hsame] at h
    rcases List.mem_cons.1 h with rfl | h
    · exact List.mem_cons_self
    · exact List.mem_cons_of_mem _ (ih h)
  | case3 l hl =>
    rwa [sortArms.dedup.eq_2 l hl] at h

theorem mem_dedup_cons (v : Json) (l : List Json) : v ∈ sortArms.dedup (v :: l) := by
  induction l with
  | nil =>
    rw [sortArms.dedup]
    · exact List.mem_cons_self
    · simp
  | cons w l ih =>
    rw [sortArms.dedup]
    split
    · exact ih
    · exact List.mem_cons_self

/-- An arm that is left out is the same as one that stays. -/
theorem exists_mem_dedup {v : Json} {l : List Json} (h : v ∈ l) :
    ∃ w ∈ sortArms.dedup l, w = v ∨ w.same v = true := by
  induction l using sortArms.dedup.induct with
  | case1 first second rest hsame ih =>
    rw [sortArms.dedup, if_pos hsame]
    rcases List.mem_cons.1 h with rfl | h
    · exact ⟨v, mem_dedup_cons v rest, .inl rfl⟩
    · rcases List.mem_cons.1 h with rfl | h
      · exact ⟨first, mem_dedup_cons first rest, .inr hsame⟩
      · exact ih (List.mem_cons_of_mem first h)
  | case2 first second rest hsame ih =>
    rw [sortArms.dedup, if_neg hsame]
    rcases List.mem_cons.1 h with rfl | h
    · exact ⟨v, List.mem_cons_self, .inl rfl⟩
    · obtain ⟨w, hw, heq⟩ := ih h
      exact ⟨w, List.mem_cons_of_mem first hw, heq⟩
  | case3 l hl =>
    rw [sortArms.dedup.eq_2 l hl]
    exact ⟨v, h, .inl rfl⟩

theorem mem_sorted_iff {v : Json} {l : List Json} :
    v ∈ ((l.map fun w => (w.compact, w)).mergeSort fun a b => compare a.1 b.1 != .gt).map (·.2) ↔
      v ∈ l := by
  simp only [List.mem_map, List.mem_mergeSort, exists_exists_and_eq_and, exists_eq_right]

theorem hasArms_collapseArms (key : String) (arms : List Json) :
    HasArms key (collapseArms key arms) (sortArms arms) := by
  unfold collapseArms
  split
  · next only honly => exact .inl honly
  · exact .inr rfl

/-- Arms that are the same are so in any order, and however often each of them occurs. -/
theorem sameUpTo_collapseArms {key : String} (hkey : key = "union" ∨ key = "allOf")
    {l k : List Json} (h : Paired (SameUpTo R) l k) :
    SameUpTo R (collapseArms key l) (collapseArms key k) := by
  have hsorted : Paired (SameUpTo R) (sortArms l) (sortArms k) := by
    refine ⟨fun a ha => ?_, fun b hb => ?_⟩
    · obtain ⟨b, hb, hab⟩ := h.1 a (mem_sorted_iff.1 (mem_of_mem_dedup ha))
      obtain ⟨c, hc, rfl | hcb⟩ := exists_mem_dedup (mem_sorted_iff.2 hb)
      · exact ⟨c, hc, hab⟩
      · exact ⟨c, hc, .right hcb hab⟩
    · obtain ⟨a, ha, hab⟩ := h.2 b (mem_sorted_iff.1 (mem_of_mem_dedup hb))
      obtain ⟨c, hc, rfl | hca⟩ := exists_mem_dedup (mem_sorted_iff.2 ha)
      · exact ⟨c, hc, hab⟩
      · exact ⟨c, hc, .left hca hab⟩
  obtain ⟨pairs, hpairs, hleft, hright⟩ := hsorted.exists_pairs
  exact .arms hkey (hasArms_collapseArms key l) (hasArms_collapseArms key k) pairs hpairs hleft
    hright

/-- The members have the same keys in the same order, and descriptions that are the same. -/
def SameMembers (R : NodeId → NodeId → Prop) (a b : List (String × Json)) : Prop :=
  List.Forall₂ (fun m n : String × Json => m.1 = n.1 ∧ SameUpTo R m.2 n.2) a b

theorem SameMembers.sameUpTo {a b : List (String × Json)} (h : SameMembers R a b) :
    SameUpTo R (.object a) (.object b) := by
  have hsplit : ∃ l : List (String × Json × Json), (∀ e ∈ l, SameUpTo R e.2.1 e.2.2) ∧
      (l.map fun e => (e.1, e.2.1)) = a ∧ (l.map fun e => (e.1, e.2.2)) = b := by
    induction h with
    | nil => exact ⟨[], nofun, rfl, rfl⟩
    | @cons m n a b hmn _ ih =>
      obtain ⟨l, hl, rfl, rfl⟩ := ih
      refine ⟨(m.1, m.2, n.2) :: l, fun e he => ?_, rfl, ?_⟩
      · rcases List.mem_cons.1 he with rfl | he
        · exact hmn.2
        · exact hl e he
      · rw [List.map_cons, hmn.1]
  obtain ⟨l, hl, rfl, rfl⟩ := hsplit
  exact .members l hl

theorem SameMembers.setMember {a b : List (String × Json)} (h : SameMembers R a b) (key : String)
    {v w : Json} (hvw : SameUpTo R v w) :
    SameMembers R (Json.setMember key v a) (Json.setMember key w b) := by
  induction h with
  | nil => exact .cons ⟨rfl, hvw⟩ .nil
  | @cons m n a b hmn hrest ih =>
    obtain ⟨k, x⟩ := m
    obtain ⟨k', y⟩ := n
    obtain rfl : k = k' := hmn.1
    rw [Json.setMember, Json.setMember]
    split
    · exact .cons ⟨rfl, hvw⟩ hrest
    · exact .cons hmn ih

theorem sameUpTo_properties {p q : SortedMap String Property} (h : SameProperties R p q)
    {f f' : NodeId → Json} (hf : ∀ t u, R t u → SameUpTo R (f t) (f' u)) :
    SameUpTo R
      (.object (p.entries.foldl (fun members (name, property) =>
        Json.setMember (if property.optional then name ++ "?" else name) (f property.type)
          members) []))
      (.object (q.entries.foldl (fun members (name, property) =>
        Json.setMember (if property.optional then name ++ "?" else name) (f' property.type)
          members) [])) := by
  refine SameMembers.sameUpTo ?_
  have hfold : ∀ (l k : List (String × Property)) (a b : List (String × Json)),
      List.Forall₂ (fun e f : String × Property =>
        e.1 = f.1 ∧ e.2.optional = f.2.optional ∧ R e.2.type f.2.type) l k →
      SameMembers R a b →
        SameMembers R
          (l.foldl (fun members (name, property) =>
            Json.setMember (if property.optional then name ++ "?" else name) (f property.type)
              members) a)
          (k.foldl (fun members (name, property) =>
            Json.setMember (if property.optional then name ++ "?" else name) (f' property.type)
              members) b) := by
    intro l k a b hlk
    induction hlk generalizing a b with
    | nil => exact id
    | @cons e e' _ _ hee _ ih =>
      obtain ⟨name, property⟩ := e
      obtain ⟨name', property'⟩ := e'
      obtain ⟨rfl, hoptional, htype⟩ : name = name' ∧ property.optional = property'.optional ∧
        R property.type property'.type := hee
      intro hab
      rw [List.foldl_cons, List.foldl_cons]
      refine ih _ _ ?_
      dsimp only
      rw [hoptional]
      exact hab.setMember _ (hf _ _ htype)
  exact hfold _ _ [] [] h .nil

/-! ### Types inside of types -/

/-- The depth that is left is enough for the types that are not on the stack. -/
structure Suffices (g : Graph) (fuel : Nat) (stack : List NodeId) : Prop where
  nodup : stack.Nodup
  inside : ∀ u ∈ stack, u < g.size
  depth : g.size + 1 ≤ fuel + stack.length

theorem Suffices.exists_succ {g : Graph} {fuel : Nat} {stack : List NodeId}
    (h : Suffices g fuel stack) : ∃ n, fuel = n + 1 := by
  have hlength : stack.length ≤ (List.range g.size).length :=
    h.nodup.length_le_of_subset fun u hu => List.mem_range.2 (h.inside u hu)
  rw [List.length_range] at hlength
  have hdepth := h.depth
  exact ⟨fuel - 1, by omega⟩

theorem Suffices.push {g : Graph} {fuel : Nat} {stack : List NodeId}
    (h : Suffices g (fuel + 1) stack) {t : NodeId} (ht : t ∉ stack)
    (hshape : ∀ kind, g.shape t ≠ .primitive kind) : Suffices g fuel (t :: stack) where
  nodup := List.nodup_cons.2 ⟨ht, h.nodup⟩
  inside u hu := by
    rcases List.mem_cons.1 hu with rfl | hu
    · exact lt_size_of_shape rfl (hshape .none)
    · exact h.inside u hu
  depth := by
    have hdepth := h.depth
    rw [List.length_cons]
    omega

theorem mem_iff_of_forall₂ (hR : Relator.BiUnique R) {stack stack' : List NodeId}
    (h : List.Forall₂ R stack stack') {t u : NodeId} (htu : R t u) : t ∈ stack ↔ u ∈ stack' := by
  induction h with
  | nil => simp only [List.not_mem_nil]
  | cons hab _ ih =>
    rw [List.mem_cons, List.mem_cons, ih]
    refine or_congr_left ⟨?_, ?_⟩
    · rintro rfl
      exact hR.2 htu hab
    · rintro rfl
      exact hR.1 htu hab

theorem Corresponds.ne_primitive {s s' : Shape} (h : Corresponds R s s')
    (hs : ∀ kind, s ≠ .primitive kind) : ∀ kind, s' ≠ .primitive kind := by
  rintro kind rfl
  cases h with
  | primitive kind => exact hs kind rfl

theorem isNested_eq (hR : Relator.BiUnique R) {s s' : Shape} (h : Corresponds R s s') :
    isNested s = isNested s' := by
  cases h with
  | @intersection l k hmembers =>
    have hlength := hmembers.length_eq hR (SortedSet.nodup l) (SortedSet.nodup k)
    change (l.toList.length == 1) = (k.toList.length == 1)
    rw [hlength]
  | _ => rfl

theorem describeIn_succ (g : Graph) (fuel : Nat) (stack : List NodeId) (t : NodeId)
    (ht : t ∉ stack) : g.describeIn (fuel + 1) stack t =
      match g.shape t with
      | .primitive kind => .string kind.name
      | .enumeration cases => .object [("enum", .ofStrings cases.toList)]
      | .array items => .object [("array", g.describeIn fuel (t :: stack) items)]
      | .record p =>
        .object [("class", .object (p.entries.foldl (fun members (name, property) =>
          Json.setMember (if property.optional then name ++ "?" else name)
            (g.describeIn fuel (t :: stack) property.type) members) []))]
      | .object p additional =>
        .object [("object", .object (p.entries.foldl (fun members (name, property) =>
          Json.setMember (if property.optional then name ++ "?" else name)
            (g.describeIn fuel (t :: stack) property.type) members) [])),
          ("additional", match additional with
            | some a => g.describeIn fuel (t :: stack) a
            | none => .null)]
      | .map values => .object [("map", g.describeIn fuel (t :: stack) values)]
      | .union none | .intersection none => .object [("pending", .ofNat t)]
      | .union (some members) =>
        collapseArms "union" (g.flattenIn fuel (t :: stack) members.toList)
      | .intersection (some members) =>
        collapseArms "allOf" (members.toList.map (g.describeIn fuel (t :: stack))) := by
  rw [describeIn]
  exact if_neg (mt List.contains_iff_mem.1 ht)

variable {g g' : Graph} {fuel : Nat}

/-- The two walks went through related nodes, and none of them runs out. Their depths differ, as the
graphs differ in size. -/
structure SideBySide (R : NodeId → NodeId → Prop) (g g' : Graph) (fuel fuel' : Nat)
    (stack stack' : List NodeId) : Prop where
  left : Suffices g fuel stack
  right : Suffices g' fuel' stack'
  related : List.Forall₂ R stack stack'

theorem SideBySide.push {fuel' : Nat} {stack stack' : List NodeId}
    (h : SideBySide R g g' (fuel + 1) (fuel' + 1) stack stack') (hR : Relator.BiUnique R)
    {t u : NodeId} (htu : R t u) (hmet : t ∉ stack)
    (hcorresponds : Corresponds R (g.shape t) (g'.shape u))
    (hshape : ∀ kind, g.shape t ≠ .primitive kind) :
    SideBySide R g g' fuel fuel' (t :: stack) (u :: stack') where
  left := h.left.push hmet hshape
  right := h.right.push (mt (mem_iff_of_forall₂ hR h.related htu).2 hmet)
    (hcorresponds.ne_primitive hshape)
  related := .cons htu h.related

/-- Related nodes are described alike. -/
def DescribesAlike (R : NodeId → NodeId → Prop) (g g' : Graph) (fuel : Nat) : Prop :=
  ∀ fuel' stack stack' t u, SideBySide R g g' fuel fuel' stack stack' → R t u →
    SameUpTo R (g.describeIn fuel stack t) (g'.describeIn fuel' stack' u)

/-- Related nodes have the same arms. -/
def FlattensAlike (R : NodeId → NodeId → Prop) (g g' : Graph) (fuel : Nat) : Prop :=
  ∀ fuel' stack stack' l k, SideBySide R g g' fuel fuel' stack stack' → Paired R l k →
    Paired (SameUpTo R) (g.flattenIn fuel stack l) (g'.flattenIn fuel' stack' k)

theorem describesAlike_succ (hR : Relator.BiUnique R)
    (hshape : ∀ t u, R t u → Corresponds R (g.shape t) (g'.shape u))
    (hdescribe : DescribesAlike R g g' fuel) (hflatten : FlattensAlike R g g' fuel) :
    DescribesAlike R g g' (fuel + 1) := by
  intro fuel' stack stack' t u hbeside htu
  obtain ⟨fuel', rfl⟩ := hbeside.right.exists_succ
  have hmem := mem_iff_of_forall₂ hR hbeside.related htu
  by_cases hmet : t ∈ stack
  · rw [describeIn, describeIn, if_pos (List.contains_iff_mem.2 hmet),
      if_pos (List.contains_iff_mem.2 (hmem.1 hmet))]
    exact .mark htu
  · rw [describeIn_succ g fuel stack t hmet, describeIn_succ g' fuel' stack' u (mt hmem.2 hmet)]
    have hcorresponds := hshape t u htu
    have hpush := hbeside.push hR htu hmet hcorresponds
    have hdeeper : (∀ kind, g.shape t ≠ .primitive kind) → ∀ v w, R v w →
        SameUpTo R (g.describeIn fuel (t :: stack) v) (g'.describeIn fuel' (u :: stack') w) :=
      fun hne v w hvw => hdescribe _ _ _ v w (hpush hne) hvw
    generalize g.shape t = s, g'.shape u = s' at hcorresponds hpush hdeeper ⊢
    cases hcorresponds with
    | primitive kind => exact .text _
    | enumeration cases => exact .cases _
    | array h => exact .member _ (hdeeper (by simp) _ _ h)
    | record h => exact .member _ (sameUpTo_properties h (hdeeper (by simp)))
    | object h hadditional =>
      refine .twoMembers _ _ (sameUpTo_properties h (hdeeper (by simp))) ?_
      cases hadditional with
      | none => exact .null
      | some h => exact hdeeper (by simp) _ _ h
    | map h => exact .member _ (hdeeper (by simp) _ _ h)
    | union h =>
      exact sameUpTo_collapseArms (.inl rfl) (hflatten _ _ _ _ _ (hpush (by simp)) h)
    | intersection h => exact sameUpTo_collapseArms (.inr rfl) (h.map (hdeeper (by simp)))

theorem flattensAlike_succ (hR : Relator.BiUnique R)
    (hshape : ∀ t u, R t u → Corresponds R (g.shape t) (g'.shape u))
    (hdescribe : DescribesAlike R g g' (fuel + 1)) (hflatten : FlattensAlike R g g' fuel) :
    FlattensAlike R g g' (fuel + 1) := by
  intro fuel' stack stack' l k hbeside hlk
  obtain ⟨fuel', rfl⟩ := hbeside.right.exists_succ
  rw [flattenIn, flattenIn]
  refine hlk.flatMap fun m n hmn => ?_
  have hmem := mem_iff_of_forall₂ hR hbeside.related hmn
  have hcorresponds := hshape m n hmn
  have hnested := isNested_eq hR hcorresponds
  by_cases hmet : m ∈ stack
  · rw [if_pos (List.contains_iff_mem.2 hmet), if_pos (List.contains_iff_mem.2 (hmem.1 hmet))]
    exact .singleton (.mark hmn)
  · rw [if_neg (mt List.contains_iff_mem.1 hmet),
      if_neg (mt List.contains_iff_mem.1 (mt hmem.2 hmet))]
    by_cases hm : isNested (g.shape m) = true
    · rw [if_pos hm, if_pos (hnested ▸ hm)]
      have hpush := hbeside.push hR hmn hmet hcorresponds
      generalize g.shape m = s, g'.shape n = s' at hcorresponds hm hpush ⊢
      cases hcorresponds with
      | union h => exact hflatten _ _ _ _ _ (hpush (by simp)) h
      | intersection h => exact hflatten _ _ _ _ _ (hpush (by simp)) h
      | _ => cases hm
    · rw [if_neg hm, if_neg (hnested ▸ hm)]
      exact .singleton (hdescribe _ _ _ _ _ hbeside hmn)

theorem describesAlike_flattensAlike (hR : Relator.BiUnique R)
    (hshape : ∀ t u, R t u → Corresponds R (g.shape t) (g'.shape u)) (fuel : Nat) :
    DescribesAlike R g g' fuel ∧ FlattensAlike R g g' fuel := by
  induction fuel with
  | zero =>
    refine ⟨fun _ _ _ _ _ h => ?_, fun _ _ _ _ _ h => ?_⟩ <;>
    · obtain ⟨n, hn⟩ := h.left.exists_succ
      cases hn
  | succ fuel ih =>
    have hdescribe := describesAlike_succ hR hshape ih.1 ih.2
    exact ⟨hdescribe, flattensAlike_succ hR hshape hdescribe ih.2⟩

/-- Corresponding types have descriptions that are the same up to the numbers of nodes. -/
theorem describe_sameUpTo (hR : Relator.BiUnique R)
    (hshape : ∀ t u, R t u → Corresponds R (g.shape t) (g'.shape u)) {t u : NodeId} (htu : R t u) :
    SameUpTo R (g.describe t) (g'.describe u) := by
  have hstart : ∀ k : Graph, Suffices k (2 * k.size + 2) [] := fun k =>
    ⟨.nil, nofun, by rw [List.length_nil]; omega⟩
  exact (describesAlike_flattensAlike hR hshape _).1 _ [] [] t u ⟨hstart g, hstart g', .nil⟩ htu

end Graph

end JsonTyping
