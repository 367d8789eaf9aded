import JsonTyping.Proofs.CompactTexts
import JsonTyping.Proofs.GraphIsomorphism
import JsonTyping.Proofs.Rearranged

/-!
# Equal descriptions

A node is *grounded* when nothing that is reached from it leads back to itself, and all of it has
its members (`Graph.Grounded`). Nothing in the description of such a node is a number of a node, and
no two different arms have the same text (`Json.compact_inj`), so the order of arms does not depend
on the numbers of nodes either: corresponding types have the same description
(`Graph.describe_eq_of_corresponds`).
-/

namespace JsonTyping

theorem isLE_iff_of_texts (a b : String × Json) :
    (compare a.1 b.1 != .gt) = true ↔ (compare a.1 b.1).isLE :=
  bne_iff_ne.trans Ordering.ne_gt_iff_isLE

/-- The order in which arms are put is that of their texts. -/
theorem pairwise_sorted (arms : List (String × Json)) :
    (arms.mergeSort fun a b => compare a.1 b.1 != .gt).Pairwise
      fun a b => (compare a.1 b.1 != .gt) = true := by
  refine List.pairwise_mergeSort (fun a b c hab hbc => ?_) (fun a b => ?_) _
  · exact (isLE_iff_of_texts a c).2
      (Std.TransCmp.isLE_trans ((isLE_iff_of_texts a b).1 hab) ((isLE_iff_of_texts b c).1 hbc))
  · rw [Bool.or_eq_true, isLE_iff_of_texts, isLE_iff_of_texts]
    rcases hcompare : compare a.1 b.1 with _ | _ | _
    · exact .inl rfl
    · exact .inl rfl
    · rw [Std.OrientedCmp.gt_iff_lt.1 hcompare]
      exact .inr rfl

/-- Arms are sorted by their texts, so if these tell them apart, the order they come in does not
count. -/
theorem sortArms_eq_of_perm {l k : List Json} (h : l.Perm k)
    (hinj : ∀ v ∈ l, ∀ w ∈ l, v.compact = w.compact → v = w) : sortArms l = sortArms k := by
  have hperm : ∀ arms : List Json, ((arms.map fun v => (v.compact, v)).mergeSort
      fun a b => compare a.1 b.1 != .gt).Perm (arms.map fun v => (v.compact, v)) :=
    fun arms => List.mergeSort_perm _ _
  have hsame : ((l.map fun v => (v.compact, v)).mergeSort fun a b => compare a.1 b.1 != .gt) =
      (k.map fun v => (v.compact, v)).mergeSort fun a b => compare a.1 b.1 != .gt := by
    refine List.Perm.eq_of_pairwise (fun a b ha hb hab hba => ?_) (pairwise_sorted _)
      (pairwise_sorted _) ((hperm l).trans ((h.map _).trans (hperm k).symm))
    obtain ⟨v, hv, rfl⟩ := List.mem_map.1 ((hperm l).mem_iff.1 ha)
    obtain ⟨w, hw, rfl⟩ := List.mem_map.1 ((hperm k).mem_iff.1 hb)
    -- Arms that may stand in either order have the same text.
    have htexts : v.compact = w.compact := Std.LawfulEqCmp.eq_of_compare
      (Std.OrientedCmp.isLE_antisymm ((isLE_iff_of_texts _ _).1 hab)
        ((isLE_iff_of_texts _ _).1 hba))
    rw [hinj v hv w (h.mem_iff.2 hw) htexts]
  simp only [sortArms, hsame]

namespace Json

/-- The same value, without numbers in it. -/
def SamePlain (v w : Json) : Prop := v = w ∧ v.NumberFree

theorem SamePlain.member {v w : Json} (key : String) (h : SamePlain v w) :
    SamePlain (.object [(key, v)]) (.object [(key, w)]) := by
  refine ⟨by rw [h.1], .object fun m hm => ?_⟩
  obtain rfl := List.mem_singleton.1 hm
  exact h.2

theorem SamePlain.twoMembers {v v' w w' : Json} (key key' : String) (h : SamePlain v w)
    (h' : SamePlain v' w') :
    SamePlain (.object [(key, v), (key', v')]) (.object [(key, w), (key', w')]) := by
  refine ⟨by rw [h.1, h'.1], .object fun m hm => ?_⟩
  rcases List.mem_cons.1 hm with rfl | hm
  · exact h.2
  · obtain rfl := List.mem_singleton.1 hm
    exact h'.2

theorem SamePlain.cases (l : List String) :
    SamePlain (.object [("enum", .ofStrings l)]) (.object [("enum", .ofStrings l)]) := by
  refine SamePlain.member "enum" ⟨rfl, .array fun v hv => ?_⟩
  obtain ⟨s, -, rfl⟩ := List.mem_map.1 hv
  exact .string s

theorem forall_setMember {P : Json → Prop} {key : String} {v : Json} (hv : P v)
    {members : List (String × Json)} (h : ∀ m ∈ members, P m.2) :
    ∀ m ∈ setMember key v members, P m.2 := by
  induction members with
  | nil =>
    intro m hm
    obtain rfl := List.mem_singleton.1 hm
    exact hv
  | cons m members ih =>
    obtain ⟨k, w⟩ := m
    intro n hn
    rw [setMember] at hn
    split at hn
    · rcases List.mem_cons.1 hn with rfl | hn
      · exact hv
      · exact h n (List.mem_cons_of_mem _ hn)
    · rcases List.mem_cons.1 hn with rfl | hn
      · exact h (k, w) List.mem_cons_self
      · exact ih (fun m hm => h m (List.mem_cons_of_mem _ hm)) n hn

theorem samePlain_collapseArms (key : String) {l k : List Json} (h : Shuffled SamePlain l k) :
    SamePlain (collapseArms key l) (collapseArms key k) := by
  obtain ⟨zs, hperm, hzs⟩ := h
  obtain rfl : zs = k := List.forall₂_eq_eq_eq ▸ hzs.imp fun v w hvw => hvw.1
  have hfree : ∀ v ∈ l, v.NumberFree := fun v hv => by
    obtain ⟨w, -, hvw⟩ := exists_right_of_forall₂ hzs (hperm.mem_iff.1 hv)
    exact hvw.2
  have hsort := sortArms_eq_of_perm hperm fun v hv w hw =>
    compact_inj (hfree v hv).legible (hfree w hw).legible
  refine ⟨by rw [collapseArms, collapseArms, hsort], ?_⟩
  have hsorted : ∀ v ∈ sortArms l, v.NumberFree := fun v hv =>
    hfree v (Graph.mem_sorted_iff.1 (Graph.mem_of_mem_dedup hv))
  rcases Graph.hasArms_collapseArms key l with honly | hmany
  · exact hsorted _ (honly ▸ List.mem_singleton_self _)
  · rw [hmany]
    refine .object fun m hm => ?_
    obtain rfl := List.mem_singleton.1 hm
    exact .array hsorted

end Json

section Restrict

variable {α β : Type} {R : α → β → Prop} {P : α → Prop} {l : List α} {k : List β}

theorem biUnique_restrict (hR : Relator.BiUnique R) :
    Relator.BiUnique fun a b => R a b ∧ P a :=
  ⟨fun _ _ _ h h' => hR.1 h.1 h'.1, fun _ _ _ h h' => hR.2 h.1 h'.1⟩

theorem Paired.restrict (h : Paired R l k) (hP : ∀ a ∈ l, P a) :
    Paired (fun a b => R a b ∧ P a) l k := by
  refine ⟨fun a ha => ?_, fun b hb => ?_⟩
  · obtain ⟨b, hb, hab⟩ := h.1 a ha
    exact ⟨b, hb, hab, hP a ha⟩
  · obtain ⟨a, ha, hab⟩ := h.2 b hb
    exact ⟨a, ha, hab, hP a ha⟩

/-- Elements without repetition that are paired one to one correspond in some order. -/
theorem Paired.shuffled (hR : Relator.BiUnique R) (hl : l.Nodup) (hk : k.Nodup)
    (h : Paired R l k) : Shuffled R l k := by
  induction k generalizing l with
  | nil =>
    have hnil : l = [] := List.eq_nil_iff_forall_not_mem.2 fun a ha => by
      obtain ⟨b, hb, -⟩ := h.1 a ha
      cases hb
    rw [hnil]
    exact .nil
  | cons b k ih =>
    obtain ⟨a, ha, hab⟩ := h.2 b List.mem_cons_self
    obtain ⟨before, after, rfl⟩ := List.append_of_mem ha
    have hperm : (before ++ a :: after).Perm (a :: (before ++ after)) := List.perm_middle
    obtain ⟨hnew, hrest⟩ := List.nodup_cons.1 (hperm.nodup_iff.1 hl)
    obtain ⟨hnew', hrest'⟩ := List.nodup_cons.1 hk
    have hpaired : Paired R (before ++ after) k := by
      refine ⟨fun c hc => ?_, fun d hd => ?_⟩
      · obtain ⟨d, hd, hcd⟩ := h.1 c (hperm.mem_iff.2 (List.mem_cons_of_mem a hc))
        refine ⟨d, (List.mem_cons.1 hd).resolve_left ?_, hcd⟩
        rintro rfl
        exact hnew (hR.1 hcd hab ▸ hc)
      · obtain ⟨c, hc, hcd⟩ := h.2 d (List.mem_cons_of_mem b hd)
        refine ⟨c, (List.mem_cons.1 (hperm.mem_iff.1 hc)).resolve_left ?_, hcd⟩
        rintro rfl
        exact hnew' (hR.2 hcd hab ▸ hd)
    obtain ⟨zs, hzs, hrelated⟩ := ih hrest hrest' hpaired
    exact ⟨a :: zs, hperm.trans (hzs.cons a), .cons hab hrelated⟩

end Restrict

namespace Graph

variable {R : NodeId → NodeId → Prop} {g g' : Graph} {t u v : NodeId}

theorem SameProperties.restrict {P : NodeId → Prop} {p q : SortedMap String Property}
    (h : SameProperties R p q) (hP : ∀ t ∈ p.values.map Property.type, P t) :
    SameProperties (fun t u => R t u ∧ P t) p q := by
  have hentries : ∀ l k : List (String × Property), (∀ e ∈ l, P e.2.type) →
      List.Forall₂ (fun e f : String × Property =>
        e.1 = f.1 ∧ e.2.optional = f.2.optional ∧ R e.2.type f.2.type) l k →
      List.Forall₂ (fun e f : String × Property =>
        e.1 = f.1 ∧ e.2.optional = f.2.optional ∧ R e.2.type f.2.type ∧ P e.2.type) l k := by
    intro l k hl hlk
    induction hlk with
    | nil => exact .nil
    | cons hef _ ih =>
      obtain ⟨hkey, hoptional, htype⟩ := hef
      refine .cons ⟨hkey, hoptional, htype, hl _ List.mem_cons_self⟩ (ih fun e he => ?_)
      exact hl e (List.mem_cons_of_mem _ he)
  refine hentries p.entries q.entries (fun e he => hP _ ?_) h
  exact List.mem_map.2 ⟨e.2, List.mem_map.2 ⟨e, he, rfl⟩, rfl⟩

theorem Corresponds.restrict {P : NodeId → Prop} {s s' : Shape} (h : Corresponds R s s')
    (hP : ∀ t ∈ s.parts, P t) : Corresponds (fun t u => R t u ∧ P t) s s' := by
  cases h with
  | primitive kind => exact .primitive kind
  | enumeration cases => exact .enumeration cases
  | array h => exact .array ⟨h, hP _ (List.mem_singleton_self _)⟩
  | record h => exact .record (h.restrict hP)
  | object h hadditional =>
    refine .object (h.restrict fun t ht => hP t (List.mem_append_left _ ht)) ?_
    cases hadditional with
    | none => exact .none
    | some h => exact .some ⟨h, hP _ (List.mem_append_right _ (List.mem_singleton_self _))⟩
  | map h => exact .map ⟨h, hP _ (List.mem_singleton_self _)⟩
  | union h => exact .union (h.restrict hP)
  | intersection h => exact .intersection (h.restrict hP)

/-! ### Grounded nodes -/

/-- Everything that is reached from the node has its members, and going on from part to part comes
to an end. -/
inductive Grounded (g : Graph) : NodeId → Prop
  | intro {t : NodeId} (hfilled : (g.shape t).IsFilled)
      (hparts : ∀ u ∈ (g.shape t).parts, Grounded g u) : Grounded g t

theorem Reaches.of_part (hu : u ∈ (g.shape t).parts) (h : g.Reaches u v) : g.Reaches t v := by
  induction h with
  | refl => exact .part .refl hu
  | part _ hv ih => exact ih.part hv

theorem Reaches.cases_part (h : g.Reaches t u) :
    t = u ∨ ∃ v ∈ (g.shape t).parts, g.Reaches v u := by
  induction h with
  | refl => exact .inl rfl
  | part _ hv ih =>
    rcases ih with rfl | ⟨w, hw, hreaches⟩
    · exact .inr ⟨_, hv, .refl⟩
    · exact .inr ⟨w, hw, hreaches.part hv⟩

theorem Grounded.not_reaches (h : g.Grounded t) :
    ∀ v ∈ (g.shape t).parts, ¬ g.Reaches v t := by
  induction h with
  | @intro t _ _ ih =>
    intro v hv hreaches
    rcases hreaches.cases_part with rfl | ⟨w, hw, hback⟩
    · exact ih v hv v hv .refl
    · exact ih v hv w hw (hback.part hv)

/-- The walk is at a grounded node, and nothing that was passed will be met again. -/
structure Below (g : Graph) (stack : List NodeId) (t : NodeId) : Prop where
  grounded : g.Grounded t
  clear : ∀ v ∈ stack, ¬ g.Reaches t v

theorem Below.not_mem {stack : List NodeId} (h : g.Below stack t) : t ∉ stack :=
  fun ht => h.clear t ht .refl

theorem Below.part {stack : List NodeId} (h : g.Below stack t) (hu : u ∈ (g.shape t).parts) :
    g.Below (t :: stack) u := by
  have hgrounded := h.grounded
  cases h.grounded with
  | intro _ hparts =>
    refine ⟨hparts u hu, fun v hv => ?_⟩
    rcases List.mem_cons.1 hv with rfl | hv
    · exact hgrounded.not_reaches u hu
    · exact fun hreaches => h.clear v hv (hreaches.of_part hu)

theorem samePlain_properties {p q : SortedMap String Property} (h : SameProperties R p q)
    {f f' : NodeId → Json} (hf : ∀ t u, R t u → Json.SamePlain (f t) (f' u)) :
    Json.SamePlain
      (.object (p.entries.foldl (fun members (name, property) =>
        Json.setMember (if property.optional then name ++ "?" else name) (f property.type)
          members) []))
      (.object (q.entries.foldl (fun members (name, property) =>
        Json.setMember (if property.optional then name ++ "?" else name) (f' property.type)
          members) [])) := by
  have hfold : ∀ (l k : List (String × Property)) (a : List (String × Json)),
      List.Forall₂ (fun e f : String × Property =>
        e.1 = f.1 ∧ e.2.optional = f.2.optional ∧ R e.2.type f.2.type) l k →
      (∀ m ∈ a, m.2.NumberFree) →
        Json.SamePlain
          (.object (l.foldl (fun members (name, property) =>
            Json.setMember (if property.optional then name ++ "?" else name) (f property.type)
              members) a))
          (.object (k.foldl (fun members (name, property) =>
            Json.setMember (if property.optional then name ++ "?" else name) (f' property.type)
              members) a)) := by
    intro l k a hlk
    induction hlk generalizing a with
    | nil => exact fun ha => ⟨rfl, .object ha⟩
    | @cons e e' _ _ hee _ ih =>
      obtain ⟨name, property⟩ := e
      obtain ⟨name', property'⟩ := e'
      obtain ⟨rfl, hoptional, htype⟩ : name = name' ∧ property.optional = property'.optional ∧
        R property.type property'.type := hee
      obtain ⟨hvalue, hfree⟩ := hf _ _ htype
      intro ha
      rw [List.foldl_cons, List.foldl_cons]
      dsimp only
      rw [← hoptional, ← hvalue]
      exact ih _ (Json.forall_setMember hfree ha)
  exact hfold _ _ [] h nofun

variable {fuel : Nat}

/-- Related nodes have the same description, below what was passed. -/
def DescribesEqual (R : NodeId → NodeId → Prop) (g g' : Graph) (fuel : Nat) : Prop :=
  ∀ fuel' stack stack' t u, SideBySide R g g' fuel fuel' stack stack' → R t u → g.Below stack t →
    Json.SamePlain (g.describeIn fuel stack t) (g'.describeIn fuel' stack' u)

/-- Related members have the same arms but for their order. -/
def FlattensEqual (R : NodeId → NodeId → Prop) (g g' : Graph) (fuel : Nat) : Prop :=
  ∀ fuel' stack stack' l k, SideBySide R g g' fuel fuel' stack stack' →
    Shuffled (fun m n => R m n ∧ g.Below stack m) l k →
    Shuffled Json.SamePlain (g.flattenIn fuel stack l) (g'.flattenIn fuel' stack' k)

theorem describesEqual_succ (hR : Relator.BiUnique R)
    (hshape : ∀ t u, R t u → Corresponds R (g.shape t) (g'.shape u))
    (hdescribe : DescribesEqual R g g' fuel) (hflatten : FlattensEqual R g g' fuel) :
    DescribesEqual R g g' (fuel + 1) := by
  intro fuel' stack stack' t u hbeside htu hbelow
  obtain ⟨fuel', rfl⟩ := hbeside.right.exists_succ
  have hmem := mem_iff_of_forall₂ hR hbeside.related htu
  rw [describeIn_succ g fuel stack t hbelow.not_mem,
    describeIn_succ g' fuel' stack' u (mt hmem.2 hbelow.not_mem)]
  -- The parts lie below as well, so the relation is restricted to nodes that do.
  have hcorresponds := (hshape t u htu).restrict fun v hv => hbelow.part hv
  have hpush := hbeside.push hR htu hbelow.not_mem (hshape t u htu)
  have hdeeper : (∀ kind, g.shape t ≠ .primitive kind) →
      ∀ v w, R v w ∧ g.Below (t :: stack) v → Json.SamePlain (g.describeIn fuel (t :: stack) v)
        (g'.describeIn fuel' (u :: stack') w) :=
    fun hne v w hvw => hdescribe _ _ _ v w (hpush hne) hvw.1 hvw.2
  have hunique := biUnique_restrict (P := g.Below (t :: stack)) hR
  generalize g.shape t = s, g'.shape u = s' at hcorresponds hpush hdeeper ⊢
  cases hcorresponds with
  | primitive kind => exact ⟨rfl, .string _⟩
  | enumeration cases => exact .cases _
  | array h => exact .member _ (hdeeper (by simp) _ _ h)
  | record h => exact .member _ (samePlain_properties h (hdeeper (by simp)))
  | object h hadditional =>
    refine .twoMembers _ _ (samePlain_properties h (hdeeper (by simp))) ?_
    cases hadditional with
    | none => exact ⟨rfl, .null⟩
    | some h => exact hdeeper (by simp) _ _ h
  | map h => exact .member _ (hdeeper (by simp) _ _ h)
  | @union l k h =>
    refine Json.samePlain_collapseArms _ (hflatten _ _ _ _ _ (hpush (by simp)) ?_)
    exact h.shuffled hunique l.nodup k.nodup
  | @intersection l k h =>
    refine Json.samePlain_collapseArms _ ?_
    obtain ⟨zs, hperm, hzs⟩ := h.shuffled hunique l.nodup k.nodup
    exact ⟨_, hperm.map _, List.forall₂_map_left_iff.2 (List.forall₂_map_right_iff.2
      (hzs.imp (hdeeper (by simp))))⟩

theorem flattensEqual_succ (hR : Relator.BiUnique R)
    (hshape : ∀ t u, R t u → Corresponds R (g.shape t) (g'.shape u))
    (hdescribe : DescribesEqual R g g' (fuel + 1)) (hflatten : FlattensEqual R g g' fuel) :
    FlattensEqual R g g' (fuel + 1) := by
  intro fuel' stack stack' l k hbeside hlk
  obtain ⟨fuel', rfl⟩ := hbeside.right.exists_succ
  rw [flattenIn, flattenIn]
  refine hlk.flatMap fun m n hmn => ?_
  obtain ⟨hmn, hbelow⟩ := hmn
  have hmem := mem_iff_of_forall₂ hR hbeside.related hmn
  have hnested := isNested_eq hR (hshape m n hmn)
  rw [if_neg (mt List.contains_iff_mem.1 hbelow.not_mem),
    if_neg (mt List.contains_iff_mem.1 (mt hmem.2 hbelow.not_mem))]
  by_cases hm : isNested (g.shape m) = true
  · rw [if_pos hm, if_pos (hnested ▸ hm)]
    have hpush := hbeside.push hR hmn hbelow.not_mem (hshape m n hmn)
    have hunique := biUnique_restrict (P := g.Below (m :: stack)) hR
    have hcorresponds := (hshape m n hmn).restrict fun v hv => hbelow.part hv
    generalize g.shape m = s, g'.shape n = s' at hcorresponds hm hpush ⊢
    cases hcorresponds with
    | @union l k h | @intersection l k h =>
      exact hflatten _ _ _ _ _ (hpush (by simp)) (h.shuffled hunique l.nodup k.nodup)
    | _ => cases hm
  · rw [if_neg hm, if_neg (hnested ▸ hm)]
    exact .of_forall₂ (.cons (hdescribe _ _ _ _ _ hbeside hmn hbelow) .nil)

theorem describesEqual_flattensEqual (hR : Relator.BiUnique R)
    (hshape : ∀ t u, R t u → Corresponds R (g.shape t) (g'.shape u)) (fuel : Nat) :
    DescribesEqual R g g' fuel ∧ FlattensEqual R g g' fuel := by
  induction fuel with
  | zero =>
    refine ⟨fun _ _ _ _ _ h => ?_, fun _ _ _ _ _ h => ?_⟩ <;>
    · obtain ⟨n, hn⟩ := h.left.exists_succ
      cases hn
  | succ fuel ih =>
    have hdescribe := describesEqual_succ hR hshape ih.1 ih.2
    exact ⟨hdescribe, flattensEqual_succ hR hshape hdescribe ih.2⟩

/-- The description of a grounded type does not depend on the numbers of nodes. -/
theorem describe_eq_of_corresponds (hR : Relator.BiUnique R)
    (hshape : ∀ t u, R t u → Corresponds R (g.shape t) (g'.shape u)) (htu : R t u)
    (ht : g.Grounded t) : g.describe t = g'.describe u := by
  have hstart : ∀ k : Graph, Suffices k (2 * k.size + 2) [] := fun k =>
    ⟨.nil, nofun, by rw [List.length_nil]; omega⟩
  exact ((describesEqual_flattensEqual hR hshape _).1 _ [] [] t u
    ⟨hstart g, hstart g', .nil⟩ htu ⟨ht, nofun⟩).1

end Graph

end JsonTyping
