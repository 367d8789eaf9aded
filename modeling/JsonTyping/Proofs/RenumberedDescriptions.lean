import JsonTyping.Proofs.DescriptionForms
import JsonTyping.Proofs.GraphCalls
import JsonTyping.Proofs.GraphIsomorphism
import Mathlib.Computability.Primrec.List
import Mathlib.Data.List.Forall2
import Mathlib.Data.List.Permutation
import Mathlib.Data.List.Zip
import Mathlib.Data.Set.Function

/-!
# Descriptions of renumbered types

What is reached from one type may be what is reached from another one under other numbers, with sets
of members that are not known yet among it (`Graph.Renumbered`). Then nothing but the numbers of
nodes and the order of arms differs in the descriptions (`Description.EqualUpTo`), as long as keys
tell the names of properties (`Graph.describe_renumbered`). Otherwise two arms can be equal and have
different texts, and whether they become neighbours, and one of them is left out, depends on the
numbers in the texts of all arms (`Graph.describe_seesNumbers`).
-/

namespace JsonTyping

theorem Paired.of_map {α β γ δ : Type} {R : γ → δ → Prop} {f : α → γ} {g : β → δ} {l : List α}
    {k : List β} (h : Paired R (l.map f) (k.map g)) : Paired (fun a b => R (f a) (g b)) l k := by
  refine ⟨fun a ha => ?_, fun b hb => ?_⟩
  · obtain ⟨_, hmem, hab⟩ := h.1 (f a) (List.mem_map_of_mem ha)
    obtain ⟨b, hb, rfl⟩ := List.mem_map.1 hmem
    exact ⟨b, hb, hab⟩
  · obtain ⟨_, hmem, hab⟩ := h.2 (g b) (List.mem_map_of_mem hb)
    obtain ⟨a, ha, rfl⟩ := List.mem_map.1 hmem
    exact ⟨a, ha, hab⟩

namespace Description

/-- What is written at a position is the same when related numbers of nodes count as equal and arms
are taken as sets. -/
inductive EqualUpTo (R : NodeId → NodeId → Prop) : Position → Json → Json → Prop
  | text (s : String) : EqualUpTo R .type (.string s) (.string s)
  | null : EqualUpTo R .type .null .null
  | tagged {key : String} {p : Position} {v w : Json} (hkey : position? key = some p)
      (h : EqualUpTo R p v w) : EqualUpTo R .type (.object [(key, v)]) (.object [(key, w)])
  | object {members members' additional additional' : Json}
      (hmembers : EqualUpTo R .properties members members')
      (hadditional : EqualUpTo R .type additional additional') :
      EqualUpTo R .type (.object [("object", members), ("additional", additional)])
        (.object [("object", members'), ("additional", additional')])
  | number {t u : NodeId} (h : R t u) : EqualUpTo R .number (.ofNat t) (.ofNat u)
  | cases (v : Json) : EqualUpTo R .cases v v
  | properties {members members' : List (String × Json)}
      (hlength : members.length = members'.length)
      (hkeys : ∀ m n, (m, n) ∈ members.zip members' → m.1 = n.1)
      (h : ∀ m n, (m, n) ∈ members.zip members' → EqualUpTo R .type m.2 n.2) :
      EqualUpTo R .properties (.object members) (.object members')
  | arms {l k : List Json} (pairs : List (Json × Json))
      (h : ∀ e ∈ pairs, EqualUpTo R .type e.1 e.2) (hleft : ∀ v, v ∈ l ↔ v ∈ pairs.map Prod.fst)
      (hright : ∀ w, w ∈ k ↔ w ∈ pairs.map Prod.snd) :
      EqualUpTo R .arms (.array l) (.array k)

variable {R : NodeId → NodeId → Prop} {K : List String → Prop} {p : Position} {v v' w w' : Json}

theorem EqualUpTo.symm (h : EqualUpTo R p v w) : EqualUpTo (fun u t => R t u) p w v := by
  induction h with
  | text s => exact .text s
  | null => exact .null
  | tagged hkey _ ih => exact .tagged hkey ih
  | object _ _ ihmembers ihadditional => exact .object ihmembers ihadditional
  | number h => exact .number h
  | cases v => exact .cases v
  | properties hlength hkeys _ ih =>
    have hswap : ∀ {l k : List (String × Json)} {m n : String × Json},
        (m, n) ∈ k.zip l → (n, m) ∈ l.zip k := fun {l k m n} h => by
      rw [← List.zip_swap]
      exact List.mem_map_of_mem h
    exact .properties hlength.symm (fun m n h => (hkeys n m (hswap h)).symm)
      fun m n h => ih n m (hswap h)
  | arms pairs _ hleft hright ih =>
    refine .arms (pairs.map Prod.swap) (List.forall_mem_map.2 ih) (fun w => ?_) fun v => ?_
    · rw [hright, List.map_map]
      rfl
    · rw [hleft, List.map_map]
      rfl

theorem EqualUpTo.of_forall₂ {members members' : List (String × Json)}
    (h : List.Forall₂ (fun m n => m.1 = n.1 ∧ EqualUpTo R .type m.2 n.2) members members') :
    EqualUpTo R .properties (.object members) (.object members') := by
  obtain ⟨hlength, hzip⟩ := List.forall₂_iff_zip.1 h
  exact .properties hlength (fun m n hmn => (hzip hmn).1) fun m n hmn => (hzip hmn).2

theorem nodup_of_pairwise {l : List Json}
    (h : l.Pairwise fun v w => compare v.compact w.compact = .lt) : l.Nodup := by
  refine List.Pairwise.imp (fun {v w} hlt => ?_) h
  rintro rfl
  rw [Std.ReflOrd.compare_self] at hlt
  cases hlt

/-- Arms in strict order are told by their elements. -/
theorem eq_of_mem_iff {l k : List Json}
    (hl : l.Pairwise fun v w => compare v.compact w.compact = .lt)
    (hk : k.Pairwise fun v w => compare v.compact w.compact = .lt) (h : ∀ v, v ∈ l ↔ v ∈ k) :
    l = k := by
  have hasymm : ∀ v w : Json, compare v.compact w.compact = .lt →
      compare w.compact v.compact = .lt → v = w := fun v w hvw hwv => by
    have hboth := Std.TransCmp.lt_trans hvw hwv
    rw [Std.ReflOrd.compare_self] at hboth
    cases hboth
  exact ((List.perm_ext_iff_of_nodup (nodup_of_pairwise hl) (nodup_of_pairwise hk)).2
    h).eq_of_pairwise (fun v w _ _ => hasymm v w) hl hk

theorem properties_flip {P : Json → Json → Prop} {members members' : List (String × Json)}
    (hlength : members.length = members'.length)
    (hkeys : ∀ m n, (m, n) ∈ members.zip members' → m.1 = n.1)
    (hform : ∀ m ∈ members, Form K .type m.2)
    (h : ∀ m n, (m, n) ∈ members.zip members' → P m.2 n.2) :
    List.Forall₂ (fun n m => n.1 = m.1 ∧ Form K .type m.2 ∧ P m.2 n.2) members' members := by
  refine List.Forall₂.flip (List.forall₂_iff_zip.2 ⟨hlength, fun {m n} hmn => ?_⟩)
  exact ⟨(hkeys m n hmn).symm, hform m (List.of_mem_zip hmn).1, h m n hmn⟩

/-- Of the descriptions equal to one there is only one with its arms in order. -/
theorem EqualUpTo.left_unique (hR : Relator.LeftUnique R) (h : EqualUpTo R p v w)
    (h' : EqualUpTo R p v' w) (hv : Form K p v) (hv' : Form K p v') : v = v' := by
  induction h generalizing v' with
  | text s | null | cases v =>
    cases h'
    rfl
  | tagged hkey _ ih =>
    cases h' with
    | tagged hkey' h' =>
      obtain rfl := Option.some.inj (hkey.symm.trans hkey')
      cases hv with
      | tagged hkey₁ hv =>
        cases hv' with
        | tagged hkey₂ hv' =>
          obtain rfl := Option.some.inj (hkey.symm.trans hkey₁)
          obtain rfl := Option.some.inj (hkey.symm.trans hkey₂)
          rw [ih h' hv hv']
  | object _ _ ihmembers ihadditional =>
    cases h' with
    | object hmembers' hadditional' =>
      cases hv with
      | object hmembers hadditional =>
        cases hv' with
        | object hmembers₂ hadditional₂ =>
          rw [ihmembers hmembers' hmembers hmembers₂,
            ihadditional hadditional' hadditional hadditional₂]
  | number h =>
    cases h' with
    | number h' => rw [hR h h']
  | properties hlength hkeys _ ih =>
    cases h' with
    | properties hlength' hkeys' h' =>
      cases hv with
      | properties _ hv =>
        cases hv' with
        | properties _ hv' =>
          have hown := properties_flip (P := fun v w => ∀ v', EqualUpTo R .type v' w →
            Form K .type v → Form K .type v' → v = v') hlength hkeys hv fun m n hmn v' => ih m n hmn
          have hother := properties_flip (P := EqualUpTo R .type) hlength' hkeys' hv' h'
          refine congrArg Json.object (eq_of_forall₂ (fun n m m' hm hm' => ?_) hown hother)
          exact Prod.ext (hm.1.symm.trans hm'.1) (hm.2.2 _ hm'.2.2 hm.2.1 hm'.2.1)
  | arms pairs _ hleft hright ih =>
    cases h' with
    | arms pairs' h' hleft' hright' =>
      cases hv with
      | arms hsorted hv =>
        cases hv' with
        | arms hsorted' hv' =>
          refine congrArg Json.array (eq_of_mem_iff hsorted hsorted' fun v => ⟨fun hmem => ?_,
            fun hmem => ?_⟩)
          · obtain ⟨e, he, rfl⟩ := List.mem_map.1 ((hleft v).1 hmem)
            obtain ⟨e', he', heq⟩ := List.mem_map.1
              ((hright' e.2).1 ((hright e.2).2 (List.mem_map_of_mem he)))
            have hmem' := (hleft' e'.1).2 (List.mem_map_of_mem he')
            rwa [ih e he (heq ▸ h' e' he') (hv _ hmem) (hv' _ hmem')]
          · obtain ⟨e', he', rfl⟩ := List.mem_map.1 ((hleft' v).1 hmem)
            obtain ⟨e, he, heq⟩ := List.mem_map.1
              ((hright e'.2).1 ((hright' e'.2).2 (List.mem_map_of_mem he')))
            have hmem' := (hleft e.1).2 (List.mem_map_of_mem he)
            rwa [← ih e he (heq ▸ h' e' he') (hv _ hmem') (hv' _ hmem)]

theorem EqualUpTo.right_unique (hR : Relator.RightUnique R) (h : EqualUpTo R p v w)
    (h' : EqualUpTo R p v w') (hw : Form K p w) (hw' : Form K p w') : w = w' := by
  have hflipped : Relator.LeftUnique fun u t => R t u := fun _ _ _ hb hc => hR hb hc
  exact h.symm.left_unique hflipped h'.symm hw hw'

theorem EqualUpTo.key_eq {key key' : String}
    (h : EqualUpTo R .type (.object [(key, v)]) (.object [(key', w)])) : key = key' := by
  cases h
  rfl

/-- Where keys tell their order, no arm is left out of one side only. -/
theorem EqualUpTo.collapseArms (hR : Relator.BiUnique R) (hnodup : ∀ ks, K ks → ks.Nodup)
    (hK : TellsOrder K) {key : String} (hkey : position? key = some .arms) {l k : List Json}
    (hl : ∀ v ∈ l, Form K .type v) (hk : ∀ w ∈ k, Form K .type w)
    (h : Paired (EqualUpTo R .type) l k) :
    EqualUpTo R .type (collapseArms key l) (collapseArms key k) := by
  have hmem : ∀ {l : List Json}, (∀ v ∈ l, Form K .type v) → ∀ v, v ∈ sortArms l ↔ v ∈ l :=
    fun hl v => mem_sortArms_iff fun v hv w hw => (hl v hv).eq_of_same hnodup hK (hl w hw)
  have hsorted : Paired (fun v w => EqualUpTo R .type v w ∧ Form K .type v ∧ Form K .type w)
      (sortArms l) (sortArms k) := by
    refine ⟨fun v hv => ?_, fun w hw => ?_⟩
    · obtain ⟨w, hw, hvw⟩ := h.1 v ((hmem hl v).1 hv)
      exact ⟨w, (hmem hk w).2 hw, hvw, hl v ((hmem hl v).1 hv), hk w hw⟩
    · obtain ⟨v, hv, hvw⟩ := h.2 w ((hmem hk w).1 hw)
      exact ⟨v, (hmem hl v).2 hv, hvw, hl v hv, hk w ((hmem hk w).1 hw)⟩
  have hunique : Relator.BiUnique
      fun v w => EqualUpTo R .type v w ∧ Form K .type v ∧ Form K .type w :=
    ⟨fun _ _ _ h h' => h.1.left_unique hR.1 h'.1 h.2.1 h'.2.1,
      fun _ _ _ h h' => h.1.right_unique hR.2 h'.1 h.2.2 h'.2.2⟩
  have hstrict : ∀ {l : List Json}, (∀ v ∈ l, Form K .type v) → (sortArms l).Nodup := fun hl => by
    cases Form.sortArms hnodup hl with
    | arms hsorted _ => exact nodup_of_pairwise hsorted
  have hlength := hsorted.length_eq hunique (hstrict hl) (hstrict hk)
  by_cases hone : (sortArms l).length = 1
  · obtain ⟨v, hv⟩ := List.length_eq_one_iff.1 hone
    obtain ⟨w, hw⟩ := List.length_eq_one_iff.1 (hlength ▸ hone)
    rw [hv, hw] at hsorted
    rw [collapseArms_of_one hv, collapseArms_of_one hw]
    obtain ⟨w', hw', hvw, -⟩ := hsorted.1 v (List.mem_singleton_self v)
    exact List.mem_singleton.1 hw' ▸ hvw
  · rw [collapseArms_of_not_one hone, collapseArms_of_not_one (hlength ▸ hone)]
    obtain ⟨pairs, hpairs, hleft, hright⟩ := hsorted.exists_pairs
    exact .tagged hkey (.arms pairs (fun e he => (hpairs e he).1) hleft hright)

end Description

namespace Graph

open Description

/-! ### Types that are related -/

/-- The shapes are the same, with related nodes for the nodes that they name; members that are not
known are so on both sides. -/
inductive Matches (R : NodeId → NodeId → Prop) : Shape → Shape → Prop
  | filled {s s' : Shape} (h : Corresponds R s s') : Matches R s s'
  | union : Matches R (.union none) (.union none)
  | intersection : Matches R (.intersection none) (.intersection none)

variable {R : NodeId → NodeId → Prop} {g g' : Graph} {s s' : Shape} {t t' : NodeId}
  {stack stack' : List NodeId} {v v' : Json} {names : Set (String × Bool)}

theorem Matches.parts (h : Matches R s s') : Paired R s.parts s'.parts := by
  cases h with
  | filled h => exact h.parts
  | union | intersection => exact ⟨nofun, nofun⟩

theorem Matches.of_union {members : SortedSet NodeId} (h : Matches R (.union (some members)) s') :
    ∃ members', s' = .union (some members') ∧ Paired R members.toList members'.toList := by
  cases h with
  | filled h =>
    cases h with
    | union h => exact ⟨_, rfl, h⟩

theorem Matches.to_union {members' : SortedSet NodeId}
    (h : Matches R s (.union (some members'))) : ∃ members, s = .union (some members) := by
  cases h with
  | filled h =>
    cases h with
    | union _ => exact ⟨_, rfl⟩

/-- A node related to a part is a part of what is related. -/
theorem Matches.mem_parts (hR : Relator.BiUnique R) (h : Matches R s s') {m n : NodeId}
    (hm : m ∈ s.parts) (hmn : R m n) : n ∈ s'.parts := by
  obtain ⟨n', hn', hmn'⟩ := h.parts.1 m hm
  exact hR.2 hmn' hmn ▸ hn'

theorem Matches.imp {S : NodeId → NodeId → Prop} (h : Matches R s s') (hRS : ∀ m n, R m n → S m n) :
    Matches S s s' := by
  cases h with
  | filled h => exact .filled (h.imp hRS)
  | union => exact .union
  | intersection => exact .intersection

theorem Matches.restrict {P : NodeId → Prop} (h : Matches R s s') (hP : ∀ m ∈ s.parts, P m) :
    Matches (fun m n => R m n ∧ P m) s s' := by
  cases h with
  | filled h => exact .filled (h.restrict hP)
  | union => exact .union
  | intersection => exact .intersection

theorem Matches.corresponds (h : Matches R s s') (hs : s.IsFilled) : Corresponds R s s' := by
  cases h with
  | filled h => exact h
  | union => exact absurd rfl hs.1
  | intersection => exact absurd rfl hs.2

/-- The properties have the same names on both sides. -/
theorem Matches.exists_properties {q : SortedMap String Property} (h : Matches R s s')
    (hq : s'.properties? = some q) :
    ∃ p, s.properties? = some p ∧ markedNames p = markedNames q := by
  have hnames : ∀ {p q : SortedMap String Property}, SameProperties R p q →
      markedNames p = markedNames q := fun h =>
    map_eq_of_forall₂ h fun _ _ _ _ hef => Prod.ext hef.1 hef.2.1
  cases h with
  | union | intersection => cases hq
  | filled h =>
    cases h with
    | record h | object h _ =>
      obtain rfl := Option.some.inj hq
      exact ⟨_, rfl, hnames h⟩
    | _ => cases hq

theorem Matches.isNested_eq (hR : Relator.BiUnique R) (h : Matches R s s') :
    isNested s = isNested s' := by
  cases h with
  | filled h => exact Graph.isNested_eq hR h
  | union | intersection => rfl

/-- The members of a nested type are its parts. -/
theorem members_of_isNested (h : isNested s = true) :
    (s.members?.getD .empty).toList = s.parts := by
  cases s with
  | union members | intersection members =>
    cases members with
    | none => cases h
    | some members => rfl
  | _ => cases h

theorem Leaves.mem_leaf {members : List NodeId} {leaves : List (List NodeId × NodeId)} {m : NodeId}
    (h : g.Leaves stack members leaves) (hm : m ∈ members)
    (hleaf : m ∈ stack ∨ isNested (g.shape m) = false) : (stack, m) ∈ leaves := by
  induction h with
  | nil => cases hm
  | leaf _ _ ih =>
    rcases List.mem_cons.1 hm with rfl | hm
    · exact List.mem_cons_self
    · exact List.mem_cons_of_mem _ (ih hm hleaf)
  | nested hmet hnested _ _ _ ihrest =>
    rcases List.mem_cons.1 hm with rfl | hm
    · rw [hleaf.resolve_left hmet] at hnested
      cases hnested
    · exact List.mem_append_right _ (ihrest hm hleaf)

theorem Leaves.exists_inner {members : List NodeId} {leaves : List (List NodeId × NodeId)}
    {m : NodeId} (h : g.Leaves stack members leaves) (hm : m ∈ members) (hmet : m ∉ stack)
    (hnested : isNested (g.shape m) = true) :
    ∃ inner, g.Leaves (m :: stack) ((g.shape m).members?.getD .empty).toList inner ∧
      inner ⊆ leaves := by
  induction h with
  | nil => cases hm
  | leaf hleaf _ ih =>
    rcases List.mem_cons.1 hm with rfl | hm
    · rw [hleaf.resolve_left hmet] at hnested
      cases hnested
    · obtain ⟨inner, hinner, hsub⟩ := ih hm hmet
      exact ⟨inner, hinner, fun e he => List.mem_cons_of_mem _ (hsub he)⟩
  | nested _ _ hinner _ _ ihrest =>
    rcases List.mem_cons.1 hm with rfl | hm
    · exact ⟨_, hinner, List.subset_append_left _ _⟩
    · obtain ⟨inner, hinner, hsub⟩ := ihrest hm hmet
      exact ⟨inner, hinner, fun e he => List.mem_append_right _ (hsub he)⟩

/-- Every leaf of related members is related to one on the other side. -/
theorem Leaves.exists_related (hR : Relator.BiUnique R)
    (hnested : ∀ t u, R t u → isNested (g.shape t) = isNested (g'.shape u))
    (hparts : ∀ t u, R t u → ∀ m ∈ (g.shape t).parts, ∃ n ∈ (g'.shape u).parts, R m n)
    {members members' : List NodeId} {leaves leaves' : List (List NodeId × NodeId)}
    (h : g.Leaves stack members leaves) (h' : g'.Leaves stack' members' leaves')
    (hstack : List.Forall₂ R stack stack') (hmembers : ∀ m ∈ members, ∃ n ∈ members', R m n) :
    ∀ e ∈ leaves, ∃ e' ∈ leaves', List.Forall₂ R e.1 e'.1 ∧ R e.2 e'.2 := by
  induction h generalizing stack' members' leaves' with
  | nil => exact nofun
  | @leaf stack members m rest hleaf _ ih =>
    obtain ⟨⟨n, hn, hmn⟩, hmembers⟩ := List.forall_mem_cons.1 hmembers
    refine List.forall_mem_cons.2 ⟨⟨(stack', n), h'.mem_leaf hn ?_, hstack, hmn⟩,
      ih h' hstack hmembers⟩
    rwa [← mem_iff_of_forall₂ hR hstack hmn, ← hnested m n hmn]
  | @nested stack members m inner rest hmet hm _ _ ihinner ihrest =>
    obtain ⟨⟨n, hn, hmn⟩, hmembers⟩ := List.forall_mem_cons.1 hmembers
    refine List.forall_mem_append.2 ⟨?_, ihrest h' hstack hmembers⟩
    have hn' : isNested (g'.shape n) = true := (hnested m n hmn).symm.trans hm
    obtain ⟨inner', hinner', hsub⟩ :=
      h'.exists_inner hn (mt (mem_iff_of_forall₂ hR hstack hmn).2 hmet) hn'
    intro e he
    obtain ⟨e', he', hrelated⟩ := ihinner hinner' (.cons hmn hstack) (by
      rw [members_of_isNested hm, members_of_isNested hn']
      exact hparts m n hmn) e he
    exact ⟨e', hsub he', hrelated⟩

/-- The leaves of related members are related, and so is what they are inside of. -/
theorem Leaves.paired (hR : Relator.BiUnique R)
    (hshape : ∀ t t', R t t' → Matches R (g.shape t) (g'.shape t'))
    {members members' : List NodeId} {leaves leaves' : List (List NodeId × NodeId)}
    (h : g.Leaves stack members leaves) (h' : g'.Leaves stack' members' leaves')
    (hstack : List.Forall₂ R stack stack') (hmembers : Paired R members members') :
    Paired (fun e e' => List.Forall₂ R e.1 e'.1 ∧ R e.2 e'.2) leaves leaves' := by
  have hflip : Relator.BiUnique (flip R) :=
    ⟨fun _ _ _ ht hu => hR.2 ht hu, fun _ _ _ ht hu => hR.1 ht hu⟩
  refine ⟨h.exists_related hR (fun t t' htt' => (hshape t t' htt').isNested_eq hR)
    (fun t t' htt' => (hshape t t' htt').parts.1) h' hstack hmembers.1, fun e' he' => ?_⟩
  obtain ⟨e, he, hinside, hrelated⟩ := h'.exists_related hflip
    (fun t' t htt' => ((hshape t t' htt').isNested_eq hR).symm)
    (fun t' t htt' => (hshape t t' htt').parts.2) h hstack.flip hmembers.2 e' he'
  exact ⟨e, he, hinside.flip, hrelated⟩

section Names

variable (hapart : NamesApart names)

include hapart

theorem equalUpTo_properties {S : NodeId → NodeId → Prop} {p q : SortedMap String Property}
    {value value' : NodeId → Json} (hnames : ∀ e ∈ markedNames p, e ∈ names)
    (hnames' : ∀ e ∈ markedNames q, e ∈ names) (h : SameProperties S p q)
    (hvalue : ∀ m n, S m n → EqualUpTo R .type (value m) (value' n)) :
    EqualUpTo R .properties (.object (shownProperties value p))
      (.object (shownProperties value' q)) := by
  rw [shownProperties_eq hapart hnames, shownProperties_eq hapart hnames']
  refine .of_forall₂ (List.forall₂_map_left_iff.2 (List.forall₂_map_right_iff.2 ?_))
  refine List.Forall₂.imp (fun e f hef => ⟨?_, hvalue _ _ hef.2.2⟩) h
  rw [hef.1, hef.2.1]

theorem equalUpTo_shownAs (hR : Relator.BiUnique R) {value value' : NodeId → Json}
    (hs : ∀ members, s ≠ .union (some members)) (htt' : R t t') (h : Matches R s s')
    (hnames : ∀ p, s.properties? = some p → ∀ e ∈ markedNames p, e ∈ names)
    (hnames' : ∀ p, s'.properties? = some p → ∀ e ∈ markedNames p, e ∈ names)
    (hform : ∀ m ∈ s.parts, Form (Spelled names) .type (value m))
    (hform' : ∀ n ∈ s'.parts, Form (Spelled names) .type (value' n))
    (hvalue : ∀ m n, R m n → m ∈ s.parts → EqualUpTo R .type (value m) (value' n)) :
    EqualUpTo R .type (shownAs t value s) (shownAs t' value' s') := by
  cases h with
  | union | intersection => exact .tagged rfl (.number htt')
  | filled h =>
    replace h := h.restrict (P := fun m => m ∈ s.parts) fun m hm => hm
    replace hvalue : ∀ m n, R m n ∧ m ∈ s.parts → EqualUpTo R .type (value m) (value' n) :=
      fun m n hmn => hvalue m n hmn.1 hmn.2
    cases h with
    | primitive kind => exact .text _
    | enumeration cases => exact .tagged rfl (.cases _)
    | array h | map h => exact .tagged rfl (hvalue _ _ h)
    | record h =>
      exact .tagged rfl (equalUpTo_properties hapart (hnames _ rfl) (hnames' _ rfl) h hvalue)
    | object h hadditional =>
      refine .object (equalUpTo_properties hapart (hnames _ rfl) (hnames' _ rfl) h hvalue) ?_
      cases hadditional with
      | none => exact .null
      | some h => exact hvalue _ _ h
    | union h => exact absurd rfl (hs _)
    | intersection h =>
      exact .collapseArms hR (fun _ hks => hks.nodup hapart) (tellsOrder_spelled hapart) rfl
        (List.forall_mem_map.2 hform) (List.forall_mem_map.2 hform') (h.map hvalue)

/-- Related types inside of related ones are shown as values that are equal up to numbers. -/
theorem Shows.equalUpTo (hR : Relator.BiUnique R)
    (hshape : ∀ t t', R t t' → Matches R (g.shape t) (g'.shape t'))
    (hnames : ∀ t t', R t t' → g.propertyNames t ⊆ names ∧ g'.propertyNames t' ⊆ names)
    (h : g.Shows stack t v) (h' : g'.Shows stack' t' v') (hstack : List.Forall₂ R stack stack')
    (htt' : R t t') : EqualUpTo R .type v v' := by
  have hmem := fun {stack stack' t t'} (hstack : List.Forall₂ R stack stack') (htt' : R t t') =>
    mem_iff_of_forall₂ hR hstack htt'
  induction h generalizing stack' t' v' with
  | again hmet =>
    cases h' with
    | again _ => exact .tagged rfl (.number htt')
    | union _ hmet' _ _ _ | other _ hmet' _ _ => exact absurd ((hmem hstack htt').1 hmet) hmet'
  | @union stack t members arms hmet hs hleaves harms ih =>
    have hmatches := hshape t t' htt'
    cases h' with
    | again hmet' => exact absurd ((hmem hstack htt').2 hmet') hmet
    | other _ _ hs' _ =>
      rw [hs] at hmatches
      obtain ⟨members', hs'', -⟩ := hmatches.of_union
      exact absurd hs'' (hs' members')
    | @union _ _ members' arms' _ hs' hleaves' harms' =>
      rw [hs, hs'] at hmatches
      obtain ⟨_, heq, hmembers⟩ := hmatches.of_union
      obtain rfl := Option.some.inj (Shape.union.inj heq)
      have hpaired := (hleaves.paired hR hshape hleaves' (.cons htt' hstack) hmembers).of_map
      refine .collapseArms hR (fun _ hks => hks.nodup hapart) (tellsOrder_spelled hapart) rfl
        (List.forall_mem_map.2 fun e he => ?_) (List.forall_mem_map.2 fun e' he' => ?_)
        ⟨List.forall_mem_map.2 fun e he => ?_, List.forall_mem_map.2 fun e' he' => ?_⟩
      · obtain ⟨e', -, -, hrelated⟩ := hpaired.1 e he
        exact (harms e he).form_spelled hapart (hnames _ _ hrelated).1
      · obtain ⟨e, -, -, hrelated⟩ := hpaired.2 e' he'
        exact (harms' e' he').form_spelled hapart (hnames _ _ hrelated).2
      · obtain ⟨e', he', hinside, hrelated⟩ := hpaired.1 e he
        exact ⟨e'.2, List.mem_map_of_mem he', ih e he (harms' e' he') hinside hrelated⟩
      · obtain ⟨e, he, hinside, hrelated⟩ := hpaired.2 e' he'
        exact ⟨e.2, List.mem_map_of_mem he, ih e he (harms' e' he') hinside hrelated⟩
  | @other stack t value hmet hs hparts ih =>
    have hmatches := hshape t t' htt'
    cases h' with
    | again hmet' => exact absurd ((hmem hstack htt').2 hmet') hmet
    | union _ _ hs' _ _ =>
      obtain ⟨members, hs''⟩ := Matches.to_union (hs' ▸ hmatches)
      exact absurd hs'' (hs members)
    | other value' _ _ hparts' =>
      have hsub := hnames t t' htt'
      refine equalUpTo_shownAs hapart hR hs htt' hmatches
        (fun p hp k hk => hsub.1 ⟨t, p, .refl, hp, hk⟩)
        (fun p hp k hk => hsub.2 ⟨t', p, .refl, hp, hk⟩) (fun m hm => ?_) (fun n hn => ?_)
        fun m n hmn hm => ih m hm (hparts' n (hmatches.mem_parts hR hm hmn)) (.cons htt' hstack) hmn
      · exact (hparts m hm).form_spelled hapart
          (subset_trans (Reaches.part .refl hm).propertyNames hsub.1)
      · exact (hparts' n hn).form_spelled hapart
          (subset_trans (Reaches.part .refl hn).propertyNames hsub.2)

end Names

/-! ### Renumbered types -/

/-- The renumbering takes what is reached from the first type to what is reached from the second
one, and the first type to the second one. -/
structure Renumbered (f : NodeId → NodeId) (g : Graph) (t : NodeId) (g' : Graph) (t' : NodeId) :
    Prop where
  start : f t = t'
  bijective : Set.BijOn f {u | g.Reaches t u} {u | g'.Reaches t' u}
  shapes : ∀ u, g.Reaches t u → Matches (fun v w => f v = w) (g.shape u) (g'.shape (f u))

theorem renumbered_of_matches (hR : Relator.BiUnique R)
    (hshape : ∀ u u', R u u' → Matches R (g.shape u) (g'.shape u')) (ht : R t t') :
    ∃ f, Renumbered f g t g' t' := by
  obtain ⟨f, hstart, hbijective, hf, hrelated⟩ :=
    exists_renumbering hR (fun u u' hu => (hshape u u' hu).parts) ht
  exact ⟨f, hstart, hbijective, fun u hu => (hshape u (f u) (hrelated u hu)).imp hf⟩

section Renumbered

variable {f : NodeId → NodeId} (h : Renumbered f g t g' t')

include h

theorem Renumbered.biUnique : Relator.BiUnique fun u u' => f u = u' ∧ g.Reaches t u := by
  constructor
  · rintro u v _ ⟨rfl, hu⟩ ⟨heq, hv⟩
    exact (h.bijective.injOn hv hu heq).symm
  · rintro u _ _ ⟨rfl, -⟩ ⟨rfl, -⟩
    rfl

theorem Renumbered.matches (u u' : NodeId) (hu : f u = u' ∧ g.Reaches t u) :
    Matches (fun u u' => f u = u' ∧ g.Reaches t u) (g.shape u) (g'.shape u') := by
  obtain ⟨rfl, hreached⟩ := hu
  exact (h.shapes u hreached).restrict fun m hm => hreached.part hm

theorem Renumbered.propertyNames : g'.propertyNames t' ⊆ g.propertyNames t := by
  rintro k ⟨u', q, hu', hq, hk⟩
  obtain ⟨u, hu, rfl⟩ := h.bijective.surjOn hu'
  obtain ⟨p, hp, hnames⟩ := (h.shapes u hu).exists_properties hq
  exact ⟨u, p, hu, hp, hnames ▸ hk⟩

end Renumbered

theorem Grounded.reaches {u : NodeId} (h : g.Grounded t) (hu : g.Reaches t u) : g.Grounded u := by
  induction hu with
  | refl => exact h
  | part _ hv ih =>
    cases ih with
    | intro _ hparts => exact hparts _ hv

/-- Descriptions do not see the numbers of nodes. Of every type there is one description. A type
that is not reached from itself, with all members known, has the description of each renumbered one.
And where keys tell the names of properties, the descriptions of renumbered types differ in the
numbers of nodes and the order of arms only. -/
theorem describe_renumbered {f : NodeId → NodeId} (h : Renumbered f g t g' t') :
    ((∀ v, g.Shows [] t v ↔ v = g.describe t) ∧ ∀ v, g'.Shows [] t' v ↔ v = g'.describe t') ∧
      (g.Grounded t → g.describe t = g'.describe t') ∧
      (NamesApart (g.propertyNames t) → EqualUpTo (fun u u' => f u = u' ∧ g.Reaches t u) .type
        (g.describe t) (g'.describe t')) := by
  have hstart : f t = t' ∧ g.Reaches t t := ⟨h.start, .refl⟩
  refine ⟨⟨fun v => shows_iff, fun v => shows_iff⟩, fun hground => ?_, fun hapart => ?_⟩
  · refine describe_eq_of_corresponds h.biUnique (fun u u' hu => ?_) hstart hground
    cases hground.reaches hu.2 with
    | intro hfilled _ => exact (h.matches u u' hu).corresponds hfilled
  · refine Shows.equalUpTo hapart h.biUnique h.matches (fun u u' hu => ?_) (g.shows_describe t)
      (g'.shows_describe t') .nil hstart
    obtain ⟨rfl, hreached⟩ := hu
    exact ⟨hreached.propertyNames,
      subset_trans (Reaches.propertyNames (h.bijective.mapsTo hreached)) h.propertyNames⟩

/-! ### Pairs of nodes that are checked -/

/-- Whether the shapes are the same when the nodes of each pair count as one. -/
def matchesBy (pairs : List (NodeId × NodeId)) : Shape → Shape → Bool
  | .primitive kind, .primitive kind' => kind = kind'
  | .enumeration cases, .enumeration cases' => cases = cases'
  | .array m, .array n => (m, n) ∈ pairs
  | .map m, .map n => (m, n) ∈ pairs
  | .record p, .record q => properties p q
  | .object p none, .object q none => properties p q
  | .object p (some m), .object q (some n) => properties p q && (m, n) ∈ pairs
  | .union (some l), .union (some k) => members l.toList k.toList
  | .intersection (some l), .intersection (some k) => members l.toList k.toList
  | .union none, .union none => true
  | .intersection none, .intersection none => true
  | _, _ => false
where
  properties (p q : SortedMap String Property) : Bool :=
    p.entries.length = q.entries.length && ∀ e ∈ p.entries.zip q.entries,
      e.1.1 = e.2.1 ∧ e.1.2.optional = e.2.2.optional ∧ (e.1.2.type, e.2.2.type) ∈ pairs
  members (l k : List NodeId) : Bool :=
    (∀ m ∈ l, ∃ n ∈ k, (m, n) ∈ pairs) ∧ ∀ n ∈ k, ∃ m ∈ l, (m, n) ∈ pairs

variable {pairs : List (NodeId × NodeId)}

theorem matches_of_matchesBy (h : matchesBy pairs s s' = true) :
    Matches (fun m n => (m, n) ∈ pairs) s s' := by
  have hproperties : ∀ {p q : SortedMap String Property},
      matchesBy.properties pairs p q = true →
        SameProperties (fun m n => (m, n) ∈ pairs) p q := by
    intro p q h
    obtain ⟨hlength, hall⟩ := by simpa only [matchesBy.properties, Bool.and_eq_true,
      decide_eq_true_eq] using h
    exact List.forall₂_iff_zip.2 ⟨hlength, fun {e f} hef => hall (e, f) hef⟩
  have hmembers : ∀ {l k : List NodeId}, matchesBy.members pairs l k = true →
      Paired (fun m n => (m, n) ∈ pairs) l k := fun h => by
    rw [matchesBy.members, decide_eq_true_eq] at h
    exact h
  unfold matchesBy at h
  split at h
  · obtain rfl := of_decide_eq_true h
    exact .filled (.primitive _)
  · obtain rfl := of_decide_eq_true h
    exact .filled (.enumeration _)
  · exact .filled (.array (of_decide_eq_true h))
  · exact .filled (.map (of_decide_eq_true h))
  · exact .filled (.record (hproperties h))
  · exact .filled (.object (hproperties h) .none)
  · obtain ⟨hp, hmn⟩ := Bool.and_eq_true_iff.1 h
    exact .filled (.object (hproperties hp) (.some (of_decide_eq_true hmn)))
  · exact .filled (.union (hmembers h))
  · exact .filled (.intersection (hmembers h))
  · exact .union
  · exact .intersection
  · cases h

theorem exists_renumbered_of_pairs (pairs : List (NodeId × NodeId))
    (hunique : ∀ e ∈ pairs, ∀ e' ∈ pairs, e.1 = e'.1 ↔ e.2 = e'.2)
    (hshape : ∀ e ∈ pairs, matchesBy pairs (g.shape e.1) (g'.shape e.2) = true)
    (ht : (t, t') ∈ pairs) : ∃ f, Renumbered f g t g' t' := by
  have hR : Relator.BiUnique fun m n => (m, n) ∈ pairs :=
    ⟨fun _ _ _ hu hv => (hunique _ hu _ hv).2 rfl, fun _ _ _ hu hv => (hunique _ hu _ hv).1 rfl⟩
  exact renumbered_of_matches hR (fun u u' hu => matches_of_matchesBy (hshape (u, u') hu)) ht

/-- Texts, lists of the same, or something that is not known. -/
def openLists : Graph := ofCalls
  [.share (.primitive .string) .empty, .fresh (.union none) .empty, .share (.array 1) .empty,
    .fresh (.intersection none) .empty, .setMembers 1 (.ofList [0, 2, 3])]

/-- The same in another order, with integers that do not belong to it. -/
def openListsLater : Graph := ofCalls
  [.fresh (.union none) .empty, .share (.primitive .integer) .empty,
    .share (.primitive .string) .empty, .share (.array 0) .empty,
    .fresh (.intersection none) .empty, .setMembers 0 (.ofList [2, 3, 4])]

theorem describe_renumbered_openLists :
    ∃ f, Renumbered f openLists 1 openListsLater 0 ∧
      openLists.describe 1 = .object [("union", .array
        [.string "string", .object [("array", recursiveMark 1)],
          .object [("pending", .ofNat 3)]])] ∧
      openListsLater.describe 0 = .object [("union", .array
        [.string "string", .object [("array", recursiveMark 0)],
          .object [("pending", .ofNat 4)]])] ∧
      EqualUpTo (fun u u' => f u = u' ∧ openLists.Reaches 1 u) .type (openLists.describe 1)
        (openListsLater.describe 0) := by
  obtain ⟨f, hf⟩ : ∃ f, Renumbered f openLists 1 openListsLater 0 :=
    exists_renumbered_of_pairs [(0, 2), (1, 0), (2, 3), (3, 4)] (by decide)
      (by decide +kernel) (by decide)
  have hnone : ∀ u < openLists.size, (openLists.shape u).properties? = none := by decide +kernel
  refine ⟨f, hf, by cbv, by cbv, (describe_renumbered hf).2.2 ?_⟩
  rintro k ⟨u, p, -, hp, -⟩
  have hlt : u < openLists.size := lt_size_of_shape rfl (by rintro h; rw [h] at hp; cases hp)
  rw [hnone u hlt] at hp
  cases hp

/-- Two unions of the same intersections, where the two sets of members that are not known have
their numbers exchanged. The names `a`, which may be absent, and `a?` are shown alike. -/
def exchanged : Graph := ofCalls
  [.share (.primitive .integer) .empty, .fresh (.union none) .empty, .fresh (.union none) .empty,
    .share (.record (.ofList [("a!", ⟨1, false⟩), ("a?", ⟨0, false⟩)])) .empty,
    .share (.record (.ofList [("a!", ⟨2, false⟩)])) .empty,
    .share (.record (.ofList [("a", ⟨0, true⟩), ("a!", ⟨1, false⟩)])) .empty,
    .fresh (.intersection (some (.ofList [3, 4]))) .empty,
    .fresh (.intersection (some (.ofList [4, 5]))) .empty,
    .fresh (.union (some (.ofList [6, 7]))) .empty,
    .share (.record (.ofList [("a!", ⟨1, false⟩)])) .empty,
    .share (.record (.ofList [("a!", ⟨2, false⟩), ("a?", ⟨0, false⟩)])) .empty,
    .share (.record (.ofList [("a", ⟨0, true⟩), ("a!", ⟨2, false⟩)])) .empty,
    .fresh (.intersection (some (.ofList [9, 10]))) .empty,
    .fresh (.intersection (some (.ofList [9, 11]))) .empty,
    .fresh (.union (some (.ofList [12, 13]))) .empty]

/-- The description of one type is a union, and that of a renumbered one is not. -/
theorem describe_seesNumbers :
    (∃ f, Renumbered f exchanged 8 exchanged 14) ∧
      (∃ arms, exchanged.describe 8 = .object [("union", arms)]) ∧
      (∃ arms, exchanged.describe 14 = .object [("allOf", arms)]) ∧
      ∀ R, ¬ EqualUpTo R .type (exchanged.describe 8) (exchanged.describe 14) := by
  have hunion : exchanged.describe 8 = .object [("union", .array
      [.object [("allOf", .array
        [.object [("class", .object
          [("a!", .object [("pending", .ofNat 1)]), ("a?", .string "integer")])],
        .object [("class", .object [("a!", .object [("pending", .ofNat 2)])])]])],
      .object [("allOf", .array
        [.object [("class", .object [("a!", .object [("pending", .ofNat 2)])])],
        .object [("class", .object
          [("a?", .string "integer"), ("a!", .object [("pending", .ofNat 1)])])]])]])] := by
    cbv
  have hmerged : exchanged.describe 14 = .object [("allOf", .array
      [.object [("class", .object [("a!", .object [("pending", .ofNat 1)])])],
      .object [("class", .object
        [("a!", .object [("pending", .ofNat 2)]), ("a?", .string "integer")])]])] := by
    cbv
  refine ⟨exists_renumbered_of_pairs [(0, 0), (1, 2), (2, 1), (3, 10), (4, 9), (5, 11), (6, 12),
    (7, 13), (8, 14)] (by decide) (by decide +kernel) (by decide),
    ⟨_, hunion⟩, ⟨_, hmerged⟩, fun R h => ?_⟩
  rw [hunion, hmerged] at h
  exact absurd h.key_eq (by decide)

end Graph

end JsonTyping
