import JsonTyping.Proofs.DescriptionForms
import JsonTyping.Proofs.GraphUnfolding

/-!
# Descriptions of types that are written out

`TypeTree.described` is the description of a type that is written out, with every property of every
record. The description of a node that stands for a tree is that of the tree
(`Graph.Unfolds.describe_eq`) and tells the tree (`TypeTree.Regular.described_inj`), as long as keys
tell the names of properties: so descriptions of types inferred for samples are equal only if the
types are (`Collection.describe_faithful`). Otherwise two types may have one description, or the
later one of two properties is shown in place of the earlier one
(`Collection.describe_confusesNames`).
-/

namespace JsonTyping

theorem Primitive.name_inj {p q : Primitive} (h : p.name = q.name) : p = q := by
  have hof : ∀ p : Primitive, Primitive.ofName? p.name = some p := by
    intro p
    cases p <;> rfl
  exact Option.some.inj ((hof p).symm.trans (h ▸ hof q))

theorem dedup_eq_self {arms : List Json} (h : arms.Pairwise fun v w => v.same w = false) :
    sortArms.dedup arms = arms := by
  induction arms using sortArms.dedup.induct with
  | case1 first second rest hfirst ih =>
    rw [List.rel_of_pairwise_cons h List.mem_cons_self] at hfirst
    cases hfirst
  | case2 first second rest hfirst ih => rw [sortArms.dedup, if_neg hfirst, ih h.of_cons]
  | case3 arms hshort => exact sortArms.dedup.eq_2 arms hshort

/-- Where no arm is the same as another one, sorting keeps all of them. -/
theorem sortArms_perm {arms : List Json}
    (h : arms.Pairwise fun v w => v.same w = false ∧ w.same v = false) :
    (sortArms arms).Perm arms := by
  have hperm : (((arms.map fun v => (v.compact, v)).mergeSort
      fun a b => compare a.1 b.1 != .gt).map (·.2)).Perm arms := by
    refine ((List.mergeSort_perm _ _).map _).trans ?_
    rw [List.map_map]
    exact .of_eq (List.map_id arms)
  have hsorted := (hperm.symm.pairwise_iff fun hvw => And.symm hvw).1 h
  rw [sortArms, dedup_eq_self (hsorted.imp And.left)]
  exact hperm

namespace TypeTree

mutual

/-- The description of the type, with every property of every record. -/
def described : TypeTree → Json
  | .primitive kind => .string kind.name
  | .enumeration cases => .object [("enum", .ofStrings cases.toList)]
  | .array items => .object [("array", items.described)]
  | .map values => .object [("map", values.described)]
  | .record properties => .object [("class", .object (describedProperties properties))]
  | .union arms => .object [("union", .array (sortArms (describedArms arms)))]

def describedProperties : List (String × Bool × TypeTree) → List (String × Json)
  | [] => []
  | (name, optional, type) :: properties =>
    (Graph.spelling name optional, type.described) :: describedProperties properties

def describedArms : List TypeTree → List Json
  | [] => []
  | arm :: arms => arm.described :: describedArms arms

end

theorem describedProperties_eq (properties : List (String × Bool × TypeTree)) :
    describedProperties properties =
      properties.map fun p => (Graph.spelling p.1 p.2.1, p.2.2.described) := by
  induction properties with
  | nil => rfl
  | cons p properties ih => rw [describedProperties, ih, List.map_cons]

theorem describedArms_eq (arms : List TypeTree) : describedArms arms = arms.map described := by
  induction arms with
  | nil => rfl
  | cons arm arms ih => rw [describedArms, ih, List.map_cons]

/-- Types of different kinds, none of them a union, are not described alike. -/
theorem not_same_of_rank {a b : TypeTree} (hne : a.rank ≠ b.rank) (ha : a.rank < 6)
    (hb : b.rank < 6) : a.described.same b.described = false := by
  cases a with
  | primitive kind =>
    cases b with
    | primitive kind' =>
      refine Bool.eq_false_iff.2 fun hsame => hne ?_
      rw [described, described, Json.same, beq_iff_eq] at hsame
      rw [Primitive.name_inj hsame]
    | union arms => exact absurd hb (Nat.lt_irrefl 6)
    | _ => rfl
  | union arms => exact absurd ha (Nat.lt_irrefl 6)
  | _ => cases b <;> simp_all [described, rank, Json.same, Json.sameMembers, List.lookup_cons]

/-- What the types of values are like: properties have the names, and the arms of a union are of
different kinds, listed in their order, at least two of them and none a union. -/
inductive Regular (names : Set (String × Bool)) : TypeTree → Prop
  | primitive (kind : Primitive) : Regular names (.primitive kind)
  | enumeration (cases : SortedSet String) : Regular names (.enumeration cases)
  | array {items : TypeTree} (h : Regular names items) : Regular names (.array items)
  | map {values : TypeTree} (h : Regular names values) : Regular names (.map values)
  | record {properties : List (String × Bool × TypeTree)}
      (hnames : ∀ p ∈ properties, (p.1, p.2.1) ∈ names)
      (h : ∀ p ∈ properties, Regular names p.2.2) : Regular names (.record properties)
  | union {arms : List TypeTree} (hmany : 2 ≤ arms.length)
      (hrank : arms.Pairwise fun a b => a.rank < b.rank) (hflat : ∀ arm ∈ arms, arm.rank < 6)
      (h : ∀ arm ∈ arms, Regular names arm) : Regular names (.union arms)

variable {names : Set (String × Bool)}

theorem regular_join {arms : List TypeTree} (h : ∀ arm ∈ arms, arm.Regular names)
    (hrank : arms.Pairwise fun a b => a.rank < b.rank) (hflat : ∀ arm ∈ arms, arm.rank < 6) :
    (join arms).Regular names := by
  match arms, hrank with
  | [], _ => exact .primitive .none
  | [only], _ => exact h only (List.mem_singleton_self only)
  | a :: b :: rest, hrank => exact .union (by simp) hrank hflat h

theorem regular_of_mem_ofScalars {settings : Settings} {vs : List Json} {arm : TypeTree}
    (h : arm ∈ ofScalars settings vs) : arm.Regular names := by
  have hrank : arm.rank ≤ 3 := by
    have hmem := (rank_ofScalars settings vs).subset (List.mem_map_of_mem h)
    simp only [List.mem_cons, List.not_mem_nil, or_false] at hmem
    omega
  cases arm with
  | primitive kind => exact .primitive kind
  | enumeration cases => exact .enumeration cases
  | _ => exact absurd hrank (by simp [rank])

/-- The type of values is regular. -/
theorem regular_ofValues (settings : Settings) (vs : List Json) :
    (ofValues settings vs).Regular Set.univ := by
  -- On the size of the values: the parts are types of values inside of these.
  induction hsize : Json.sizeItems vs using Nat.strongRecOn generalizing vs with
  | ind n ih =>
    subst hsize
    rw [ofValues_eq]
    refine regular_join (fun arm harm => ?_) (rank_arms settings vs) fun arm harm => ?_
    · rcases List.mem_append.1 harm with harm | harray
      · rcases List.mem_append.1 harm with hscalar | hobject
        · exact regular_of_mem_ofScalars hscalar
        · unfold ofObjects at hobject
          split at hobject
          · cases hobject
          · next hany =>
            split at hobject
            · obtain rfl := List.mem_singleton.1 hobject
              exact .map (ih _ (size_memberValues_lt hany) _ rfl)
            · obtain rfl := List.mem_singleton.1 hobject
              refine .record (fun p _ => Set.mem_univ _) (List.forall_mem_map.2 fun key _ => ?_)
              exact ih _ (size_under_lt hany key) _ rfl
      · unfold ofArrays at harray
        split at harray
        · cases harray
        · next hany =>
          obtain rfl := List.mem_singleton.1 harray
          exact .array (ih _ (size_items_lt hany) _ rfl)
    · have hmem := (rank_sublist settings vs).subset (List.mem_map_of_mem harm)
      simp only [List.mem_cons, List.not_mem_nil, or_false] at hmem
      omega

/-! ### A description tells the tree -/

theorem described_arms_perm {arms : List TypeTree}
    (hrank : arms.Pairwise fun a b => a.rank < b.rank) (hflat : ∀ arm ∈ arms, arm.rank < 6) :
    (sortArms (arms.map described)).Perm (arms.map described) :=
  sortArms_perm (List.pairwise_map.2 (hrank.imp_of_mem fun {a b} ha hb hlt =>
    ⟨not_same_of_rank (Nat.ne_of_lt hlt) (hflat a ha) (hflat b hb),
      not_same_of_rank (Nat.ne_of_gt hlt) (hflat b hb) (hflat a ha)⟩))

/-- Arms of different kinds are told by what is listed, whatever the order. -/
theorem arms_eq_of_described {arms arms' : List TypeTree}
    (hrank : arms.Pairwise fun a b => a.rank < b.rank)
    (hrank' : arms'.Pairwise fun a b => a.rank < b.rank)
    (hperm : (arms.map described).Perm (arms'.map described))
    (hinj : ∀ a ∈ arms, ∀ b ∈ arms', a.described = b.described → a = b) : arms = arms' := by
  have hirrefl : ∀ {a b : TypeTree}, a.rank < b.rank → b.rank < a.rank → a = b :=
    fun hab hba => absurd (Nat.lt_trans hab hba) (Nat.lt_irrefl _)
  have hmem : ∀ a, a ∈ arms ↔ a ∈ arms' := by
    intro a
    constructor
    · intro ha
      obtain ⟨b, hb, heq⟩ := List.mem_map.1 (hperm.mem_iff.1 (List.mem_map_of_mem ha))
      exact hinj a ha b hb heq.symm ▸ hb
    · intro hb
      obtain ⟨b, ha, heq⟩ := List.mem_map.1 (hperm.mem_iff.2 (List.mem_map_of_mem hb))
      exact hinj b ha a hb heq ▸ ha
  have hnodup : ∀ {l : List TypeTree}, (l.Pairwise fun a b => a.rank < b.rank) → l.Nodup :=
    fun h => h.imp fun hlt heq => Nat.ne_of_lt hlt (congrArg rank heq)
  refine ((List.perm_ext_iff_of_nodup (hnodup hrank) (hnodup hrank')).2 hmem).eq_of_pairwise
    (fun a b _ _ hab hba => hirrefl hab hba) hrank hrank'

theorem tagged_inj {key : String} {v w : Json}
    (h : Json.object [(key, v)] = .object [(key, w)]) : v = w := by
  simpa using h

/-- Where keys tell the names of properties, different types have different descriptions. -/
theorem Regular.described_inj (hapart : Description.NamesApart names) {a b : TypeTree}
    (ha : a.Regular names) (hb : b.Regular names) (h : a.described = b.described) : a = b := by
  induction ha generalizing b with
  | primitive kind =>
    cases hb with
    | primitive kind' => exact congrArg TypeTree.primitive (Primitive.name_inj (Json.string.inj h))
    | _ => simp [described] at h
  | enumeration cases =>
    cases hb with
    | enumeration cases' =>
      have htexts := Json.array.inj (tagged_inj h)
      have hcases := List.map_injective_iff.2 (fun _ _ => Json.string.inj) htexts
      refine congrArg TypeTree.enumeration (SortedSet.ext_mem fun s => ?_)
      rw [SortedSet.mem_iff, SortedSet.mem_iff, hcases]
    | _ => simp [described] at h
  | array _ ih =>
    cases hb with
    | array hb => rw [ih hb (tagged_inj h)]
    | _ => simp [described] at h
  | map _ ih =>
    cases hb with
    | map hb => rw [ih hb (tagged_inj h)]
    | _ => simp [described] at h
  | @record properties hnames _ ih =>
    cases hb with
    | @record properties' hnames' hb =>
      have hmembers := Json.object.inj (tagged_inj h)
      rw [describedProperties_eq, describedProperties_eq] at hmembers
      refine congrArg TypeTree.record
        (eq_of_forall₂_of_mem (forall₂_of_map_eq hmembers) fun p hp q hq hpq => ?_)
      obtain ⟨hkey, htype⟩ := Prod.mk.inj hpq
      obtain ⟨hname, hoptional⟩ :=
        Prod.mk.inj (hapart.spelling_inj (hnames p hp) (hnames' q hq) hkey)
      exact Prod.ext hname (Prod.ext hoptional (ih p hp (hb q hq) htype))
    | _ => simp [described] at h
  | @union arms hmany hrank hflat _ ih =>
    cases hb with
    | @union arms' hmany' hrank' hflat' hb =>
      have harms := Json.array.inj (tagged_inj h)
      rw [describedArms_eq, describedArms_eq] at harms
      have hperm := (described_arms_perm hrank hflat).symm.trans
        (harms ▸ described_arms_perm hrank' hflat')
      exact congrArg TypeTree.union (arms_eq_of_described hrank hrank' hperm
        fun a ha b hb' => ih a ha (hb b hb'))
    | _ => simp [described] at h

/-- The types that the type is made of. -/
def parts : TypeTree → List TypeTree
  | .primitive _ | .enumeration _ => []
  | .array items => [items]
  | .map values => [values]
  | .record properties => properties.map (·.2.2)
  | .union arms => arms

theorem sizeOf_lt_of_mem_parts {a b : TypeTree} (h : b ∈ a.parts) : sizeOf b < sizeOf a := by
  cases a with
  | primitive kind | enumeration cases => cases h
  | array items | map values =>
    obtain rfl := List.mem_singleton.1 h
    simp
  | record properties =>
    obtain ⟨p, hp, rfl⟩ := List.mem_map.1 h
    have hlt := List.sizeOf_lt_of_mem hp
    obtain ⟨name, optional, type⟩ := p
    simp only [record.sizeOf_spec, Prod.mk.sizeOf_spec] at hlt ⊢
    omega
  | union arms =>
    have hlt : sizeOf b < sizeOf arms := List.sizeOf_lt_of_mem h
    rw [union.sizeOf_spec]
    omega

theorem Regular.part {a b : TypeTree} (ha : a.Regular names) (h : b ∈ a.parts) :
    b.Regular names := by
  cases ha with
  | primitive | enumeration => cases h
  | array ha | map ha =>
    obtain rfl := List.mem_singleton.1 h
    exact ha
  | record _ ha =>
    obtain ⟨p, hp, rfl⟩ := List.mem_map.1 h
    exact ha p hp
  | union _ _ _ ha => exact ha b h

/-- A record with one property. -/
def recordOf (name : String) (optional : Bool) (kind : Primitive) : TypeTree :=
  .record [(name, optional, .primitive kind)]

end TypeTree

namespace Graph

open Description

variable {g : Graph} {t : NodeId} {tree : TypeTree} {names : Set (String × Bool)}

/-! ### Nodes that stand for trees -/

theorem Unfolds.exists_record {trees : List (String × Bool × TypeTree)}
    (h : g.Unfolds t (.record trees)) :
    ∃ p, g.shape t = .record p ∧ List.Forall₂ (IsProperty g) p.entries trees := by
  cases h with
  | record hshape hlength hkeys htypes =>
    exact ⟨_, hshape, List.forall₂_iff_zip.2 ⟨hlength, fun {e p} hep =>
      ⟨(hkeys e p hep).1, (hkeys e p hep).2, htypes e p hep⟩⟩⟩

theorem Unfolds.exists_union {arms : List TypeTree} (h : g.Unfolds t (.union arms)) :
    ∃ members order, g.shape t = .union (some members) ∧ order.Perm members.toList ∧
      List.Forall₂ g.Unfolds order arms := by
  cases h with
  | union hshape hperm _ hlength harms =>
    exact ⟨_, _, hshape, hperm, List.forall₂_iff_zip.2 ⟨hlength, fun {u arm} => harms u arm⟩⟩

/-- The parts of a node stand for the parts of its tree. -/
theorem Unfolds.part (h : g.Unfolds t tree) {u : NodeId} (hu : u ∈ (g.shape t).parts) :
    ∃ sub ∈ tree.parts, g.Unfolds u sub := by
  have hnode := h
  cases h with
  | primitive _ hshape | enumeration hshape =>
    rw [hshape] at hu
    cases hu
  | array hshape h | map hshape h =>
    rw [hshape] at hu
    obtain rfl := List.mem_singleton.1 hu
    exact ⟨_, List.mem_singleton_self _, h⟩
  | record _ _ _ _ =>
    obtain ⟨p, hshape, hall⟩ := hnode.exists_record
    rw [hshape] at hu
    obtain ⟨_, hp, rfl⟩ := List.mem_map.1 hu
    obtain ⟨e, he, rfl⟩ := List.mem_map.1 hp
    obtain ⟨q, hq, -, -, htype⟩ := exists_right_of_forall₂ hall he
    exact ⟨q.2.2, List.mem_map_of_mem hq, htype⟩
  | union _ _ _ _ _ =>
    obtain ⟨members, order, hshape, hperm, hall⟩ := hnode.exists_union
    rw [hshape] at hu
    exact exists_right_of_forall₂ hall (hperm.mem_iff.2 hu)

theorem Unfolds.grounded (h : g.Unfolds t tree) : g.Grounded t := by
  induction hsize : sizeOf tree using Nat.strongRecOn generalizing t tree with
  | ind n ih =>
    subst hsize
    refine .intro ?_ fun u hu => ?_
    · cases h with
      | primitive _ hshape | enumeration hshape | array hshape _ | map hshape _
      | record hshape _ _ _ | union hshape _ _ _ _ =>
        rw [hshape]
        exact ⟨nofun, nofun⟩
    · obtain ⟨sub, hsub, hu⟩ := h.part hu
      exact ih _ (TypeTree.sizeOf_lt_of_mem_parts hsub) hu rfl

theorem Unfolds.reaches (h : g.Unfolds t tree) (hregular : tree.Regular names) {u : NodeId}
    (hu : g.Reaches t u) : ∃ sub, g.Unfolds u sub ∧ sub.Regular names := by
  induction hu with
  | refl => exact ⟨tree, h, hregular⟩
  | part _ hv ih =>
    obtain ⟨sub, hsub, hregular⟩ := ih
    obtain ⟨part, hpart, hunfolds⟩ := hsub.part hv
    exact ⟨part, hunfolds, hregular.part hpart⟩

theorem markedNames_eq {p : SortedMap String Property} {trees : List (String × Bool × TypeTree)}
    (h : List.Forall₂ (Unfolds.IsProperty g) p.entries trees) :
    markedNames p = trees.map fun q => (q.1, q.2.1) :=
  map_eq_of_forall₂ h fun _ _ _ _ hproperty => Prod.ext hproperty.1 hproperty.2.1

/-- The names of the properties of a node are those in its tree. -/
theorem Unfolds.propertyNames_subset (h : g.Unfolds t tree) (hregular : tree.Regular names) :
    g.propertyNames t ⊆ names := by
  rintro e ⟨u, p, hu, hp, he⟩
  obtain ⟨sub, hsub, hregular⟩ := h.reaches hregular hu
  cases hs : g.shape u with
  | record q =>
    rw [hs] at hp
    obtain rfl := Option.some.inj hp
    obtain ⟨trees, rfl, hall⟩ := hsub.of_record hs
    rw [markedNames_eq hall] at he
    obtain ⟨q, hq, rfl⟩ := List.mem_map.1 he
    cases hregular with
    | record hnames _ => exact hnames q hq
  | object q additional => cases hsub <;> simp_all
  | _ =>
    rw [hs] at hp
    cases hp

theorem type_mem_parts {p : SortedMap String Property} {e : String × Property}
    (he : e ∈ p.entries) : e.2.type ∈ (Shape.record p).parts :=
  List.mem_map_of_mem (List.mem_map_of_mem he)

/-- The names in the tree of a node are those of the properties of the node. -/
theorem Unfolds.regular (h : g.Unfolds t tree) (hregular : tree.Regular Set.univ)
    (hnames : g.propertyNames t ⊆ names) : tree.Regular names := by
  have hpart : ∀ {t u : NodeId}, g.propertyNames t ⊆ names → u ∈ (g.shape t).parts →
      g.propertyNames u ⊆ names := fun hnames hu =>
    subset_trans (Reaches.part .refl hu).propertyNames hnames
  induction hregular generalizing t with
  | primitive kind => exact .primitive kind
  | enumeration cases => exact .enumeration cases
  | array _ ih =>
    cases h with
    | array hshape h => exact .array (ih h (hpart hnames (by rw [hshape]; exact .head _)))
  | map _ ih =>
    cases h with
    | map hshape h => exact .map (ih h (hpart hnames (by rw [hshape]; exact .head _)))
  | record _ _ ih =>
    obtain ⟨p, hshape, hall⟩ := h.exists_record
    refine .record (fun q hq => hnames ⟨t, p, .refl, by rw [hshape]; rfl, ?_⟩) fun q hq => ?_
    · rw [markedNames_eq hall]
      exact List.mem_map_of_mem hq
    · obtain ⟨e, he, -, -, htype⟩ := exists_left_of_forall₂ hall hq
      exact ih q hq htype (hpart hnames (by rw [hshape]; exact type_mem_parts he))
  | union hmany hrank hflat _ ih =>
    obtain ⟨members, order, hshape, hperm, hall⟩ := h.exists_union
    refine .union hmany hrank hflat fun arm harm => ?_
    obtain ⟨u, hu, hunfolds⟩ := exists_left_of_forall₂ hall harm
    exact ih arm harm hunfolds (hpart hnames (by rw [hshape]; exact hperm.mem_iff.1 hu))

variable {stack : List NodeId} {v : Json}

theorem Shows.of_other (h : g.Shows stack t v) (hbelow : g.Below stack t)
    (hshape : ∀ members, g.shape t ≠ .union (some members)) :
    ∃ value, v = shownAs t value (g.shape t) ∧
      ∀ u ∈ (g.shape t).parts, g.Below (t :: stack) u ∧ g.Shows (t :: stack) u (value u) := by
  cases h with
  | again hmet => exact absurd hmet hbelow.not_mem
  | union _ _ hshape' _ _ => exact absurd hshape' (hshape _)
  | other value _ _ hparts => exact ⟨value, rfl, fun u hu => ⟨hbelow.part hu, hparts u hu⟩⟩

theorem leaves_of_not_nested {members : List NodeId}
    (h : ∀ m ∈ members, isNested (g.shape m) = false) :
    g.Leaves stack members (members.map fun m => (stack, m)) := by
  induction members with
  | nil => exact .nil
  | cons m members ih =>
    obtain ⟨hm, hmembers⟩ := List.forall_mem_cons.1 h
    exact .leaf (.inr hm) (ih hmembers)

/-- A union without nested members is shown as what its members are shown as. -/
theorem Shows.of_union (h : g.Shows stack t v) (hbelow : g.Below stack t)
    {members : SortedSet NodeId} (hshape : g.shape t = .union (some members))
    (hflat : ∀ m ∈ members.toList, isNested (g.shape m) = false) :
    ∃ arms, v = collapseArms "union" arms ∧
      List.Forall₂ (fun m w => g.Below (t :: stack) m ∧ g.Shows (t :: stack) m w)
        members.toList arms := by
  cases h with
  | again hmet => exact absurd hmet hbelow.not_mem
  | other _ _ hshape' _ => exact absurd hshape (hshape' members)
  | union arms _ hshape' hleaves harms =>
    obtain rfl := Option.some.inj (Shape.union.inj (hshape.symm.trans hshape'))
    have hpaired := forall₂_of_map_eq ((leaves_of_not_nested hflat).unique hleaves)
    refine ⟨arms.map (·.2), rfl, List.forall₂_map_right_iff.2 (List.forall₂_iff_zip.2
      ⟨hpaired.length_eq, fun {m e} hme => ?_⟩)⟩
    obtain ⟨hm, he⟩ := List.of_mem_zip hme
    have hplace : (t :: stack, m) = e.1 := (List.forall₂_iff_zip.1 hpaired).2 hme
    have hshown := harms e he
    rw [← hplace] at hshown
    exact ⟨hbelow.part (by rw [hshape]; exact hm), hshown⟩

theorem Unfolds.not_nested (h : g.Unfolds t tree) (hrank : tree.rank < 6) :
    isNested (g.shape t) = false := by
  rw [← h.rank_eq] at hrank
  generalize g.shape t = s at hrank ⊢
  cases s with
  | union members | intersection members => exact absurd hrank (Nat.lt_irrefl 6)
  | _ => rfl

/-- What is listed for related elements in one order is listed for them in another one, as far as it
is determined. -/
theorem perm_of_determined {α β : Type} {R : α → β → Prop} {order members : List α}
    {shown arms : List β} (hperm : order.Perm members) (hshown : List.Forall₂ R members shown)
    (harms : List.Forall₂ (fun a b => ∀ b', R a b' → b' = b) order arms) : arms.Perm shown := by
  obtain ⟨ordered, hordered, hpermShown⟩ := List.perm_comp_forall₂ hperm hshown
  obtain rfl := eq_of_forall₂ (fun a b c hb hc => hc b hb) hordered harms
  exact hpermShown

/-- A node that stands for a tree is shown as the description of the tree. -/
theorem Unfolds.eq_described (hapart : NamesApart names) (h : g.Unfolds t tree)
    (hregular : tree.Regular names) (hbelow : g.Below stack t) (hv : g.Shows stack t v) :
    v = tree.described := by
  induction hregular generalizing t stack v with
  | primitive kind =>
    cases h with
    | primitive _ hshape =>
      obtain ⟨value, rfl, -⟩ := hv.of_other hbelow (by simp [hshape])
      rw [hshape]
      rfl
  | enumeration cases =>
    cases h with
    | enumeration hshape =>
      obtain ⟨value, rfl, -⟩ := hv.of_other hbelow (by simp [hshape])
      rw [hshape]
      rfl
  | array _ ih =>
    cases h with
    | array hshape h =>
      obtain ⟨value, rfl, hparts⟩ := hv.of_other hbelow (by simp [hshape])
      rw [hshape] at hparts ⊢
      obtain ⟨hbelow, hshown⟩ := hparts _ (List.mem_singleton_self _)
      rw [shownAs, ih h hbelow hshown, TypeTree.described]
  | map _ ih =>
    cases h with
    | map hshape h =>
      obtain ⟨value, rfl, hparts⟩ := hv.of_other hbelow (by simp [hshape])
      rw [hshape] at hparts ⊢
      obtain ⟨hbelow, hshown⟩ := hparts _ (List.mem_singleton_self _)
      rw [shownAs, ih h hbelow hshown, TypeTree.described]
  | @record trees hnames _ ih =>
    obtain ⟨p, hshape, hall⟩ := h.exists_record
    obtain ⟨value, rfl, hparts⟩ := hv.of_other hbelow (by simp [hshape])
    rw [hshape] at hparts ⊢
    have hin : ∀ e ∈ markedNames p, e ∈ names := by
      rw [markedNames_eq hall]
      exact List.forall_mem_map.2 hnames
    have hmembers : p.entries.map (fun e => (spelling e.1 e.2.optional, value e.2.type)) =
        trees.map fun q => (spelling q.1 q.2.1, q.2.2.described) := by
      refine map_eq_of_forall₂ hall fun e he q hq hproperty => ?_
      obtain ⟨hname, hoptional, htype⟩ := hproperty
      obtain ⟨hbelow, hshown⟩ := hparts _ (type_mem_parts he)
      rw [hname, hoptional, ih q hq htype hbelow hshown]
    rw [shownAs, shownProperties_eq hapart hin, hmembers, TypeTree.described,
      TypeTree.describedProperties_eq]
  | @union arms hmany hrank hflat _ ih =>
    obtain ⟨members, order, hshape, hperm, hall⟩ := h.exists_union
    obtain ⟨shown, rfl, hshown⟩ := hv.of_union hbelow hshape fun m hm => by
      obtain ⟨arm, harm, hm⟩ := exists_right_of_forall₂ hall (hperm.mem_iff.2 hm)
      exact hm.not_nested (hflat arm harm)
    -- The members may be in another order than the arms, but every one is shown as its arm is.
    have hdetermined := ((List.forall₂_and_left _ _).2 ⟨ih, hall.flip⟩).flip
    have hpermShown : (arms.map TypeTree.described).Perm shown :=
      perm_of_determined hperm hshown (List.forall₂_map_right_iff.2
        (hdetermined.imp fun u arm harm v hv => harm.1 harm.2 hv.1 hv.2))
    have hlegible : ∀ v ∈ shown, v.Legible := fun v hv => by
      obtain ⟨m, -, -, hv⟩ := exists_left_of_forall₂ hshown hv
      exact hv.legible
    have hsort : sortArms shown = sortArms (arms.map TypeTree.described) :=
      sortArms_eq_of_perm hpermShown.symm fun v hv w hw =>
        Json.compact_inj (hlegible v hv) (hlegible w hw)
    have hlength : (sortArms shown).length = arms.length := by
      rw [hsort, (TypeTree.described_arms_perm hrank hflat).length_eq, List.length_map]
    rw [collapseArms_of_not_one (by omega), hsort, TypeTree.described, TypeTree.describedArms_eq]

/-- Where keys tell the names of properties, the description of a node is that of its tree. -/
theorem Unfolds.describe_eq (h : g.Unfolds t tree) (hregular : tree.Regular Set.univ)
    (hapart : NamesApart (g.propertyNames t)) : g.describe t = tree.described := by
  have hbelow : g.Below [] t := ⟨h.grounded, nofun⟩
  exact h.eq_described hapart (h.regular hregular subset_rfl) hbelow (g.shows_describe t)

/-! ### Records with names that are shown alike -/

theorem Unfolds.describe_recordOf {name : String} {optional : Bool} {kind : Primitive}
    (h : g.Unfolds t (.recordOf name optional kind)) :
    g.describe t = (TypeTree.recordOf name optional kind).described := by
  have hregular : ∀ names : Set (String × Bool), (name, optional) ∈ names →
      (TypeTree.recordOf name optional kind).Regular names := fun names hname =>
    .record (List.forall_mem_singleton.2 hname) (List.forall_mem_singleton.2 (.primitive kind))
  have hnames := h.propertyNames_subset (hregular {(name, optional)} rfl)
  exact h.describe_eq (hregular Set.univ trivial) ((namesApart_singleton _).mono hnames)

/-- A property that may be absent is not shown if another one has its name with `?` behind it. -/
theorem Unfolds.describe_hidden {name : String} {kind kind' : Primitive}
    (h : g.Unfolds t (.record
      [(name, true, .primitive kind), (name ++ "?", false, .primitive kind')])) :
    g.describe t = .object [("class", .object [(name ++ "?", .string kind'.name)])] := by
  obtain ⟨p, hshape, hall⟩ := h.exists_record
  obtain ⟨value, hdescribe, hparts⟩ := (g.shows_describe t).of_other ⟨h.grounded, nofun⟩
    (by simp [hshape])
  rw [hshape] at hparts hdescribe
  obtain ⟨e, rest, ⟨hname, hoptional, -⟩, hrest, hentries⟩ := List.forall₂_cons_right_iff.1 hall
  obtain ⟨e', rest', ⟨hname', hoptional', htype⟩, hnil, rfl⟩ := List.forall₂_cons_right_iff.1 hrest
  obtain rfl := List.forall₂_nil_right_iff.1 hnil
  obtain ⟨hbelow, hshown⟩ := hparts e'.2.type (type_mem_parts (by simp [hentries]))
  have hvalue := htype.eq_described (namesApart_singleton ("", false)) (.primitive kind') hbelow
    hshown
  rw [hdescribe, shownAs, shownProperties, hentries]
  simp [hname, hname', hoptional, hoptional', hvalue, spelling, Json.setMember,
    TypeTree.described]

end Graph

namespace Collection

open Description

variable {settings settings' : Settings} {values values' : List Json} {c c' : Collection}
  {graph graph' g g' : Graph} {name name' : String} {root root' : NodeId}

theorem ne_nil_of_solve (hobserved : Observed settings values c)
    (hsolve : c.solve graph name = (g, .ok root)) : values ≠ [] := by
  rintro rfl
  have hroots : c.roots.isEmpty = true :=
    Table.isEmpty_eq_of_forall₂ hobserved.keeps.roots
  rw [solve, if_pos hroots] at hsolve
  cases hsolve

/-- Descriptions of types inferred for samples, with any settings that handle no references, are
equal just if the types are, where keys tell the names of the properties of both; then every
property of every record is shown. -/
theorem describe_faithful (hrefs : settings.handleRefs = false)
    (hrefs' : settings'.handleRefs = false) (hc : Observed settings values c)
    (hc' : Observed settings' values' c') (hsolve : c.solve graph name = (g, .ok root))
    (hsolve' : c'.solve graph' name' = (g', .ok root'))
    (hapart : NamesApart (g.propertyNames root ∪ g'.propertyNames root')) :
    ∃ tree tree', g.Unfolds root tree ∧ g'.Unfolds root' tree' ∧
      g.describe root = tree.described ∧ g'.describe root' = tree'.described ∧
      ((g.describe root).same (g'.describe root') = true ↔ tree = tree') := by
  have hunfolds := (solve_unfolds hrefs (ne_nil_of_solve hc hsolve) hc graph name).2 g root hsolve
  have hunfolds' :=
    (solve_unfolds hrefs' (ne_nil_of_solve hc' hsolve') hc' graph' name').2 g' root' hsolve'
  have hregular := TypeTree.regular_ofValues settings values
  have hregular' := TypeTree.regular_ofValues settings' values'
  have hdescribe := hunfolds.describe_eq hregular (hapart.mono Set.subset_union_left)
  have hdescribe' := hunfolds'.describe_eq hregular' (hapart.mono Set.subset_union_right)
  have hform := (g.shows_describe root).form_spelled hapart Set.subset_union_left
  have hform' := (g'.shows_describe root').form_spelled hapart Set.subset_union_right
  refine ⟨_, _, hunfolds, hunfolds', hdescribe, hdescribe', fun hsame => ?_, fun heq => ?_⟩
  · have hequal := hform.eq_of_same (fun _ hks => hks.nodup hapart) (tellsOrder_spelled hapart)
      hform' hsame
    rw [hdescribe, hdescribe'] at hequal
    exact (hunfolds.regular hregular Set.subset_union_left).described_inj hapart
      (hunfolds'.regular hregular' Set.subset_union_right) hequal
  · rw [hdescribe', ← heq, ← hdescribe]
    exact hform.same_self fun _ hks => hks.nodup hapart

theorem exists_inferred {tree : TypeTree} (hrefs : settings.handleRefs = false)
    (hany : values ≠ []) (htree : TypeTree.ofValues settings values = tree) (name : String) :
    ∃ c g root, Observed settings values c ∧ c.solve .empty name = (g, .ok root) ∧
      g.Unfolds root tree := by
  obtain ⟨c, -, hc⟩ := exists_observed settings values
  obtain ⟨hexists, hall⟩ := solve_unfolds hrefs hany hc .empty name
  obtain ⟨g, root, hsolve⟩ := hexists rfl
  exact ⟨c, g, root, hc, hsolve, htree ▸ hall g root hsolve⟩

/-- Records with a list, and not all with another value. -/
def fewLists : List Json :=
  [.object [("n", .null), ("l", .array [.bool true, .number (.integer 1)])],
    .object [("l", .array [])]]

def manyLists : List Json :=
  [.object [("l", .array [.number (.integer 2)])], .object [("l", .array [.bool true])],
    .object [("l", .array []), ("n", .null)]]

def recordsOnly : Settings := { inferMaps := false }

def listRecord : TypeTree :=
  .record [("l", false, .array (.union [.primitive .bool, .primitive .integer])),
    ("n", true, .primitive .null)]

theorem regular_listRecord : listRecord.Regular {("l", false), ("n", true)} := by
  refine .record (by simp) (List.forall_mem_cons.2 ⟨.array ?_, List.forall_mem_singleton.2 ?_⟩)
  · refine .union (Nat.le_refl 2) (by decide) (by decide) ?_
    exact List.forall_mem_cons.2 ⟨.primitive _, List.forall_mem_singleton.2 (.primitive _)⟩
  · exact .primitive _

theorem describe_faithful_lists :
    ∃ c c' g g' root root', Observed {} fewLists c ∧ Observed recordsOnly manyLists c' ∧
      c.solve .empty "T" = (g, .ok root) ∧ c'.solve .empty "U" = (g', .ok root') ∧
      g.describe root = .object [("class", .object
        [("l", .object [("array", .object
          [("union", .array [.string "bool", .string "integer"])])]), ("n?", .string "null")])] ∧
      (g.describe root).same (g'.describe root') = true := by
  have htree : TypeTree.ofValues {} fewLists = listRecord := by cbv
  have htree' : TypeTree.ofValues recordsOnly manyLists = listRecord := by cbv
  obtain ⟨c, g, root, hc, hsolve, hunfolds⟩ := exists_inferred rfl (List.cons_ne_nil _ _) htree "T"
  obtain ⟨c', g', root', hc', hsolve', hunfolds'⟩ :=
    exists_inferred rfl (List.cons_ne_nil _ _) htree' "U"
  have hnames := Set.union_subset (hunfolds.propertyNames_subset regular_listRecord)
    (hunfolds'.propertyNames_subset regular_listRecord)
  have hapart : NamesApart {("l", false), ("n", true)} := by
    rintro k (h | h) (hmarked | hmarked) <;> simp_all
  obtain ⟨tree, tree', ht, ht', hdescribe, -, hiff⟩ :=
    describe_faithful rfl rfl hc hc' hsolve hsolve' (hapart.mono hnames)
  obtain rfl := ht.unique hunfolds
  have hsame := hiff.2 (ht'.unique hunfolds').symm
  refine ⟨c, c', g, g', root, root', hc, hc', hsolve, hsolve', ?_, hsame⟩
  rw [hdescribe]
  cbv

/-- Types may differ and have one description: that of records where `a` may be absent, and that of
records with `a?`. And of these two properties of one type, only the second one is shown. -/
theorem describe_confusesNames :
    (∃ c c' g g' root root',
      Observed {} [.object [("a", .number (.integer 1))], .object []] c ∧
      Observed {} [.object [("a?", .number (.integer 1))]] c' ∧
      c.solve .empty "T" = (g, .ok root) ∧ c'.solve .empty "T" = (g', .ok root') ∧
      g.Unfolds root (.recordOf "a" true .integer) ∧
      g'.Unfolds root' (.recordOf "a?" false .integer) ∧
      (∀ tree, g.Unfolds root tree → ¬ g'.Unfolds root' tree) ∧
      g.describe root = g'.describe root') ∧
    ∃ c g root,
      Observed {} [.object [("a", .number (.integer 1)), ("a?", .null)], .object [("a?", .null)]]
        c ∧
      c.solve .empty "T" = (g, .ok root) ∧
      g.Unfolds root (.record
        [("a", true, .primitive .integer), ("a?", false, .primitive .null)]) ∧
      g.describe root = .object [("class", .object [("a?", .string "null")])] := by
  have hmarked : TypeTree.ofValues {} [.object [("a", .number (.integer 1))], .object []] =
      .recordOf "a" true .integer := by cbv
  have hnamed : TypeTree.ofValues {} [.object [("a?", .number (.integer 1))]] =
      .recordOf "a?" false .integer := by cbv
  have hboth : TypeTree.ofValues {} [.object [("a", .number (.integer 1)), ("a?", .null)],
      .object [("a?", .null)]] =
      .record [("a", true, .primitive .integer), ("a?", false, .primitive .null)] := by cbv
  constructor
  · obtain ⟨c, g, root, hc, hsolve, h⟩ := exists_inferred rfl (List.cons_ne_nil _ _) hmarked "T"
    obtain ⟨c', g', root', hc', hsolve', h'⟩ :=
      exists_inferred rfl (List.cons_ne_nil _ _) hnamed "T"
    refine ⟨c, c', g, g', root, root', hc, hc', hsolve, hsolve', h, h', fun tree ht ht' => ?_,
      h.describe_recordOf.trans h'.describe_recordOf.symm⟩
    have hsame := (h.unique ht).trans (ht'.unique h')
    simp [TypeTree.recordOf] at hsame
  · obtain ⟨c, g, root, hc, hsolve, h⟩ := exists_inferred rfl (List.cons_ne_nil _ _) hboth "T"
    exact ⟨c, g, root, hc, hsolve, h, h.describe_hidden⟩

end Collection

end JsonTyping
