import JsonTyping.Proofs.GraphUnfolding

/-!
# Values of types that are written out

`TypeTree.Has` says which values a type has that is written out. They are the instances of every
node that stands for it (`Graph.Unfolds.instance_iff`). The values of the type of several samples
are those of its arms.
-/

namespace JsonTyping

namespace TypeTree

/-- The values of a type that is written out. -/
inductive Has : TypeTree → Json → Prop
  | primitive {p : Primitive} {v : Json} (h : p.Holds v) : Has (.primitive p) v
  | enumeration {cases : SortedSet String} {s : String} (h : s ∈ cases) :
      Has (.enumeration cases) (.string s)
  | array {items : TypeTree} {vs : List Json} (h : ∀ v ∈ vs, Has items v) :
      Has (.array items) (.array vs)
  | map {values : TypeTree} {ms : List (String × Json)} (h : ∀ k v, (k, v) ∈ ms → Has values v) :
      Has (.map values) (.object ms)
  | record {properties : List (String × Bool × TypeTree)} {ms : List (String × Json)}
      (hdeclared : ∀ k v, (k, v) ∈ ms → ∃ p ∈ properties, p.1 = k)
      (htypes : ∀ k v p, (k, v) ∈ ms → p ∈ properties → p.1 = k → Has p.2.2 v)
      (hpresent : ∀ p ∈ properties, p.2.1 = false → ∃ v, (p.1, v) ∈ ms) :
      Has (.record properties) (.object ms)
  | union {arms : List TypeTree} {arm : TypeTree} {v : Json} (harm : arm ∈ arms)
      (h : Has arm v) : Has (.union arms) v

end TypeTree

namespace Graph

variable {g : Graph} {t : NodeId} {tree : TypeTree}

theorem Unfolds.ne_intersection (h : g.Unfolds t tree) (members : Option (SortedSet NodeId)) :
    g.shape t ≠ .intersection members := by
  intro ht
  cases h with
  | primitive _ hshape => cases hshape.symm.trans ht
  | enumeration hshape => cases hshape.symm.trans ht
  | array hshape _ => cases hshape.symm.trans ht
  | map hshape _ => cases hshape.symm.trans ht
  | record hshape _ _ _ => cases hshape.symm.trans ht
  | union hshape _ _ _ _ => cases hshape.symm.trans ht

theorem Unfolds.of_primitive {p : Primitive} (h : g.Unfolds t tree)
    (ht : g.shape t = .primitive p) : tree = .primitive p := by
  cases h with
  | primitive _ hshape =>
    have hp := Shape.primitive.inj (hshape.symm.trans ht)
    rw [hp]
  | _ => simp_all

theorem Unfolds.of_enumeration {cases : SortedSet String} (h : g.Unfolds t tree)
    (ht : g.shape t = .enumeration cases) : tree = .enumeration cases := by
  cases h with
  | enumeration hshape =>
    have hcases := Shape.enumeration.inj (hshape.symm.trans ht)
    rw [hcases]
  | _ => simp_all

/-- A property of a node and the one written out for it have the same key, and the node has one
property for each key. -/
theorem exists_written {properties : SortedMap String Property}
    {trees : List (String × Bool × TypeTree)}
    (h : List.Forall₂ (Unfolds.IsProperty g) properties.entries trees) {k : String} {p : Property}
    (hp : properties.find? k = some p) :
    ∃ q ∈ trees, Unfolds.IsProperty g (k, p) q :=
  exists_right_of_forall₂ h (SortedMap.find?_eq_some_iff.1 hp)

theorem exists_property {properties : SortedMap String Property}
    {trees : List (String × Bool × TypeTree)}
    (h : List.Forall₂ (Unfolds.IsProperty g) properties.entries trees)
    {q : String × Bool × TypeTree} (hq : q ∈ trees) :
    ∃ p, properties.find? q.1 = some p ∧ Unfolds.IsProperty g (q.1, p) q := by
  obtain ⟨⟨k, p⟩, hmem, hsame⟩ := exists_left_of_forall₂ h hq
  have hkey : k = q.1 := hsame.1
  subst hkey
  exact ⟨p, SortedMap.find?_eq_some_iff.2 hmem, hsame⟩

theorem Instance.has {refs : NodeId → String → Prop} {v : Json} (h : g.Instance refs t v)
    (hrefs : ∀ t s, refs t s → ∃ members, g.shape t = .intersection members)
    (ht : g.Unfolds t tree) : tree.Has v := by
  induction h generalizing tree with
  | primitive hshape hp =>
    have htree := ht.of_primitive hshape
    rw [htree]
    exact .primitive hp
  | enumeration hshape hs =>
    have htree := ht.of_enumeration hshape
    rw [htree]
    exact .enumeration hs
  | array hshape _ ih =>
    obtain ⟨items, htree, hitems⟩ := ht.of_array hshape
    rw [htree]
    exact .array fun v hv => ih v hv hitems
  | map hshape _ ih =>
    obtain ⟨values, htree, hvalues⟩ := ht.of_map hshape
    rw [htree]
    exact .map fun k v hkv => ih k v hkv hvalues
  | record hshape hdeclared _ hpresent ih =>
    obtain ⟨trees, htree, hall⟩ := ht.of_record hshape
    rw [htree]
    refine .record ?_ ?_ ?_
    · intro k v hkv
      obtain ⟨p, hp⟩ := hdeclared k v hkv
      obtain ⟨q, hq, hkey, -, -⟩ := exists_written hall hp
      exact ⟨q, hq, hkey.symm⟩
    · intro k v q hkv hq hkey
      subst hkey
      obtain ⟨p, hp, -, -, hunfolds⟩ := exists_property hall hq
      exact ih q.1 v p hkv hp hunfolds
    · intro q hq hrequired
      obtain ⟨p, hp, -, hoptional, -⟩ := exists_property hall hq
      exact hpresent q.1 p hp (hoptional.trans hrequired)
  | @union t u members v hshape hu _ ih =>
    obtain ⟨order, arms, htree, hperm, -, harms⟩ := ht.of_union hshape
    rw [htree]
    have hmem : u ∈ order := hperm.mem_iff.2 hu
    obtain ⟨arm, harm, hunfolds⟩ := exists_right_of_forall₂ harms hmem
    exact .union harm (ih hunfolds)
  | reference h =>
    obtain ⟨members, hshape⟩ := hrefs _ _ h
    exact absurd hshape (ht.ne_intersection members)

theorem Unfolds.instance_of_has {v : Json} (ht : g.Unfolds t tree)
    (refs : NodeId → String → Prop) (h : tree.Has v) : g.Instance refs t v := by
  induction ht generalizing v with
  | primitive _ hshape =>
    cases h with
    | primitive hp => exact .primitive hshape hp
  | enumeration hshape =>
    cases h with
    | enumeration hs => exact .enumeration hshape hs
  | array hshape _ ih =>
    cases h with
    | array hvs => exact .array hshape fun v hv => ih (hvs v hv)
  | map hshape _ ih =>
    cases h with
    | map hms => exact .map hshape fun k v hkv => ih (hms k v hkv)
  | @record t properties trees hshape hlength hkeys hunfolds ih =>
    cases h with
    | @record _ ms hdeclared htypes hpresent =>
      have hall : List.Forall₂ (Unfolds.IsProperty g) properties.entries trees :=
        List.forall₂_iff_zip.2 ⟨hlength, fun {e p} hmem =>
          ⟨(hkeys e p hmem).1, (hkeys e p hmem).2, hunfolds e p hmem⟩⟩
      have hinside : List.Forall₂ (fun (e : String × Property) (p : String × Bool × TypeTree) =>
          e.1 = p.1 ∧ ∀ v, p.2.2.Has v → g.Instance refs e.2.type v) properties.entries trees :=
        List.forall₂_iff_zip.2 ⟨hlength, fun {e p} hmem =>
          ⟨(hkeys e p hmem).1, fun v hv => ih e p hmem hv⟩⟩
      refine .record hshape ?_ ?_ ?_
      · intro k v hkv
        obtain ⟨q, hq, hkey⟩ := hdeclared k v hkv
        obtain ⟨p, hp, -⟩ := exists_property hall hq
        rw [hkey] at hp
        exact ⟨p, hp⟩
      · intro k v p hkv hp
        have hmem : (k, p) ∈ properties.entries := SortedMap.find?_eq_some_iff.1 hp
        obtain ⟨q, hq, hkey, hvalues⟩ := exists_right_of_forall₂ hinside hmem
        exact hvalues v (htypes k v q hkv hq hkey.symm)
      · intro k p hp hrequired
        obtain ⟨q, hq, hkey, hoptional, -⟩ := exists_written hall hp
        have hkey' : k = q.1 := hkey
        rw [hkey']
        exact hpresent q hq (hoptional.symm.trans hrequired)
  | @union t members order arms hshape hperm _ hlength _ ih =>
    cases h with
    | union harm hv =>
      have hinside : List.Forall₂ (fun u arm => ∀ v, arm.Has v → g.Instance refs u v) order arms :=
        List.forall₂_iff_zip.2 ⟨hlength, fun {u arm} hmem v hv => ih u arm hmem hv⟩
      obtain ⟨u, hu, hvalues⟩ := exists_left_of_forall₂ hinside harm
      exact .union hshape (hperm.mem_iff.1 hu) (hvalues _ hv)

/-- A node without intersections below it has the values of the type that it stands for. -/
theorem Unfolds.instance_iff (ht : g.Unfolds t tree) {top : NodeId} {v : Json} :
    g.Instance (g.Targets top) t v ↔ tree.Has v := by
  constructor
  · intro h
    refine h.has (fun u s hu => ?_) ht
    obtain ⟨members, -, hshape, -⟩ := hu
    exact ⟨some members, hshape⟩
  · exact ht.instance_of_has _

end Graph

namespace TypeTree

theorem has_join {arms : List TypeTree} {v : Json} :
    (join arms).Has v ↔ ∃ arm ∈ arms, arm.Has v := by
  cases arms with
  | nil =>
    constructor
    · intro h
      cases h with
      | primitive hp => exact absurd hp (Primitive.not_holds_none v)
    · rintro ⟨arm, harm, -⟩
      cases harm
  | cons first rest =>
    cases rest with
    | nil =>
      constructor
      · exact fun h => ⟨first, List.mem_singleton_self first, h⟩
      · rintro ⟨arm, harm, h⟩
        obtain rfl := List.mem_singleton.1 harm
        exact h
    | cons second rest =>
      constructor
      · intro h
        cases h with
        | union harm h => exact ⟨_, harm, h⟩
      · rintro ⟨arm, harm, h⟩
        exact .union harm h

/-- The value is one of some type of the list. -/
def Offers (arms : List TypeTree) (v : Json) : Prop := ∃ arm ∈ arms, arm.Has v

theorem offers_append {arms arms' : List TypeTree} {v : Json} :
    Offers (arms ++ arms') v ↔ Offers arms v ∨ Offers arms' v := by
  constructor
  · rintro ⟨arm, harm, h⟩
    rcases List.mem_append.1 harm with harm | harm
    · exact .inl ⟨arm, harm, h⟩
    · exact .inr ⟨arm, harm, h⟩
  · rintro (⟨arm, harm, h⟩ | ⟨arm, harm, h⟩)
    · exact ⟨arm, List.mem_append_left _ harm, h⟩
    · exact ⟨arm, List.mem_append_right _ harm, h⟩

theorem offers_nil {v : Json} : ¬ Offers [] v := by
  rintro ⟨arm, harm, -⟩
  cases harm

theorem offers_singleton {arm : TypeTree} {v : Json} : Offers [arm] v ↔ arm.Has v := by
  constructor
  · rintro ⟨arm', harm, h⟩
    obtain rfl := List.mem_singleton.1 harm
    exact h
  · exact fun h => ⟨arm, List.mem_singleton_self arm, h⟩

theorem has_ofValues_iff {settings : Settings} {vs : List Json} {v : Json} :
    (ofValues settings vs).Has v ↔ (Offers (ofScalars settings vs) v ∨
      Offers (ofObjects settings vs) v) ∨ Offers (ofArrays settings vs) v := by
  rw [ofValues_eq, has_join, ← offers_append, ← offers_append]
  rfl

theorem offers_ite {b : Bool} {arm : TypeTree} {v : Json} :
    Offers (if b then [arm] else []) v ↔ b = true ∧ arm.Has v := by
  cases b with
  | false => exact iff_of_false offers_nil fun h => Bool.false_ne_true h.1
  | true => simp only [if_true, offers_singleton, true_and]

theorem has_primitive {p : Primitive} {v : Json} : (primitive p).Has v ↔ p.Holds v := by
  constructor
  · intro h
    cases h with
    | primitive hp => exact hp
  · exact .primitive

end TypeTree

end JsonTyping
