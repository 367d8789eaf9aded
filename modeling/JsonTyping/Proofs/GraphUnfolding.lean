import JsonTyping.Proofs.InferenceInvariants
import JsonTyping.Proofs.PlainEvidence
import JsonTyping.Proofs.ReferenceSteps
import JsonTyping.Proofs.SampleOrder
import Mathlib.Data.List.Permutation

/-!
# Inferred graphs written out

A node of a graph stands for a tree (`Graph.Unfolds`), and for one tree only
(`Graph.Unfolds.unique`). Where references are not handled, the type inferred for samples stands for
the type that the samples have directly (`Collection.solve_unfolds`): nodes that are shared, and the
table between samples and types, make no difference.
-/

namespace JsonTyping

/-- The kind of a type, as `TypeTree.rank` has it. -/
def Shape.rank : Shape → Nat
  | .primitive p => (TypeTree.primitive p).rank
  | .enumeration _ => 3
  | .map _ | .record _ | .object .. => 4
  | .array _ => 5
  | .union _ | .intersection _ => 6

namespace SortedMap

/-- Entries with increasing keys are listed as they stand. -/
theorem entries_ofList {α β : Type} [Ord α] [Std.TransOrd α] [Std.LawfulEqOrd α] [DecidableEq α]
    {l : List (α × β)} (h : l.Pairwise fun a b => compare a.1 b.1 = .lt) :
    (ofList l).entries = l := by
  have hmap : ofList l = ⟨l, h⟩ := by
    refine ext_find? fun a => Option.ext fun b => ?_
    rw [find?_eq_some_iff (m := ⟨l, h⟩)]
    refine ⟨mem_of_find?_ofList, fun hb => ?_⟩
    obtain ⟨b', hb'⟩ := exists_find?_ofList hb
    have hfound := (find?_eq_some_iff (m := ⟨l, h⟩)).2 (mem_of_find?_ofList hb')
    have hown := (find?_eq_some_iff (m := ⟨l, h⟩)).2 hb
    rw [hb', ← hown, hfound]
  rw [hmap]

end SortedMap

namespace Graph

/-- The node, written out, is the tree. The arms of a union are written in the order of their
kinds. -/
inductive Unfolds (g : Graph) : NodeId → TypeTree → Prop
  | primitive {t : NodeId} {p : Primitive} :
    t < g.size → g.shape t = .primitive p → Unfolds g t (.primitive p)
  | enumeration {t : NodeId} {cases : SortedSet String} :
    g.shape t = .enumeration cases → Unfolds g t (.enumeration cases)
  | array {t items : NodeId} {tree : TypeTree} :
    g.shape t = .array items → Unfolds g items tree → Unfolds g t (.array tree)
  | map {t values : NodeId} {tree : TypeTree} :
    g.shape t = .map values → Unfolds g values tree → Unfolds g t (.map tree)
  | record {t : NodeId} {properties : SortedMap String Property}
    {trees : List (String × Bool × TypeTree)} :
    g.shape t = .record properties →
      properties.entries.length = trees.length →
      (∀ e p, (e, p) ∈ properties.entries.zip trees → e.1 = p.1 ∧ e.2.optional = p.2.1) →
      (∀ e p, (e, p) ∈ properties.entries.zip trees → Unfolds g e.2.type p.2.2) →
        Unfolds g t (.record trees)
  | union {t : NodeId} {members : SortedSet NodeId} {order : List NodeId} {arms : List TypeTree} :
    g.shape t = .union (some members) → order.Perm members.toList →
      arms.Pairwise (fun a b => a.rank < b.rank) → order.length = arms.length →
      (∀ u arm, (u, arm) ∈ order.zip arms → Unfolds g u arm) → Unfolds g t (.union arms)

namespace Unfolds

variable {g g' : Graph} {t : NodeId} {tree : TypeTree}

theorem mono (h : g.Unfolds t tree) (hext : g.Extends g') : g'.Unfolds t tree := by
  induction h with
  | primitive hlt hshape =>
    exact .primitive (Nat.lt_of_lt_of_le hlt hext.size) ((hext.shape _ hlt).trans hshape)
  | enumeration hshape => exact .enumeration (hext.shape_eq hshape nofun)
  | array hshape _ ih => exact .array (hext.shape_eq hshape nofun) ih
  | map hshape _ ih => exact .map (hext.shape_eq hshape nofun) ih
  | record hshape hlength hkeys _ ih =>
    exact .record (hext.shape_eq hshape nofun) hlength hkeys ih
  | union hshape hperm hrank hlength _ ih =>
    exact .union (hext.shape_eq hshape nofun) hperm hrank hlength ih

/-- Adding attributes changes no tree. -/
theorem of_shape (h : g.Unfolds t tree) (hsize : g.size ≤ g'.size)
    (hshape : ∀ u, g'.shape u = g.shape u) : g'.Unfolds t tree :=
  h.mono ⟨hsize, fun u _ => hshape u⟩

theorem of_array {items : NodeId} (h : g.Unfolds t tree) (ht : g.shape t = .array items) :
    ∃ sub, tree = .array sub ∧ g.Unfolds items sub := by
  cases h with
  | array hshape hitems =>
    obtain rfl := Shape.array.inj (ht.symm.trans hshape)
    exact ⟨_, rfl, hitems⟩
  | _ => simp_all

theorem of_map {values : NodeId} (h : g.Unfolds t tree) (ht : g.shape t = .map values) :
    ∃ sub, tree = .map sub ∧ g.Unfolds values sub := by
  cases h with
  | map hshape hvalues =>
    obtain rfl := Shape.map.inj (ht.symm.trans hshape)
    exact ⟨_, rfl, hvalues⟩
  | _ => simp_all

/-- The property of the node, written out, is the property of the tree. -/
def IsProperty (g : Graph) (e : String × Property) (p : String × Bool × TypeTree) : Prop :=
  e.1 = p.1 ∧ e.2.optional = p.2.1 ∧ g.Unfolds e.2.type p.2.2

theorem IsProperty.mono {e : String × Property} {p : String × Bool × TypeTree}
    (h : IsProperty g e p) (hext : g.Extends g') : IsProperty g' e p :=
  ⟨h.1, h.2.1, h.2.2.mono hext⟩

theorem of_record {properties : SortedMap String Property} (h : g.Unfolds t tree)
    (ht : g.shape t = .record properties) :
    ∃ trees, tree = .record trees ∧ List.Forall₂ (IsProperty g) properties.entries trees := by
  cases h with
  | record hshape hlength hkeys hall =>
    obtain rfl := Shape.record.inj (ht.symm.trans hshape)
    refine ⟨_, rfl, List.forall₂_iff_zip.2 ⟨hlength, fun {e p} hmem => ?_⟩⟩
    exact ⟨(hkeys e p hmem).1, (hkeys e p hmem).2, hall e p hmem⟩
  | _ => simp_all

theorem of_union {members : SortedSet NodeId} (h : g.Unfolds t tree)
    (ht : g.shape t = .union (some members)) :
    ∃ order arms, tree = .union arms ∧ order.Perm members.toList ∧
      arms.Pairwise (fun a b => a.rank < b.rank) ∧ List.Forall₂ g.Unfolds order arms := by
  cases h with
  | union hshape hperm hrank hlength hall =>
    obtain rfl := Option.some.inj (Shape.union.inj (ht.symm.trans hshape))
    exact ⟨_, _, rfl, hperm, hrank, List.forall₂_iff_zip.2 ⟨hlength, fun {u arm} => hall u arm⟩⟩
  | _ => simp_all

/-- A node stands for one tree only. -/
theorem unique {a b : TypeTree} (ha : g.Unfolds t a) (hb : g.Unfolds t b) : a = b := by
  induction ha generalizing b with
  | primitive _ hshape => cases hb <;> simp_all
  | enumeration hshape => cases hb <;> simp_all
  | array hshape _ ih =>
    obtain ⟨sub, rfl, hitems⟩ := hb.of_array hshape
    rw [ih hitems]
  | map hshape _ ih =>
    obtain ⟨sub, rfl, hvalues⟩ := hb.of_map hshape
    rw [ih hvalues]
  | @record _ properties trees hshape hlength hkeys _ ih =>
    obtain ⟨trees', rfl, hproperties⟩ := hb.of_record hshape
    have hall : List.Forall₂ (fun (e : String × Property) (p : String × Bool × TypeTree) =>
        (e.1 = p.1 ∧ e.2.optional = p.2.1) ∧ ∀ b, g.Unfolds e.2.type b → p.2.2 = b)
        properties.entries trees :=
      List.forall₂_iff_zip.2 ⟨hlength, fun {e p} hmem => ⟨hkeys e p hmem, fun b => ih e p hmem⟩⟩
    refine congrArg TypeTree.record (eq_of_forall₂ (fun e p p' hp hp' => ?_) hall hproperties)
    obtain ⟨key, optional, type⟩ := p
    obtain ⟨key', optional', type'⟩ := p'
    obtain ⟨⟨hkey, hoptional⟩, htype⟩ := hp
    obtain ⟨hkey', hoptional', hunfolds⟩ := hp'
    obtain rfl : key = key' := hkey.symm.trans hkey'
    obtain rfl : optional = optional' := hoptional.symm.trans hoptional'
    rw [show type = type' from htype _ hunfolds]
  | @union _ members order arms hshape hperm hrank hlength _ ih =>
    obtain ⟨order', arms', rfl, hperm', hrank', harms'⟩ := hb.of_union hshape
    have hall : List.Forall₂ (fun u arm => ∀ b, g.Unfolds u b → arm = b) order arms :=
      List.forall₂_iff_zip.2 ⟨hlength, fun {u arm} hmem b => ih u arm hmem⟩
    -- Written in the same order of the members, the arms are the same; so they are the same up to
    -- their order, which their kinds decide.
    obtain ⟨arms'', harms'', hperm''⟩ :=
      List.perm_comp_forall₂ (hperm.trans hperm'.symm) harms'
    obtain rfl := eq_of_forall₂ (fun u a b ha hb => ha b hb) hall harms''
    refine congrArg TypeTree.union (hperm''.eq_of_pairwise (fun a b _ _ hab hba => ?_) hrank hrank')
    exact absurd (Nat.lt_trans hab hba) (Nat.lt_irrefl _)

/-- The kind of a node is that of its tree. -/
theorem rank_eq (h : g.Unfolds t tree) : (g.shape t).rank = tree.rank := by
  cases h with
  | primitive _ hshape => rw [hshape]; rfl
  | enumeration hshape => rw [hshape]; rfl
  | array hshape _ => rw [hshape]; rfl
  | map hshape _ => rw [hshape]; rfl
  | record hshape _ _ _ => rw [hshape]; rfl
  | union hshape _ _ _ _ => rw [hshape]; rfl

end Unfolds

end Graph

namespace Inference

open Sighting

/-- The nodes, written out, are these trees. -/
def WritesOut (s : Inference) (ts : List NodeId) (trees : List TypeTree) : Prop :=
  List.Forall₂ s.graph.Unfolds ts trees

theorem lasts_unfolds (tree : TypeTree) : Lasts fun s t => s.graph.Unfolds t tree :=
  fun _ _ _ hgrows h => h.mono hgrows.graph

theorem lasts_writesOut (trees : List TypeTree) : Lasts fun s ts => s.WritesOut ts trees :=
  fun _ _ _ hgrows h => h.imp fun _ _ hu => hu.mono hgrows.graph

theorem builds_scalars (unified : Unified) :
    Builds (ofEvidence unified) fun s ts =>
      s.WritesOut ts (unified.primitives.toList.map .primitive
        ++ unified.cases.toList.map .enumeration) := by
  have hprimitives := Builds.mapM (l := unified.primitives.toList)
    (R := fun p s t => s.graph.Unfolds t (.primitive p))
    (fun p => (builds_share (.primitive p) ((unified.traits.find? p).getD .empty)).imp
      fun s t ht => .primitive ht.1 ht.2)
    fun p => lasts_unfolds (.primitive p)
  have henumerations := Builds.mapM (l := unified.cases.toList)
    (R := fun cases s t => s.graph.Unfolds t (.enumeration cases))
    (fun cases => (builds_share (.enumeration cases) .empty).imp
      fun s t ht => .enumeration ht.2)
    fun cases => lasts_unfolds (.enumeration cases)
  have hlasts : ∀ {α : Type} (tree : α → TypeTree) (as : List α),
      Lasts fun s ts => List.Forall₂ (fun a t => s.graph.Unfolds t (tree a)) as ts :=
    fun tree as s s' ts hgrows h => h.imp fun a t ht => ht.mono hgrows.graph
  unfold ofEvidence
  refine hprimitives.bind (hlasts _ _) fun ps => henumerations.bind (hlasts _ _) fun es =>
    builds_pure fun s hes hps => List.rel_append ?_ ?_
  · exact List.forall₂_map_right_iff.2 hps.flip
  · exact List.forall₂_map_right_iff.2 hes.flip

/-- Trees of different kinds are those of different nodes. -/
theorem WritesOut.nodup {s : Inference} {ts : List NodeId} {trees : List TypeTree}
    (h : s.WritesOut ts trees) (hrank : trees.Pairwise fun a b => a.rank < b.rank) : ts.Nodup := by
  have hkinds : ts.map (fun t => (s.graph.shape t).rank) = trees.map TypeTree.rank := by
    clear hrank
    induction h with
    | nil => rfl
    | cons hu _ ih => rw [List.map_cons, List.map_cons, hu.rank_eq, ih]
  have hnodup : (trees.map TypeTree.rank).Nodup :=
    List.pairwise_map.2 (hrank.imp Nat.ne_of_lt)
  rw [← hkinds] at hnodup
  exact hnodup.of_map

theorem perm_toList_ofList {ts : List NodeId} (h : ts.Nodup) :
    (SortedSet.ofList ts).toList.Perm ts := by
  have hsorted := (SortedSet.ofList ts).sorted.imp fun {t u} (hlt : compare t u = .lt) =>
    Nat.ne_of_lt (Nat.compare_eq_lt.1 hlt)
  exact (List.perm_ext_iff_of_nodup hsorted h).2 fun t => SortedSet.mem_ofList

/-- Types of different kinds are joined to what they are together. -/
theorem builds_join (ts : List NodeId) (a : Attributes) :
    Builds (joinTypes (.ofList ts) a) fun s t => ∀ trees, s.WritesOut ts trees →
      trees.Pairwise (fun a b => a.rank < b.rank) → s.graph.Unfolds t (TypeTree.join trees) := by
  have hjoin : Builds (joinTypes (.ofList ts) a) fun s t =>
      ((SortedSet.ofList ts).toList = [] ∧ s.HasShape t (.primitive .none)) ∨
      (SortedSet.ofList ts).toList = [t] ∨
      (1 < (SortedSet.ofList ts).toList.length ∧ s.HasShape t (.union (some (.ofList ts)))) := by
    refine builds_onGraph (P := fun g t =>
      ((SortedSet.ofList ts).toList = [] ∧ t < g.size ∧ g.shape t = .primitive .none) ∨
      (SortedSet.ofList ts).toList = [t] ∨ (1 < (SortedSet.ofList ts).toList.length ∧
        t < g.size ∧ g.shape t = .union (some (.ofList ts)))) fun g => ?_
    split
    · next hnone => exact ⟨(g.share_spec _ _).1, .inl ⟨hnone, (g.share_spec _ _).2⟩⟩
    · next only honly =>
      refine ⟨?_, .inr (.inl honly)⟩
      split
      · exact .refl g
      · exact g.extends_addAttributes only a
    · next hnone hone =>
      refine ⟨(g.share_spec _ _).1, .inr (.inr ⟨?_, (g.share_spec _ _).2⟩)⟩
      rcases hlist : (SortedSet.ofList ts).toList with _ | ⟨t, _ | ⟨u, rest⟩⟩
      · exact absurd hlist hnone
      · exact absurd hlist (hone t)
      · simp
  refine hjoin.imp fun s t ht trees htrees hrank => ?_
  have hperm := perm_toList_ofList (htrees.nodup hrank)
  rcases ht with ⟨hnone, hlt, hshape⟩ | hone | ⟨hmany, -, hshape⟩
  · rw [hnone] at hperm
    obtain rfl := hperm.symm.eq_nil
    cases htrees
    exact .primitive hlt hshape
  · rw [hone] at hperm
    obtain rfl := List.perm_singleton.1 hperm.symm
    obtain ⟨tree, trees, htree, hnil, rfl⟩ := List.forall₂_cons_left_iff.1 htrees
    cases hnil
    exact htree
  · have hlength := htrees.length_eq
    rw [hperm.length_eq, hlength] at hmany
    have hunion : TypeTree.join trees = .union trees := by
      rcases trees with _ | ⟨x, _ | ⟨y, rest⟩⟩
      · cases hmany
      · exact absurd hmany (Nat.lt_irrefl 1)
      · rfl
    rw [hunion]
    refine .union hshape hperm.symm hrank hlength fun u arm hmem => ?_
    exact (List.forall₂_iff_zip.1 htrees).2 hmem

/-! ### Containers -/

theorem under_plain {settings : Settings} (hrefs : settings.handleRefs = false) (vs : List Json)
    (key : String) :
    Sighting.under settings (TypeTree.objects vs) key = plain (TypeTree.under vs key) := by
  rw [Sighting.under, TypeTree.under, plain, List.map_flatMap]
  refine congrArg (List.flatMap · (TypeTree.objects vs)) (funext fun members => ?_)
  rw [List.map_filterMap]
  refine congrArg (List.filterMap · members) (funext fun m => ?_)
  split
  · rw [ofMember, hrefs]
    rfl
  · rfl

/-- The values of all members, listed key by key. -/
theorem allValues_plain {settings : Settings} (hrefs : settings.handleRefs = false)
    (vs : List Json) :
    allValues settings (TypeTree.objects vs) =
      plain ((TypeTree.keys vs).toList.flatMap (TypeTree.under vs)) := by
  rw [allValues, plain, List.map_flatMap]
  exact congrArg (List.flatMap · (TypeTree.keys vs).toList)
    (funext fun key => under_plain hrefs vs key)

theorem flatMap_own {ks : List String} {k : String} (hnodup : ks.Nodup) (hk : k ∈ ks) (v : Json) :
    (ks.flatMap fun k' => if k = k' then [v] else []) = [v] := by
  induction ks with
  | nil => cases hk
  | cons k' ks ih =>
    obtain ⟨hnew, hnodup⟩ := List.nodup_cons.1 hnodup
    rw [List.flatMap_cons]
    by_cases hkk' : k = k'
    · subst hkk'
      have hnone : (ks.flatMap fun k' => if k = k' then [v] else []) = [] :=
        List.flatMap_eq_nil_iff.2 fun k' hk' => if_neg (by rintro rfl; exact hnew hk')
      rw [if_pos rfl, hnone, List.append_nil]
    · rw [if_neg hkk', List.nil_append]
      exact ih hnodup ((List.mem_cons.1 hk).resolve_left hkk')

theorem flatMap_filterMap_perm {ks : List String} (hnodup : ks.Nodup)
    (members : List (String × Json)) (hkeys : ∀ m ∈ members, m.1 ∈ ks) :
    (ks.flatMap fun k => members.filterMap fun m => if m.1 = k then some m.2 else none).Perm
      (members.map (·.2)) := by
  induction members with
  | nil => simp
  | cons m members ih =>
    have hsplit : ∀ k, ((m :: members).filterMap fun m => if m.1 = k then some m.2 else none) =
        (if m.1 = k then [m.2] else [])
          ++ members.filterMap fun m => if m.1 = k then some m.2 else none := fun k => by
      rw [List.filterMap_cons]
      by_cases hk : m.1 = k
      · simp only [hk, if_true, List.singleton_append]
      · simp only [hk, if_false, List.nil_append]
    simp only [hsplit]
    refine (List.flatMap_append_perm ks _ _).symm.trans ?_
    rw [flatMap_own hnodup (hkeys m List.mem_cons_self), List.map_cons, List.singleton_append]
    exact (ih fun m' hm' => hkeys m' (List.mem_cons_of_mem m hm')).cons m.2

/-- Listed key by key, the values of all members are those of the objects one after the other. -/
theorem flatMap_under_perm (vs : List Json) :
    ((TypeTree.keys vs).toList.flatMap (TypeTree.under vs)).Perm (TypeTree.memberValues vs) := by
  have hperm := flatMap_filterMap_perm (TypeTree.keys vs).nodup (TypeTree.objects vs).flatten
    fun m hm => by
      obtain ⟨members, hmembers, hm⟩ := List.mem_flatten.1 hm
      exact mem_keys hmembers hm
  simp only [List.map_flatten, List.filterMap_flatten, ← List.flatMap_def] at hperm
  exact hperm

theorem isOptional_plain (vs : List Json) (key : String) :
    Sighting.isOptional (TypeTree.objects vs) key = TypeTree.isOptional vs key := by
  rw [isOptional_eq_any, TypeTree.isOptional]
  simp only [List.not_any_eq_all_not, bne]

section Containers

variable {settings : Settings} (hrefs : settings.handleRefs = false)
  {infer : List Sighting → Attributes → StateM Inference NodeId} {fuel : Nat}
  (hinfer : ∀ vs a, (∀ v ∈ vs, v.depth < fuel) → Builds (infer (plain vs) a) fun s t =>
    s.graph.Unfolds t (TypeTree.ofValues settings vs))

include hinfer

theorem builds_array {vs : List Json} (hdepth : ∀ items ∈ TypeTree.arrays vs, ∀ v ∈ items,
    v.depth < fuel) (a : Attributes) :
    Builds (ofArrays infer (TypeTree.arrays vs) a) fun s t =>
      s.graph.Unfolds t (.array (TypeTree.ofValues settings (TypeTree.arrays vs).flatten)) := by
  unfold ofArrays
  refine (hinfer _ _ fun v hv => ?_).bind (lasts_unfolds _) fun items =>
    (builds_share _ a).imp fun s t ht hitems => .array ht.2 hitems
  obtain ⟨items, hitems, hv⟩ := List.mem_flatten.1 hv
  exact hdepth items hitems v hv

include hrefs

theorem builds_object {vs : List Json} (hdepth : ∀ members ∈ TypeTree.objects vs, ∀ m ∈ members,
    m.2.depth < fuel) (hany : TypeTree.objects vs ≠ []) (a : Attributes) :
    Builds (ofObjects settings infer (TypeTree.objects vs) a) fun s t =>
      s.WritesOut [t] (TypeTree.ofObjects settings vs) := by
  have hvalues : ∀ v ∈ TypeTree.memberValues vs, v.depth < fuel := fun v hv => by
    obtain ⟨members, hmembers, hv⟩ := List.mem_flatMap.1 hv
    obtain ⟨m, hm, rfl⟩ := List.mem_map.1 hv
    exact hdepth members hmembers m hm
  have htargets : targets? settings (TypeTree.objects vs) = none := by
    rw [targets?, if_neg (by simp [hrefs])]
  unfold ofObjects TypeTree.ofObjects
  rw [htargets, if_neg hany]
  dsimp only
  have hmap : Sighting.isMap settings (TypeTree.objects vs) = TypeTree.isMap settings vs := rfl
  rw [hmap]
  split
  · rw [allValues_plain hrefs, ← TypeTree.ofValues_perm settings (flatMap_under_perm vs)]
    refine (hinfer _ _ fun v hv => hvalues v ((flatMap_under_perm vs).mem_iff.1 hv)).bind
      (lasts_unfolds _) fun values => (builds_share _ a).imp fun s t ht hv => ?_
    exact .cons (.map ht.2 hv) .nil
  · have hkeys : Sighting.keys (TypeTree.objects vs) = TypeTree.keys vs := rfl
    let tree : String → String × Bool × TypeTree := fun key =>
      (key, TypeTree.isOptional vs key, TypeTree.ofValues settings (TypeTree.under vs key))
    rw [hkeys]
    refine (Builds.mapM (R := fun key s kp => Graph.Unfolds.IsProperty s.graph kp (tree key))
      (fun key => ?_) fun key s s' kp hgrows h => h.mono hgrows.graph).bind
        (fun s s' ps hgrows h => h.imp fun key kp hkp => hkp.mono hgrows.graph)
        fun properties => (builds_share _ a).imp fun s t ht hproperties => ?_
    · rw [under_plain hrefs]
      refine (hinfer _ _ fun v hv => hvalues v ((TypeTree.under_sublist vs key).subset hv)).bind
        (lasts_unfolds _) fun type => builds_pure fun s htype => ?_
      exact ⟨rfl, isOptional_plain vs key, htype⟩
    · have hsame : properties.map (·.1) = (TypeTree.keys vs).toList := by
        refine List.forall₂_eq_eq_eq ▸ List.forall₂_map_left_iff.2 ?_
        exact hproperties.flip.imp fun kp key hkp => hkp.1
      have hincreasing : (properties.map (·.1)).Pairwise fun k k' => compare k k' = .lt := by
        rw [hsame]
        exact (TypeTree.keys vs).sorted
      have hentries := SortedMap.entries_ofList (List.pairwise_map.1 hincreasing)
      have hall : List.Forall₂ (Graph.Unfolds.IsProperty s.graph)
          (SortedMap.ofList properties).entries ((TypeTree.keys vs).toList.map tree) := by
        rw [hentries]
        exact List.forall₂_map_right_iff.2 hproperties.flip
      obtain ⟨hlength, hzip⟩ := List.forall₂_iff_zip.1 hall
      exact .cons (.record ht.2 hlength (fun e p hmem => ⟨(hzip hmem).1, (hzip hmem).2.1⟩)
        fun e p hmem => (hzip hmem).2.2) .nil

end Containers

/-- The type of values, written out, is the type that they have together. -/
theorem builds_plain {settings : Settings} (hrefs : settings.handleRefs = false) (fuel : Nat)
    (vs : List Json) (a : Attributes) (hdepth : ∀ v ∈ vs, v.depth < fuel) :
    Builds (ofSightings settings fuel (plain vs) a) fun s t =>
        s.graph.Unfolds t (TypeTree.ofValues settings vs) := by
  induction fuel generalizing vs a with
  | zero =>
    have hnil : vs = [] := List.eq_nil_iff_forall_not_mem.2 fun v hv =>
      absurd (hdepth v hv) (Nat.not_lt_zero _)
    subst hnil
    refine (builds_share (.primitive .none) .empty).imp fun s t ht => ?_
    rw [TypeTree.ofValues_eq]
    exact .primitive ht.1 ht.2
  | succ fuel ih =>
    have hinside : ∀ x ∈ plain vs, x.value.depth < fuel + 1 := fun x hx => by
      obtain ⟨v, hv, rfl⟩ := List.mem_map.1 hx
      exact hdepth v hv
    have hobjects := depth_lt_of_mem_objects hinside
    have harrays := depth_lt_of_mem_arrays hinside
    unfold ofSightings
    rw [objects_plain] at hobjects ⊢
    rw [arrays_plain] at harrays ⊢
    have hos : Builds (whenAny (TypeTree.objects vs)
        (ofObjects settings (ofSightings settings fuel)))
        fun s ts => s.WritesOut ts (TypeTree.ofObjects settings vs) := by
      unfold whenAny
      split
      · next hempty =>
        rw [TypeTree.ofObjects, if_pos (List.isEmpty_iff.1 hempty)]
        exact builds_pure fun s => .nil
      · next hany =>
        exact (builds_object hrefs (fun vs a h => ih vs a h) hobjects
          (fun hnil => hany (List.isEmpty_iff.2 hnil)) .empty).map
    have has : Builds (whenAny (TypeTree.arrays vs) (ofArrays (ofSightings settings fuel)))
        fun s ts => s.WritesOut ts (TypeTree.ofArrays settings vs) := by
      unfold whenAny TypeTree.ofArrays
      split
      · next hempty =>
        rw [if_pos (List.isEmpty_iff.1 hempty)]
        exact builds_pure fun s => .nil
      · next hany =>
        rw [if_neg fun hnil => hany (List.isEmpty_iff.2 hnil)]
        exact ((builds_array (fun vs a h => ih vs a h) harrays .empty).imp
          fun s t ht => .cons ht .nil).map
    have hscalars := builds_scalars ((evidence settings (plain vs)).unify settings)
    rw [← TypeTree.ofScalars_eq] at hscalars
    refine hscalars.bind (lasts_writesOut _) fun scalars => hos.bind (lasts_writesOut _) fun os =>
      has.bind (lasts_writesOut _) fun as => (builds_join _ a).imp
        fun s t hjoin has hos hscalars => ?_
    rw [TypeTree.ofValues_eq]
    exact hjoin _ (List.rel_append (List.rel_append hscalars hos) has)
      (TypeTree.rank_arms settings vs)

end Inference

namespace Collection

/-- Where references are not handled, the type that is inferred is published as it is. -/
theorem solve_of_no_refs {settings : Settings} {values : List Json} {c : Collection}
    (hrefs : settings.handleRefs = false) (hany : values ≠ [])
    (hobserved : Observed settings values c) (graph : Graph) (name : String) :
    ∃ (top : NodeId) (s : Inference), s.graph.topLevels = graph.topLevels ∧
      s.graph.Unfolds top (TypeTree.ofValues settings values) ∧
      c.solve graph name = match s.graph.publish? name top with
        | some g => (g, .ok top)
        | none => (s.graph, .error (.duplicateTopLevel name)) := by
  have hkeeps := hobserved.keeps
  have hroots : c.roots.isEmpty = false :=
    (Table.isEmpty_eq_of_forall₂ hkeeps.roots).trans (List.isEmpty_eq_false_iff.2 hany)
  have hsame := hkeeps.typeOf_eq (.givenName name)
  rcases hinferred : (Inference.ofSightings settings (c.recorder.table.rows + 1)
    (Sighting.plain values) (.givenName name)).run (.start graph) with ⟨top, s⟩
  have hpending := Inference.pending_eq_of_no_refs hrefs (c.recorder.table.rows + 1)
    (Sighting.plain values) (.givenName name) (.start graph)
  have htopLevels := Inference.topLevels_ofSightings settings (c.recorder.table.rows + 1)
    (Sighting.plain values) (.givenName name) (.start graph)
  obtain ⟨-, -, hunfolds⟩ := Inference.builds_plain hrefs (c.recorder.table.rows + 1) values
    (.givenName name) (fun v hv => Nat.lt_succ_of_le (hkeeps.depth v hv)) (.start graph)
    (start_wf graph)
  rw [hinferred] at hpending htopLevels hunfolds
  refine ⟨top, s, htopLevels, hunfolds, ?_⟩
  have hrun : (Inference.typeOf c.recorder.table c.roots (.givenName name)).run (.start graph) =
      (top, s) := by
    rw [hsame]
    exact hinferred
  have hnothing : outcome (Inference.resolvePending top) s = (.ok (), s) := by
    unfold Inference.resolvePending
    rw [outcome_bind_of_ok (outcome_get s), hpending]
    rfl
  exact solve_of_runs hroots hrun hnothing

/-- Where references are not handled, the type of any samples, written out, is the type that they
have together as values; it is given unless its name is taken. -/
theorem solve_unfolds {settings : Settings} {values : List Json} {c : Collection}
    (hrefs : settings.handleRefs = false) (hany : values ≠ [])
    (hobserved : Observed settings values c) (graph : Graph) (name : String) :
    (graph.topLevel? name = none → ∃ g root, c.solve graph name = (g, .ok root)) ∧
      ∀ g root, c.solve graph name = (g, .ok root) →
        g.Unfolds root (TypeTree.ofValues settings values) := by
  obtain ⟨top, s, htopLevels, hunfolds, hsolve⟩ :=
    solve_of_no_refs hrefs hany hobserved graph name
  rw [hsolve]
  refine ⟨fun hfree => ?_, fun g root hroot => ?_⟩
  · have hfree' : s.graph.topLevel? name = none := by
      rw [Graph.topLevel?, htopLevels]
      exact hfree
    simp only [Graph.publish?, hfree', Option.isSome_none, Bool.false_eq_true, if_false]
    exact ⟨_, _, rfl⟩
  · split at hroot
    · next published hpublished =>
      cases hroot
      refine hunfolds.of_shape ?_ (Graph.shape_publish? hpublished)
      unfold Graph.publish? at hpublished
      split at hpublished
      · cases hpublished
      · exact Option.some.inj hpublished ▸ Nat.le_refl _
    · cases hroot

/-- Records of which one lacks a key, and the other one repeats one. -/
def uneven : List Json :=
  [.object [("a", .number (.integer 1)), ("b", .array [])],
    .object [("a", .bool true), ("a", .null)]]

theorem solve_unfolds_uneven :
    ∃ c g root, Observed {} uneven c ∧ c.solve .empty "T" = (g, .ok root) ∧
      g.Unfolds root (.record
        [("a", false, .union [.primitive .null, .primitive .bool, .primitive .integer]),
          ("b", true, .array (.primitive .none))]) := by
  have htree : TypeTree.ofValues {} uneven = .record
      [("a", false, .union [.primitive .null, .primitive .bool, .primitive .integer]),
        ("b", true, .array (.primitive .none))] := by cbv
  obtain ⟨c, -, hc⟩ := exists_observed {} uneven
  obtain ⟨hexists, hall⟩ := solve_unfolds rfl (List.cons_ne_nil _ _) hc .empty "T"
  obtain ⟨g, root, hsolve⟩ := hexists rfl
  exact ⟨c, g, root, hc, hsolve, htree ▸ hall g root hsolve⟩

end Collection

end JsonTyping
