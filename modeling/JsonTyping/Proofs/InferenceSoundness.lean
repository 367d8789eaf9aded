import JsonTyping.Proofs.SampleInstances
import JsonTyping.Proofs.Sightings

/-!
# Inferred types hold the values they were inferred from

`Inference.Builds` follows a run of the inference: the graph grows, pending references stay, and
something holds at the end that later growth keeps. With one rule for each combinator and one lemma
for each function, `Inference.builds_ofSightings` says that every value at a position is an instance
of the type inferred for the position, as long as pending intersections stand for their own
references.
-/

namespace JsonTyping

namespace Inference

/-- Pending nodes are intersections without members. -/
def Wf (s : Inference) : Prop :=
  ∀ t targets, s.pending.find? t = some targets → s.graph.shape t = .intersection none

/-- Nodes keep their shapes, and pending references stay. -/
structure Grows (s s' : Inference) : Prop where
  graph : s.graph.Extends s'.graph
  pending : ∀ t targets, s.pending.find? t = some targets → s'.pending.find? t = some targets

theorem Grows.refl (s : Inference) : Grows s s := ⟨.refl s.graph, fun _ _ h => h⟩

theorem Grows.trans {s s' s'' : Inference} (h : Grows s s') (h' : Grows s' s'') : Grows s s'' where
  graph := h.graph.trans h'.graph
  pending t targets ht := h'.pending t targets (h.pending t targets ht)

def HasShape (s : Inference) (t : NodeId) (shape : Shape) : Prop :=
  t < s.graph.size ∧ s.graph.shape t = shape

theorem HasShape.mono {s s' : Inference} {t : NodeId} {shape : Shape} (h : s.HasShape t shape)
    (grows : Grows s s') : s'.HasShape t shape := by
  obtain ⟨hlt, hshape⟩ := h
  refine ⟨Nat.lt_of_lt_of_le hlt grows.graph.size, ?_⟩
  rw [grows.graph.shape t hlt, hshape]

/-- The pending node stands for the reference. -/
def Refs (settings : Settings) (s : Inference) (t : NodeId) (reference : String) : Prop :=
  settings.handleRefs = true ∧ ∃ targets, s.pending.find? t = some targets ∧ reference ∈ targets

/-- The value is an instance of the type, as far as it is known. -/
def Fits (settings : Settings) (s : Inference) (t : NodeId) (v : Json) : Prop :=
  s.graph.Instance (s.Refs settings) t v

theorem Fits.mono {settings : Settings} {s s' : Inference} {t : NodeId} {v : Json}
    (h : s.Fits settings t v) (grows : Grows s s') : s'.Fits settings t v := by
  refine Graph.Instance.mono (fun t shape ht hne _ => grows.graph.shape_eq ht hne) ?_ h
  rintro t reference ⟨hrefs, targets, hpending, hmem⟩
  exact ⟨hrefs, targets, grows.pending t targets hpending, hmem⟩

/-- From a well-formed state the run leads to a well-formed one with more in it, where `Q` holds of
the result. -/
def Builds {α : Type} (m : StateM Inference α) (Q : Inference → α → Prop) : Prop :=
  ∀ s : Inference, s.Wf → (m.run s).2.Wf ∧ Grows s (m.run s).2 ∧ Q (m.run s).2 (m.run s).1

/-- What still holds when more is built. -/
def Lasts {α : Type} (Q : Inference → α → Prop) : Prop :=
  ∀ s s' a, Grows s s' → Q s a → Q s' a

section Rules

variable {α β : Type}

theorem builds_pure {a : α} {Q : Inference → α → Prop} (h : ∀ s, Q s a) : Builds (pure a) Q :=
  fun s hs => ⟨hs, .refl s, h s⟩

theorem Builds.bind {m : StateM Inference α} {f : α → StateM Inference β}
    {P : Inference → α → Prop} {Q : Inference → β → Prop} (hm : Builds m P) (hlasts : Lasts P)
    (hf : ∀ a, Builds (f a) fun s b => P s a → Q s b) : Builds (m >>= f) Q := by
  intro s hs
  obtain ⟨hwf, hgrows, hP⟩ := hm s hs
  obtain ⟨hwf', hgrows', hQ⟩ := hf (m.run s).1 (m.run s).2 hwf
  exact ⟨hwf', hgrows.trans hgrows', hQ (hlasts _ _ _ hgrows' hP)⟩

theorem Builds.imp {m : StateM Inference α} {P Q : Inference → α → Prop} (hm : Builds m P)
    (h : ∀ s a, P s a → Q s a) : Builds m Q := by
  intro s hs
  obtain ⟨hwf, hgrows, hP⟩ := hm s hs
  exact ⟨hwf, hgrows, h _ _ hP⟩

theorem Builds.map {m : StateM Inference α} {f : α → β} {Q : Inference → β → Prop}
    (hm : Builds m fun s a => Q s (f a)) : Builds (f <$> m) Q := by
  intro s hs
  exact hm s hs

theorem Builds.mapM {f : α → StateM Inference β} {R : α → Inference → β → Prop} {l : List α}
    (hf : ∀ a, Builds (f a) (R a)) (hlasts : ∀ a, Lasts (R a)) :
    Builds (l.mapM f) fun s bs => List.Forall₂ (fun a b => R a s b) l bs := by
  have hall : ∀ l : List α, Lasts fun s bs => List.Forall₂ (fun a b => R a s b) l bs :=
    fun l s s' bs hgrows h => h.imp fun a b hab => hlasts a s s' b hgrows hab
  induction l with
  | nil =>
    rw [List.mapM_nil]
    exact builds_pure fun s => .nil
  | cons a l ih =>
    rw [List.mapM_cons]
    refine (hf a).bind (hlasts a) fun b => ih.bind (hall l) fun bs => builds_pure fun s hl ha => ?_
    exact .cons ha hl

theorem builds_onGraph {f : Graph → Graph × α} {P : Graph → α → Prop}
    (hf : ∀ g, g.Extends (f g).1 ∧ P (f g).1 (f g).2) :
    Builds (onGraph f) fun s a => P s.graph a := by
  intro s hs
  obtain ⟨hext, hP⟩ := hf s.graph
  refine ⟨fun t targets ht => ?_, ⟨hext, fun _ _ h => h⟩, hP⟩
  exact hext.shape_eq (hs t targets ht) nofun

end Rules

/-! ### Nodes that are made -/

theorem lasts_hasShape (shape : Shape) : Lasts fun s t => s.HasShape t shape :=
  fun _ _ _ hgrows h => h.mono hgrows

theorem builds_share (shape : Shape) (a : Attributes) :
    Builds (onGraph (·.share shape a)) fun s t => s.HasShape t shape :=
  builds_onGraph (P := fun g t => t < g.size ∧ g.shape t = shape) fun g => g.share_spec shape a

theorem builds_defer (targets : SortedSet String) (a : Attributes) :
    Builds (defer targets a) fun s t => s.pending.find? t = some targets := by
  intro s hs
  obtain ⟨hext, hnode, -, hshape⟩ := s.graph.fresh_spec (.intersection none) a
  have hgraph : ((defer targets a).run s).2.graph = (s.graph.fresh (.intersection none) a).1 := rfl
  have hpending : ((defer targets a).run s).2.pending = s.pending.insert s.graph.size targets := rfl
  have hfresh : ∀ t known, s.pending.find? t = some known → t ≠ s.graph.size := fun t known ht =>
    Nat.ne_of_lt (Graph.lt_size_of_shape (hs t known ht) nofun)
  refine ⟨fun t known ht => ?_, ⟨hgraph ▸ hext, fun t known ht => ?_⟩, ?_⟩
  · rw [hpending, SortedMap.find?_insert] at ht
    rw [hgraph]
    by_cases hnew : t = s.graph.size
    · rw [hnew, hshape]
    · rw [if_neg hnew] at ht
      exact hext.shape_eq (hs t known ht) nofun
  · rw [hpending, SortedMap.find?_insert, if_neg (hfresh t known ht), ht]
  · change ((defer targets a).run s).2.pending.find? s.graph.size = some targets
    rw [hpending, SortedMap.find?_insert, if_pos rfl]

/-- The type is the only one of these, or their union. -/
def Joins (types : SortedSet NodeId) (s : Inference) (t : NodeId) : Prop :=
  types.toList = [] ∨ types.toList = [t] ∨ s.HasShape t (.union (some types))

theorem builds_joins (types : SortedSet NodeId) (a : Attributes) :
    Builds (joinTypes types a) (Joins types) := by
  refine builds_onGraph (P := fun g t => types.toList = [] ∨ types.toList = [t] ∨
    (t < g.size ∧ g.shape t = .union (some types))) fun g => ?_
  split
  · next hnone => exact ⟨(g.share_spec _ _).1, .inl hnone⟩
  · next only honly =>
    refine ⟨?_, .inr (.inl honly)⟩
    split
    · exact .refl g
    · exact g.extends_addAttributes only a
  · exact ⟨(g.share_spec _ _).1, .inr (.inr (g.share_spec _ _).2)⟩

theorem builds_joinTypes (settings : Settings) (types : SortedSet NodeId) (a : Attributes) :
    Builds (joinTypes types a) fun s t => ∀ u ∈ types, ∀ v, s.Fits settings u v →
      s.Fits settings t v := by
  refine (builds_joins types a).imp fun s t ht u hu v hv => ?_
  rw [SortedSet.mem_iff] at hu
  rcases ht with hnone | honly | ⟨-, hshape⟩
  · rw [hnone] at hu
    cases hu
  · rw [honly, List.mem_singleton] at hu
    exact hu ▸ hv
  · exact .union hshape hu hv

end Inference

namespace Sighting

variable {settings : Settings}

theorem exists_find?_gather {found : List (Format × Attributes)} {f : Format} {a : Attributes}
    (h : (f, a) ∈ found) : ∃ b, (gather found).find? f = some b := by
  induction found using List.reverseRecOn with
  | nil => cases h
  | append_singleton found e ih =>
    rw [Table.gather_concat, SortedMap.find?_alter]
    by_cases hf : f = e.1
    · rw [if_pos hf]
      exact ⟨_, rfl⟩
    · rw [if_neg hf]
      rcases List.mem_append.1 h with hmem | hlast
      · exact ih hmem
      · rw [List.mem_singleton] at hlast
        exact absurd (congrArg Prod.fst hlast) hf

theorem text_cases (settings : Settings) {x : Sighting} {s : String} (hs : x.value = .string s) :
    x.literal? settings = some s ∨ x.isDropped settings = true ∨
      ∃ f a, x.format? settings = some (f, a) ∧ Format.recognize s = some f := by
  unfold literal? isDropped format?
  simp only [hs]
  cases x.isTarget with
  | true => exact .inl rfl
  | false =>
    cases hf : settings.formatOf s with
    | some f => exact .inr (.inr ⟨f, f.traits s, rfl, Format.recognize_of_formatOf hf⟩)
    | none =>
      cases hfits : Text.fitsUnits16 s settings.internMaxLen with
      | true => exact .inl (by simp)
      | false => exact .inr (.inl rfl)

/-- The types of the texts at a position have all of its texts. -/
theorem text_of_mem (settings : Settings) {xs : List Sighting} {x : Sighting} {s : String}
    (hx : x ∈ xs) (hs : x.value = .string s) :
    (∃ p, ((evidence settings xs).texts settings).1 = some p ∧ p.Holds (.string s)) ∨
      ∃ cases, ((evidence settings xs).texts settings).2.2 = some cases ∧ s ∈ cases := by
  have hliteral : x.literal? settings = some s →
      (evidence settings xs).literalCount ≠ 0 ∧ s ∈ (evidence settings xs).literals := fun h => by
    have hmem : s ∈ xs.filterMap (literal? settings) := List.mem_filterMap.2 ⟨x, hx, h⟩
    exact ⟨Nat.ne_of_gt (List.length_pos_of_mem hmem), SortedSet.mem_ofList.2 hmem⟩
  have hdropped : x.isDropped settings = true → (evidence settings xs).unrestricted = true :=
    fun h => List.any_eq_true.2 ⟨x, hx, h⟩
  have hformat : ∀ f a, x.format? settings = some (f, a) →
      ∃ b, (f, b) ∈ (evidence settings xs).formats.entries := fun f a h => by
    obtain ⟨b, hb⟩ := exists_find?_gather (List.mem_filterMap.2 ⟨x, hx, h⟩)
    exact ⟨b, SortedMap.find?_eq_some_iff.1 hb⟩
  have hcases := text_cases settings hs
  unfold Evidence.texts
  split
  · next g b hentries =>
    rw [hentries] at hformat
    split
    · next hall =>
      obtain ⟨hcount, hunrestricted⟩ := hall
      refine .inl ⟨_, rfl, ?_⟩
      rcases hcases with h | h | ⟨f, a, h, hrec⟩
      · exact absurd hcount (hliteral h).1
      · rw [hdropped h] at hunrestricted
        cases hunrestricted
      · obtain ⟨b', hmem⟩ := hformat f a h
        obtain rfl := congrArg Prod.fst (List.mem_singleton.1 hmem)
        exact Primitive.holds_of_recognize hrec
    · exact .inl ⟨_, rfl, trivial⟩
  · exact .inl ⟨_, rfl, trivial⟩
  · next hentries =>
    rw [hentries] at hformat
    split
    · exact .inl ⟨_, rfl, trivial⟩
    · next hunrestricted =>
      have hkept : x.literal? settings = some s := by
        rcases hcases with h | h | ⟨f, a, h, -⟩
        · exact h
        · exact absurd (hdropped h) hunrestricted
        · obtain ⟨b, hmem⟩ := hformat f a h
          cases hmem
      split
      · next hcount => exact absurd hcount (hliteral hkept).1
      · split
        · exact .inr ⟨_, rfl, (hliteral hkept).2⟩
        · exact .inl ⟨_, rfl, trivial⟩

/-- The types that the evidence of a position shows have all of its values but containers. -/
theorem scalar_of_mem (settings : Settings) {xs : List Sighting} {x : Sighting} (hx : x ∈ xs)
    (hmembers : x.members? = none) (hitems : x.items? = none) :
    (∃ p ∈ ((evidence settings xs).unify settings).primitives, p.Holds x.value) ∨
      ∃ cases s, ((evidence settings xs).unify settings).cases = some cases ∧
        x.value = .string s ∧ s ∈ cases := by
  have hany : ∀ p : Json → Bool, p x.value = true → xs.any (fun y => p y.value) = true :=
    fun p hp => List.any_eq_true.2 ⟨x, hx, hp⟩
  obtain ⟨isTarget, v⟩ := x
  simp only [Evidence.unify, SortedSet.mem_ofList, List.mem_append]
  cases v with
  | null =>
    refine .inl ⟨.null, .inl (.inl (.inl ?_)), trivial⟩
    have hnull : (evidence settings xs).null = true := hany Json.isNull rfl
    rw [if_pos hnull]
    exact List.mem_singleton_self _
  | bool b =>
    refine .inl ⟨.bool, .inl (.inl (.inr ?_)), trivial⟩
    have hbool : (evidence settings xs).bool = true := hany Json.isBool rfl
    rw [if_pos hbool]
    exact List.mem_singleton_self _
  | number n =>
    cases n with
    | integer m =>
      have hinteger : (evidence settings xs).integer = true := hany Json.isInteger rfl
      by_cases hdouble : (evidence settings xs).double = true
      · refine .inl ⟨.double, .inl (.inr ?_), trivial⟩
        rw [if_pos hdouble]
        exact List.mem_singleton_self _
      · refine .inl ⟨.integer, .inl (.inr ?_), trivial⟩
        rw [if_neg hdouble, if_pos hinteger]
        exact List.mem_singleton_self _
    | double d =>
      refine .inl ⟨.double, .inl (.inr ?_), trivial⟩
      have hdouble : (evidence settings xs).double = true := hany Json.isDouble rfl
      rw [if_pos hdouble]
      exact List.mem_singleton_self _
  | string s =>
    rcases text_of_mem settings hx rfl with ⟨p, hp, hholds⟩ | ⟨cases, hcases, hmem⟩
    · exact .inl ⟨p, .inr (Option.mem_toList.2 hp), hholds⟩
    · exact .inr ⟨cases, s, hcases, rfl, hmem⟩
  | array items => cases hitems
  | object members => cases hmembers

theorem value_of_members? {x : Sighting} {members : List (String × Json)}
    (h : x.members? = some members) : x.value = .object members := by
  unfold members? at h
  split at h
  · next hvalue => rw [hvalue, Option.some.inj h]
  · cases h

theorem value_of_items? {x : Sighting} {items : List Json} (h : x.items? = some items) :
    x.value = .array items := by
  unfold items? Json.items? at h
  split at h
  · next hvalue => rw [hvalue, Option.some.inj h]
  · cases h

theorem depth_lt_of_mem_objects {xs : List Sighting} {n : Nat}
    (h : ∀ x ∈ xs, x.value.depth < n + 1) : ∀ ms ∈ objects xs, ∀ m ∈ ms, m.2.depth < n := by
  intro ms hms m hm
  obtain ⟨x, hx, hmembers⟩ := List.mem_filterMap.1 hms
  have hdepth := h x hx
  rw [value_of_members? hmembers, Json.depth] at hdepth
  have hle := Json.depthMembers_le_iff.1 (Nat.le_refl _) m hm
  omega

theorem depth_lt_of_mem_arrays {xs : List Sighting} {n : Nat}
    (h : ∀ x ∈ xs, x.value.depth < n + 1) : ∀ items ∈ arrays xs, ∀ v ∈ items, v.depth < n := by
  intro items hmem v hv
  obtain ⟨x, hx, hitems⟩ := List.mem_filterMap.1 hmem
  have hdepth := h x hx
  rw [value_of_items? hitems, Json.depth] at hdepth
  have hle := Json.depthItems_le_iff.1 (Nat.le_refl _) v hv
  omega

theorem mem_keys {objects : List (List (String × Json))} {members : List (String × Json)}
    {m : String × Json} (hmembers : members ∈ objects) (hm : m ∈ members) :
    m.1 ∈ keys objects := by
  rw [keys, SortedSet.mem_ofList]
  exact List.mem_flatMap.2 ⟨members, hmembers, List.mem_map_of_mem hm⟩

theorem mem_under {objects : List (List (String × Json))} {members : List (String × Json)}
    {m : String × Json} (hmembers : members ∈ objects) (hm : m ∈ members) :
    ofMember settings m ∈ under settings objects m.1 :=
  List.mem_flatMap.2 ⟨members, hmembers, List.mem_filterMap.2 ⟨m, hm, if_pos rfl⟩⟩

theorem mem_allValues {objects : List (List (String × Json))} {members : List (String × Json)}
    {m : String × Json} (hmembers : members ∈ objects) (hm : m ∈ members) :
    ofMember settings m ∈ allValues settings objects :=
  List.mem_flatMap.2 ⟨m.1, mem_keys hmembers hm, mem_under hmembers hm⟩

theorem exists_of_not_isOptional {objects : List (List (String × Json))} {key : String}
    (h : isOptional objects key = false) {members : List (String × Json)}
    (hmembers : members ∈ objects) : ∃ v, (key, v) ∈ members := by
  have hle := List.countP_le_length (p := fun ms : List (String × Json) => ms.any (·.1 == key))
    (l := objects)
  have hcount : objects.countP (fun ms => ms.any (·.1 == key)) = objects.length := by
    have hge := of_decide_eq_false h
    omega
  have hany := List.countP_eq_length.1 hcount members hmembers
  obtain ⟨⟨k, v⟩, hm, hk⟩ := List.any_eq_true.1 hany
  obtain rfl := eq_of_beq hk
  exact ⟨v, hm⟩

/-- Every object at a position of references is one. -/
theorem reference_of_targets? {objects : List (List (String × Json))} {targets : SortedSet String}
    (h : targets? settings objects = some targets) {members : List (String × Json)}
    (hmembers : members ∈ objects) :
    settings.handleRefs = true ∧ ∃ s ∈ targets, members = [("$ref", .string s)] := by
  unfold targets? at h
  split at h
  · next hrefs =>
    split at h
    · cases h
    · obtain ⟨found, hfound, rfl⟩ := Option.map_eq_some_iff.1 h
      refine ⟨hrefs, ?_⟩
      obtain ⟨s, hs, htarget⟩ :=
        exists_right_of_forall₂ (forall₂_of_mapM_eq_some hfound) hmembers
      refine ⟨s, SortedSet.mem_ofList.2 hs, ?_⟩
      unfold target? at htarget
      split at htarget
      · rw [Option.some.inj htarget]
      · cases htarget
  · cases h

end Sighting

namespace Inference

open Sighting

/-! ### Every value at a position -/

section Containers

variable {settings : Settings} {infer : List Sighting → Attributes → StateM Inference NodeId}
  {reached : Json → Prop}
  (hinfer : ∀ xs a, Builds (infer xs a) fun s t =>
    ∀ x ∈ xs, reached x.value → s.Fits settings t x.value)

theorem lasts_fits (xs : List Sighting) :
    Lasts fun s t => ∀ x ∈ xs, reached x.value → Fits settings s t x.value :=
  fun _ _ _ hgrows h x hx hr => (h x hx hr).mono hgrows

/-- The types have what evidence shows apart from containers. -/
def HasScalars (unified : Unified) (s : Inference) (ts : List NodeId) : Prop :=
  (∀ p ∈ unified.primitives, ∃ t ∈ ts, s.HasShape t (.primitive p)) ∧
    ∀ cases, unified.cases = some cases → ∃ t ∈ ts, s.HasShape t (.enumeration cases)

/-- The type has the objects all of whose members are reached. -/
def HasObjects (settings : Settings) (reached : Json → Prop)
    (objects : List (List (String × Json))) (s : Inference) (t : NodeId) : Prop :=
  ∀ members ∈ objects, (∀ m ∈ members, reached m.2) → s.Fits settings t (.object members)

/-- The type has the arrays all of whose items are reached. -/
def HasArrays (settings : Settings) (reached : Json → Prop) (arrays : List (List Json))
    (s : Inference) (t : NodeId) : Prop :=
  ∀ items ∈ arrays, (∀ v ∈ items, reached v) → s.Fits settings t (.array items)

theorem lasts_hasScalars (unified : Unified) : Lasts (HasScalars unified) := by
  intro s s' ts hgrows h
  refine ⟨fun p hp => ?_, fun cases hcases => ?_⟩
  · obtain ⟨t, ht, hshape⟩ := h.1 p hp
    exact ⟨t, ht, hshape.mono hgrows⟩
  · obtain ⟨t, ht, hshape⟩ := h.2 cases hcases
    exact ⟨t, ht, hshape.mono hgrows⟩

theorem lasts_hasObjects (objects : List (List (String × Json))) :
    Lasts (HasObjects settings reached objects) :=
  fun _ _ _ hgrows h members hmembers hreached => (h members hmembers hreached).mono hgrows

theorem lasts_hasArrays (arrays : List (List Json)) : Lasts (HasArrays settings reached arrays) :=
  fun _ _ _ hgrows h items hitems hreached => (h items hitems hreached).mono hgrows

/-- The property has the values that some objects have under the key. -/
def IsProperty (settings : Settings) (reached : Json → Prop)
    (objects : List (List (String × Json))) (s : Inference) (key : String)
    (kp : String × Property) : Prop :=
  kp.1 = key ∧ kp.2.optional = isOptional objects key ∧
    ∀ x ∈ under settings objects key, reached x.value → s.Fits settings kp.2.type x.value

theorem lasts_isProperty (objects : List (List (String × Json))) (key : String) :
    Lasts fun s kp => IsProperty settings reached objects s key kp :=
  fun _ _ _ hgrows h => ⟨h.1, h.2.1, lasts_fits _ _ _ _ hgrows h.2.2⟩

include hinfer

theorem builds_ofArrays (arrays : List (List Json)) (a : Attributes) :
    Builds (ofArrays infer arrays a) (HasArrays settings reached arrays) := by
  unfold ofArrays
  refine (hinfer _ _).bind (lasts_fits _) fun t => (builds_share _ a).imp fun s u hu ht => ?_
  intro items hitems hreached
  refine .array hu.2 fun v hv => ht ⟨false, v⟩ ?_ (hreached v hv)
  exact List.mem_map_of_mem (List.mem_flatten.2 ⟨items, hitems, hv⟩)

theorem builds_ofProperties (objects : List (List (String × Json))) (keys : List String) :
    Builds (ofProperties settings infer objects keys) fun s properties =>
      List.Forall₂ (IsProperty settings reached objects s) keys properties := by
  refine Builds.mapM (R := fun key s kp => IsProperty settings reached objects s key kp)
    (fun key => ?_) fun key => lasts_isProperty objects key
  refine (hinfer _ _).bind (lasts_fits _) fun t => builds_pure fun s ht => ?_
  exact ⟨rfl, rfl, ht⟩

theorem builds_ofObjects (objects : List (List (String × Json))) (a : Attributes) :
    Builds (ofObjects settings infer objects a) (HasObjects settings reached objects) := by
  unfold ofObjects
  split
  · next targets htargets =>
    refine (builds_defer targets a).imp fun s t ht members hmembers _ => ?_
    obtain ⟨hrefs, reference, hmem, rfl⟩ := reference_of_targets? htargets hmembers
    exact .reference ⟨hrefs, targets, ht, hmem⟩
  · split
    · refine (hinfer _ _).bind (lasts_fits _) fun t => (builds_share _ a).imp fun s u hu ht => ?_
      intro members hmembers hreached
      refine .map hu.2 fun k v hm => ?_
      exact ht _ (mem_allValues hmembers hm) (hreached (k, v) hm)
    · refine (builds_ofProperties hinfer objects _).bind
        (fun s s' ps hgrows h => h.imp fun key kp => lasts_isProperty objects key s s' kp hgrows)
        fun properties => (builds_share _ a).imp fun s u hu hproperties => ?_
      intro members hmembers hreached
      have hfound : ∀ k p, (SortedMap.ofList properties).find? k = some p →
          p.optional = isOptional objects k ∧
            ∀ x ∈ under settings objects k, reached x.value → s.Fits settings p.type x.value := by
        intro k p hp
        obtain ⟨key, -, hkey, hrest⟩ :=
          exists_left_of_forall₂ hproperties (SortedMap.mem_of_find?_ofList hp)
        obtain rfl : k = key := hkey
        exact hrest
      refine .record hu.2 (fun k v hm => ?_) (fun k v p hm hp => ?_) fun k p hp hoptional => ?_
      · have hk : k ∈ (keys objects).toList := mem_keys hmembers hm
        obtain ⟨⟨k', p⟩, hp, hk', -⟩ := exists_right_of_forall₂ hproperties hk
        obtain rfl : k' = k := hk'
        exact SortedMap.exists_find?_ofList hp
      · exact (hfound k p hp).2 _ (mem_under hmembers hm) (hreached (k, v) hm)
      · rw [(hfound k p hp).1] at hoptional
        exact exists_of_not_isOptional hoptional hmembers

end Containers

theorem builds_ofEvidence (unified : Unified) :
    Builds (ofEvidence unified) (HasScalars unified) := by
  have hprimitives := Builds.mapM (l := unified.primitives.toList)
    (fun p => builds_share (.primitive p) ((unified.traits.find? p).getD .empty))
    fun p => lasts_hasShape (.primitive p)
  have henumerations := Builds.mapM (l := unified.cases.toList)
    (fun cases => builds_share (.enumeration cases) .empty)
    fun cases => lasts_hasShape (.enumeration cases)
  have hlasts : ∀ {α : Type} (shape : α → Shape) (as : List α),
      Lasts fun s ts => List.Forall₂ (fun a t => s.HasShape t (shape a)) as ts :=
    fun shape as s s' ts hgrows h => h.imp fun a t ht => ht.mono hgrows
  unfold ofEvidence
  refine hprimitives.bind (hlasts _ _) fun ps => henumerations.bind (hlasts _ _) fun es =>
    builds_pure fun s hes hps => ⟨fun p hp => ?_, fun cases hcases => ?_⟩
  · obtain ⟨t, ht, hshape⟩ := exists_right_of_forall₂ hps (SortedSet.mem_iff.1 hp)
    exact ⟨t, List.mem_append_left es ht, hshape⟩
  · obtain ⟨t, ht, hshape⟩ := exists_right_of_forall₂ hes (Option.mem_toList.2 hcases)
    exact ⟨t, List.mem_append_right ps ht, hshape⟩

section WhenAny

variable {α : Type} {containers : List α} {Q : Inference → NodeId → Prop}

theorem lasts_whenAny (hlasts : Lasts Q) :
    Lasts fun s (ts : List NodeId) => containers ≠ [] → ∃ t ∈ ts, Q s t := by
  intro s s' ts hgrows h hne
  obtain ⟨t, ht, hQ⟩ := h hne
  exact ⟨t, ht, hlasts s s' t hgrows hQ⟩

theorem builds_whenAny {type : List α → Attributes → StateM Inference NodeId}
    (h : ∀ a, Builds (type containers a) Q) :
    Builds (whenAny containers type) fun s ts => containers ≠ [] → ∃ t ∈ ts, Q s t := by
  unfold whenAny
  split
  · next hempty =>
    exact builds_pure fun s hne => absurd (List.isEmpty_iff.1 hempty) hne
  · exact ((h .empty).imp fun s t ht _ => ⟨t, List.mem_singleton_self t, ht⟩).map

end WhenAny

/-- The types made at a position have every value whose parts are reached. -/
theorem exists_type_of_mem {settings : Settings} {fuel : Nat} {s : Inference} {xs : List Sighting}
    {scalars os as : List NodeId}
    (hscalars : HasScalars ((evidence settings xs).unify settings) s scalars)
    (hos : objects xs ≠ [] → ∃ t ∈ os, HasObjects settings (·.depth < fuel) (objects xs) s t)
    (has : arrays xs ≠ [] → ∃ t ∈ as, HasArrays settings (·.depth < fuel) (arrays xs) s t)
    {x : Sighting} (hx : x ∈ xs) (hdepth : x.value.depth < fuel + 1) :
    ∃ t ∈ scalars ++ os ++ as, s.Fits settings t x.value := by
  cases hmembers : x.members? with
  | some members =>
    have hmem : members ∈ objects xs := List.mem_filterMap.2 ⟨x, hx, hmembers⟩
    obtain ⟨t, ht, hfits⟩ := hos (List.ne_nil_of_mem hmem)
    rw [value_of_members? hmembers] at hdepth ⊢
    refine ⟨t, List.mem_append_left as (List.mem_append_right scalars ht), ?_⟩
    refine hfits members hmem fun m hm => ?_
    exact Nat.lt_of_le_of_lt (Json.depthMembers_le_iff.1 (Nat.le_refl _) m hm)
      (Nat.lt_of_succ_lt_succ hdepth)
  | none =>
    cases hitems : x.items? with
    | some items =>
      have hmem : items ∈ arrays xs := List.mem_filterMap.2 ⟨x, hx, hitems⟩
      obtain ⟨t, ht, hfits⟩ := has (List.ne_nil_of_mem hmem)
      rw [value_of_items? hitems] at hdepth ⊢
      refine ⟨t, List.mem_append_right _ ht, ?_⟩
      refine hfits items hmem fun v hv => ?_
      exact Nat.lt_of_le_of_lt (Json.depthItems_le_iff.1 (Nat.le_refl _) v hv)
        (Nat.lt_of_succ_lt_succ hdepth)
    | none =>
      rcases scalar_of_mem settings hx hmembers hitems with
        ⟨p, hp, hholds⟩ | ⟨cases, text, hcases, htext, hmem⟩
      · obtain ⟨t, ht, hshape⟩ := hscalars.1 p hp
        refine ⟨t, List.mem_append_left as (List.mem_append_left os ht), ?_⟩
        exact .primitive hshape.2 hholds
      · obtain ⟨t, ht, hshape⟩ := hscalars.2 cases hcases
        refine ⟨t, List.mem_append_left as (List.mem_append_left os ht), ?_⟩
        rw [htext]
        exact .enumeration hshape.2 hmem

/-- Every value at a position is an instance of the type inferred for the position, if its
containers are nested less deeply than the inference goes. -/
theorem builds_ofSightings (settings : Settings) (fuel : Nat) (xs : List Sighting)
    (a : Attributes) :
    Builds (ofSightings settings fuel xs a) fun s t =>
      ∀ x ∈ xs, x.value.depth < fuel → s.Fits settings t x.value := by
  -- The values inside of containers are less deep, so one less of fuel is enough for them.
  induction fuel generalizing xs a with
  | zero =>
    refine (builds_share _ _).imp fun s t _ x _ hdepth => ?_
    exact absurd hdepth (Nat.not_lt_zero _)
  | succ fuel ih =>
    have hobjects : ∀ a, Builds (ofObjects settings (ofSightings settings fuel) (objects xs) a)
        (HasObjects settings (·.depth < fuel) (objects xs)) := builds_ofObjects ih (objects xs)
    have harrays : ∀ a, Builds (ofArrays (ofSightings settings fuel) (arrays xs) a)
        (HasArrays settings (·.depth < fuel) (arrays xs)) := builds_ofArrays ih (arrays xs)
    unfold ofSightings
    refine (builds_ofEvidence _).bind (lasts_hasScalars _) fun scalars =>
      (builds_whenAny hobjects).bind (lasts_whenAny (lasts_hasObjects _)) fun os =>
        (builds_whenAny harrays).bind (lasts_whenAny (lasts_hasArrays _)) fun as =>
          (builds_joinTypes settings _ a).imp
            fun s t hjoin has hos hscalars x hx hdepth => ?_
    obtain ⟨u, hu, hfits⟩ := exists_type_of_mem hscalars hos has hx hdepth
    exact hjoin u (SortedSet.mem_ofList.2 hu) x.value hfits

end Inference

end JsonTyping
