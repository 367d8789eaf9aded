import JsonTyping.Proofs.InferenceSoundness
import JsonTyping.Proofs.RepeatedKeys

/-!
# Positions of samples

Values of samples are typed by position: the items of all arrays at a position are one position, and
so are the values that its objects have under a key, or all their values if the objects are a map
(`Sighting.Position`). A path of keys and indices goes from a value to a value inside of it, and at
the same time from position to position (`Sighting.Reaches`); it does not go into objects that are
references. `Inference.Shows` says that a type has the parts that such paths ask for, and
`Inference.builds_shows` that inferred types do.
-/

namespace JsonTyping

namespace Sighting

variable {settings : Settings}

/-- The values of the members with a key. In a map all values are seen together. -/
def inside (settings : Settings) (objects : List (List (String × Json))) (key : String) :
    List Sighting :=
  if isMap settings objects then allValues settings objects else under settings objects key

def whole (values : List Json) : List Sighting := values.map (⟨false, ·⟩)

/-- The positions of samples, each with all values sampled there. Objects that are references have
no positions inside. -/
inductive Position (settings : Settings) (values : List Json) : List Sighting → Prop
  | whole : Position settings values (whole values)
  | items {xs : List Sighting} :
    Position settings values xs → arrays xs ≠ [] →
      Position settings values (Sighting.ofArrays (arrays xs))
  | inside {xs : List Sighting} {key : String} :
    Position settings values xs → targets? settings (objects xs) = none →
      key ∈ keys (objects xs) → Position settings values (inside settings (objects xs) key)

/-- From a value at a position, the path leads to the second value at the second position, and on
its way it goes into no object that is a reference. -/
inductive Reaches (settings : Settings) :
    List Sighting → Json → List String → List Sighting → Json → Prop
  | here {xs : List Sighting} {v : Json} : Reaches settings xs v [] xs v
  | item {xs ys : List Sighting} {items : List Json} {key : String} {rest : List String}
    {v w : Json} :
    Pointer.child? (.array items) key = some v →
      Reaches settings (Sighting.ofArrays (arrays xs)) v rest ys w →
        Reaches settings xs (.array items) (key :: rest) ys w
  | member {xs ys : List Sighting} {members : List (String × Json)} {key : String}
    {rest : List String} {v w : Json} :
    targets? settings (objects xs) = none → (key, v) ∈ members →
      Reaches settings (inside settings (objects xs) key) v rest ys w →
        Reaches settings xs (.object members) (key :: rest) ys w

/-- Where no key is repeated, the path reaches what it is a pointer to. -/
theorem Reaches.child? {xs ys : List Sighting} {v w : Json} {path : List String}
    (h : Reaches settings xs v path ys w) (hv : v.NoRepeats) :
    path.foldlM Pointer.child? v = some w := by
  induction h with
  | here => rfl
  | item hchild _ ih =>
    obtain ⟨i, -, hi⟩ := Option.bind_eq_some_iff.1 hchild
    rw [List.foldlM_cons, hchild]
    cases hv with
    | array hitems => exact ih (hitems _ (List.mem_of_getElem? hi))
  | @member _ _ members key _ v _ _ hmem _ ih =>
    cases hv with
    | object hkeys hvalues =>
      have hchild : Pointer.child? (.object members) key = some v := Json.lookup_of_mem hkeys hmem
      rw [List.foldlM_cons, hchild]
      exact ih (hvalues _ hmem)

/-- A pointer to a value reaches it, or it goes into an object that is a reference. -/
theorem reaches_or_enters {xs : List Sighting} {v w : Json} {path : List String}
    (h : path.foldlM Pointer.child? v = some w) :
    (∃ ys, Reaches settings xs v path ys w) ∨
      ∃ before after ys members, path = before ++ after ∧ after ≠ [] ∧
        Reaches settings xs v before ys (.object members) ∧
        (targets? settings (objects ys)).isSome := by
  induction path generalizing xs v with
  | nil =>
    obtain rfl : v = w := Option.some.inj h
    exact .inl ⟨xs, .here⟩
  | cons key rest ih =>
    obtain ⟨u, hchild, hrest⟩ := Option.bind_eq_some_iff.1 ((List.foldlM_cons ..).symm.trans h)
    cases v with
    | array items =>
      rcases ih hrest with ⟨ys, hys⟩ | ⟨before, after, ys, members, rfl, hne, hys, hsome⟩
      · exact .inl ⟨ys, .item hchild hys⟩
      · exact .inr ⟨key :: before, after, ys, members, rfl, hne, .item hchild hys, hsome⟩
    | object members =>
      cases htargets : targets? settings (objects xs) with
      | some targets =>
        exact .inr ⟨[], key :: rest, xs, members, rfl, List.cons_ne_nil _ _, .here,
          Option.isSome_iff_exists.2 ⟨targets, htargets⟩⟩
      | none =>
        have hmem : (key, u) ∈ members := mem_of_lookup hchild
        rcases ih hrest with ⟨ys, hys⟩ | ⟨before, after, ys, entered, rfl, hne, hys, hsome⟩
        · exact .inl ⟨ys, .member htargets hmem hys⟩
        · exact .inr
            ⟨key :: before, after, ys, entered, rfl, hne, .member htargets hmem hys, hsome⟩
    | _ => cases hchild

theorem mem_inside {objects : List (List (String × Json))} {members : List (String × Json)}
    {m : String × Json} (hmembers : members ∈ objects) (hm : m ∈ members) :
    ofMember settings m ∈ inside settings objects m.1 := by
  unfold inside
  split
  · exact mem_allValues hmembers hm
  · exact mem_under hmembers hm

theorem exists_of_mem_inside {objects : List (List (String × Json))} {key : String} {x : Sighting}
    (hx : x ∈ inside settings objects key) :
    ∃ members ∈ objects, ∃ m ∈ members, x = ofMember settings m := by
  have hunder : ∀ key, x ∈ under settings objects key →
      ∃ members ∈ objects, ∃ m ∈ members, x = ofMember settings m := by
    intro key hx
    obtain ⟨members, hmembers, hx⟩ := List.mem_flatMap.1 hx
    obtain ⟨m, hm, hx⟩ := List.mem_filterMap.1 hx
    split at hx
    · exact ⟨members, hmembers, m, hm, (Option.some.inj hx).symm⟩
    · cases hx
  unfold inside at hx
  split at hx
  · obtain ⟨k, -, hx⟩ := List.mem_flatMap.1 hx
    exact hunder k hx
  · exact hunder key hx

theorem ne_nil_of_targets? {objects : List (List (String × Json))} {targets : SortedSet String}
    (h : targets? settings objects = some targets) : objects ≠ [] := by
  rintro rfl
  unfold targets? at h
  split at h <;> cases h

end Sighting

namespace Inference

open Sighting

variable {settings : Settings}

/-- The type is the alternative, or a union with it. -/
def Offers (s : Inference) (t u : NodeId) : Prop :=
  t = u ∨ ∃ types, s.HasShape t (.union (some types)) ∧ u ∈ types

/-- The type of objects at a position: it waits for its references, or it has a part for every
key. -/
def ShowsObjects (settings : Settings) (part : List Sighting → NodeId → Prop) (s : Inference)
    (objects : List (List (String × Json))) (u : NodeId) : Prop :=
  match targets? settings objects with
  | some targets => s.pending.find? u = some targets
  | none => ∀ key ∈ keys objects, ∃ r, step s.graph u key = .ok r ∧
      part (inside settings objects key) r

theorem ShowsObjects.of_targets {part : List Sighting → NodeId → Prop} {s : Inference}
    {objects : List (List (String × Json))} {u : NodeId} {targets : SortedSet String}
    (h : targets? settings objects = some targets) (hu : s.pending.find? u = some targets) :
    ShowsObjects settings part s objects u := by
  rw [ShowsObjects, h]
  exact hu

theorem ShowsObjects.of_parts {part : List Sighting → NodeId → Prop} {s : Inference}
    {objects : List (List (String × Json))} {u : NodeId} (h : targets? settings objects = none)
    (hu : ∀ key ∈ keys objects, ∃ r, step s.graph u key = .ok r ∧
      part (inside settings objects key) r) :
    ShowsObjects settings part s objects u := by
  rw [ShowsObjects, h]
  exact hu

/-- The property has the part for the values that some objects have under the key. -/
def IsPart (settings : Settings) (part : List Sighting → NodeId → Prop)
    (objects : List (List (String × Json))) (key : String) (kp : String × Property) : Prop :=
  kp.1 = key ∧ part (under settings objects key) kp.2.type

/-- The type of arrays at a position has a part for all items. -/
def ShowsArrays (part : List Sighting → NodeId → Prop) (s : Inference) (arrays : List (List Json))
    (u : NodeId) : Prop :=
  ∃ r, s.HasShape u (.array r) ∧ part (Sighting.ofArrays arrays) r

/-- The type has the values at a position, as far as they are not nested too deeply, and parts for
what is inside of them. -/
def Shows (settings : Settings) (s : Inference) : Nat → List Sighting → NodeId → Prop
  | 0, _, _ => True
  | fuel + 1, xs, t =>
    (∀ x ∈ xs, x.value.depth < fuel + 1 → s.Fits settings t x.value) ∧
    (objects xs ≠ [] → ∃ u, s.Offers t u ∧
      ShowsObjects settings (Shows settings s fuel) s (objects xs) u) ∧
    (arrays xs ≠ [] → ∃ u, s.Offers t u ∧ ShowsArrays (Shows settings s fuel) s (arrays xs) u)

theorem Offers.mono {s s' : Inference} (grows : Grows s s') {t u : NodeId} (h : s.Offers t u) :
    s'.Offers t u := by
  rcases h with rfl | ⟨types, hshape, hu⟩
  · exact .inl rfl
  · exact .inr ⟨types, hshape.mono grows, hu⟩

theorem Joins.offers {types : SortedSet NodeId} {s : Inference} {t u : NodeId}
    (h : Joins types s t) (hu : u ∈ types) : s.Offers t u := by
  rw [SortedSet.mem_iff] at hu
  rcases h with hnone | honly | hshape
  · rw [hnone] at hu
    cases hu
  · rw [honly, List.mem_singleton] at hu
    exact .inl hu.symm
  · exact .inr ⟨types, hshape, SortedSet.mem_iff.2 hu⟩

theorem step_mono {g g' : Graph} (h : g.Extends g') {t u : NodeId} {key : String}
    (hstep : step g t key = .ok u) : step g' t key = .ok u := by
  have hlt : t < g.size := by
    rcases Nat.lt_or_ge t g.size with hlt | hge
    · exact hlt
    · simp only [step, Graph.shape_of_size_le hge] at hstep
      cases hstep
  unfold step at hstep ⊢
  rwa [h.shape t hlt]

/-! ### Inferred types have their parts -/

section Parts

variable {part : Inference → List Sighting → NodeId → Prop}
  (hlasts : ∀ xs, Lasts fun s t => part s xs t)

include hlasts

theorem lasts_showsObjects (objects : List (List (String × Json))) :
    Lasts fun s u => ShowsObjects settings (part s) s objects u := by
  intro s s' u hgrows h
  unfold ShowsObjects at h ⊢
  split
  · next targets htargets =>
    rw [htargets] at h
    exact hgrows.pending u targets h
  · next htargets =>
    rw [htargets] at h
    intro key hkey
    obtain ⟨r, hstep, hr⟩ := h key hkey
    exact ⟨r, step_mono hgrows.graph hstep, hlasts _ s s' r hgrows hr⟩

theorem lasts_showsArrays (arrays : List (List Json)) :
    Lasts fun s u => ShowsArrays (part s) s arrays u := by
  rintro s s' u hgrows ⟨r, hshape, hr⟩
  exact ⟨r, hshape.mono hgrows, hlasts _ s s' r hgrows hr⟩

theorem lasts_isPart (objects : List (List (String × Json))) (key : String) :
    Lasts fun s kp => IsPart settings (part s) objects key kp :=
  fun s s' _ hgrows h => ⟨h.1, hlasts _ s s' _ hgrows h.2⟩

variable {infer : List Sighting → Attributes → StateM Inference NodeId}
  (hinfer : ∀ xs a, Builds (infer xs a) fun s t => part s xs t)

include hinfer

theorem builds_showsArrays (arrays : List (List Json)) (a : Attributes) :
    Builds (ofArrays infer arrays a) fun s u => ShowsArrays (part s) s arrays u := by
  unfold ofArrays
  exact (hinfer _ _).bind (hlasts _) fun r => (builds_share _ a).imp fun s u hu hr => ⟨r, hu, hr⟩

theorem builds_parts (objects : List (List (String × Json))) (ks : List String) :
    Builds (ofProperties settings infer objects ks) fun s properties =>
      List.Forall₂ (IsPart settings (part s) objects) ks properties := by
  refine Builds.mapM (R := fun key s kp => IsPart settings (part s) objects key kp)
    (fun key => ?_) fun key => lasts_isPart hlasts objects key
  exact (hinfer _ _).bind (hlasts _) fun t => builds_pure fun s ht => ⟨rfl, ht⟩

theorem builds_showsObjects (objects : List (List (String × Json))) (a : Attributes) :
    Builds (ofObjects settings infer objects a) fun s u =>
      ShowsObjects settings (part s) s objects u := by
  unfold ofObjects
  split
  · next targets htargets =>
    exact (builds_defer targets a).imp fun s u hu => .of_targets htargets hu
  next htargets =>
  split
  · next hmap =>
    refine (hinfer _ _).bind (hlasts _) fun values => (builds_share _ a).imp fun s u hu hr =>
      .of_parts htargets fun key _ => ⟨values, by simp only [step, hu.2], ?_⟩
    rwa [inside, if_pos hmap]
  · next hrecord =>
    refine (builds_parts hlasts hinfer objects _).bind
      (fun s s' ps hgrows h => h.imp fun key kp => lasts_isPart hlasts objects key s s' kp hgrows)
      fun properties => (builds_share _ a).imp fun s u hu hproperties =>
        .of_parts htargets fun key hkey => ?_
    -- What is found under the key need not be the property that was inferred for it, but any
    -- property with this key has the part.
    obtain ⟨⟨k, p⟩, hp, hk, -⟩ := exists_right_of_forall₂ hproperties hkey
    obtain rfl : k = key := hk
    obtain ⟨q, hq⟩ := SortedMap.exists_find?_ofList hp
    obtain ⟨k', -, hk', hpart⟩ :=
      exists_left_of_forall₂ hproperties (SortedMap.mem_of_find?_ofList hq)
    obtain rfl : k = k' := hk'
    refine ⟨q.type, by simp only [step, hu.2, hq], ?_⟩
    rwa [inside, if_neg hrecord]

end Parts

theorem lasts_shows (settings : Settings) (fuel : Nat) (xs : List Sighting) :
    Lasts fun s t => Shows settings s fuel xs t := by
  induction fuel generalizing xs with
  | zero => exact fun _ _ _ _ _ => trivial
  | succ fuel ih =>
    rintro s s' t hgrows ⟨hfits, hobjects, harrays⟩
    refine ⟨fun x hx hdepth => (hfits x hx hdepth).mono hgrows, fun hne => ?_, fun hne => ?_⟩
    · obtain ⟨u, hoffers, hu⟩ := hobjects hne
      exact ⟨u, hoffers.mono hgrows, lasts_showsObjects ih _ s s' u hgrows hu⟩
    · obtain ⟨u, hoffers, hu⟩ := harrays hne
      exact ⟨u, hoffers.mono hgrows, lasts_showsArrays ih _ s s' u hgrows hu⟩

theorem Builds.and {α : Type} {m : StateM Inference α} {P Q : Inference → α → Prop}
    (hP : Builds m P) (hQ : Builds m Q) : Builds m fun s a => P s a ∧ Q s a := by
  intro s hs
  obtain ⟨hwf, hgrows, h⟩ := hP s hs
  exact ⟨hwf, hgrows, h, (hQ s hs).2.2⟩

/-- An inferred type has the values at its position, and parts for what is inside of them. -/
theorem builds_shows (settings : Settings) (fuel : Nat) (xs : List Sighting) (a : Attributes) :
    Builds (ofSightings settings fuel xs a) fun s t => Shows settings s fuel xs t := by
  induction fuel generalizing xs a with
  | zero => exact (builds_share _ _).imp fun _ _ _ => trivial
  | succ fuel ih =>
    have hlasts := lasts_shows settings fuel
    refine (builds_ofSightings settings (fuel + 1) xs a).and ?_
    unfold ofSightings
    refine (builds_ofEvidence _).bind (lasts_hasScalars _) fun scalars =>
      (builds_whenAny (builds_showsObjects hlasts ih (objects xs))).bind
        (lasts_whenAny (lasts_showsObjects hlasts _)) fun os =>
          (builds_whenAny (builds_showsArrays hlasts ih (arrays xs))).bind
            (lasts_whenAny (lasts_showsArrays hlasts _)) fun as =>
              (builds_joins _ a).imp fun s t hjoins has hos _ => ⟨fun hne => ?_, fun hne => ?_⟩
    · obtain ⟨u, hu, hshows⟩ := hos hne
      refine ⟨u, hjoins.offers (SortedSet.mem_ofList.2 ?_), hshows⟩
      exact List.mem_append_left as (List.mem_append_right scalars hu)
    · obtain ⟨u, hu, hshows⟩ := has hne
      exact ⟨u, hjoins.offers (SortedSet.mem_ofList.2 (List.mem_append_right _ hu)), hshows⟩

end Inference

end JsonTyping
