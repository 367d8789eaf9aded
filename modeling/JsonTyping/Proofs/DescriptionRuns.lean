import JsonTyping.Proofs.EqualDescriptions

/-!
# Descriptions without a bound

`Graph.Shows` says what a type is shown as inside of others without bounding the depth, and
`Graph.Leaves` which members stay of a union when the nested ones are gone through. `describe` never
reaches its bound, so its value is what the type is shown as (`Graph.shows_describe`): facts about
descriptions are proved by induction on `Graph.Shows`, one case for a type that is met again, one
for unions and one for all other types.
-/

namespace JsonTyping

namespace Graph

/-- The key under which a property is shown. -/
def spelling (name : String) (optional : Bool) : String :=
  if optional then name ++ "?" else name

/-- The members for properties whose types are shown as `value`. -/
def shownProperties (value : NodeId → Json) (p : SortedMap String Property) :
    List (String × Json) :=
  p.entries.foldl (fun members e =>
    Json.setMember (spelling e.1 e.2.optional) (value e.2.type) members) []

/-- What the type `t` of a shape is shown as when its parts are shown as `value`, if none of them is
a member of a union that is gone through. -/
def shownAs (t : NodeId) (value : NodeId → Json) : Shape → Json
  | .primitive kind => .string kind.name
  | .enumeration cases => .object [("enum", .ofStrings cases.toList)]
  | .array items => .object [("array", value items)]
  | .record p => .object [("class", .object (shownProperties value p))]
  | .object p additional =>
    .object [("object", .object (shownProperties value p)),
      ("additional", match additional with
        | some a => value a
        | none => .null)]
  | .map values => .object [("map", value values)]
  | .union none | .intersection none => .object [("pending", .ofNat t)]
  | .union (some members) => collapseArms "union" (members.toList.map value)
  | .intersection (some members) => collapseArms "allOf" (members.toList.map value)

/-- The members of a union inside of the types `stack` when nested ones stand for their members.
Each of them comes with the types that it is inside of. -/
inductive Leaves (g : Graph) :
    List NodeId → List NodeId → List (List NodeId × NodeId) → Prop
  | nil {stack : List NodeId} : Leaves g stack [] []
  | leaf {stack members : List NodeId} {m : NodeId} {rest : List (List NodeId × NodeId)}
      (h : m ∈ stack ∨ isNested (g.shape m) = false) (hrest : Leaves g stack members rest) :
      Leaves g stack (m :: members) ((stack, m) :: rest)
  | nested {stack members : List NodeId} {m : NodeId} {inner rest : List (List NodeId × NodeId)}
      (hmet : m ∉ stack) (hnested : isNested (g.shape m) = true)
      (hinner : Leaves g (m :: stack) ((g.shape m).members?.getD .empty).toList inner)
      (hrest : Leaves g stack members rest) : Leaves g stack (m :: members) (inner ++ rest)

/-- Inside of the types `stack`, the type is shown as the value. -/
inductive Shows (g : Graph) : List NodeId → NodeId → Json → Prop
  | again {stack : List NodeId} {t : NodeId} (hmet : t ∈ stack) :
      Shows g stack t (recursiveMark t)
  | union {stack : List NodeId} {t : NodeId} {members : SortedSet NodeId}
      (arms : List ((List NodeId × NodeId) × Json)) (hmet : t ∉ stack)
      (hshape : g.shape t = .union (some members))
      (hleaves : Leaves g (t :: stack) members.toList (arms.map (·.1)))
      (harms : ∀ e ∈ arms, Shows g e.1.1 e.1.2 e.2) :
      Shows g stack t (collapseArms "union" (arms.map (·.2)))
  | other {stack : List NodeId} {t : NodeId} (value : NodeId → Json) (hmet : t ∉ stack)
      (hshape : ∀ members, g.shape t ≠ .union (some members))
      (hparts : ∀ u ∈ (g.shape t).parts, Shows g (t :: stack) u (value u)) :
      Shows g stack t (shownAs t value (g.shape t))

variable {g : Graph} {fuel : Nat} {stack : List NodeId} {t : NodeId}

theorem describeIn_succ_of_not_union (ht : t ∉ stack)
    (hshape : ∀ members, g.shape t ≠ .union (some members)) :
    g.describeIn (fuel + 1) stack t =
      shownAs t (g.describeIn fuel (t :: stack)) (g.shape t) := by
  rw [describeIn_succ g fuel stack t ht]
  generalize g.shape t = s at hshape ⊢
  cases s with
  | union members =>
    cases members with
    | none => rfl
    | some members => exact absurd rfl (hshape members)
  | intersection members => cases members <;> rfl
  | _ => rfl

/-- Types are shown as what they are described as within the bound. -/
def DescribesWithin (g : Graph) (fuel : Nat) : Prop :=
  ∀ stack t, Suffices g fuel stack → g.Shows stack t (g.describeIn fuel stack t)

/-- The arms within the bound are what the leaves are shown as. -/
def FlattensWithin (g : Graph) (fuel : Nat) : Prop :=
  ∀ stack members, Suffices g fuel stack → ∃ arms : List ((List NodeId × NodeId) × Json),
    g.Leaves stack members (arms.map (·.1)) ∧ (∀ e ∈ arms, g.Shows e.1.1 e.1.2 e.2) ∧
      g.flattenIn fuel stack members = arms.map (·.2)

theorem describesWithin_succ (hdescribe : g.DescribesWithin fuel)
    (hflatten : g.FlattensWithin fuel) : g.DescribesWithin (fuel + 1) := by
  intro stack t hsuffices
  by_cases hmet : t ∈ stack
  · rw [describeIn, if_pos (List.contains_iff_mem.2 hmet)]
    exact .again hmet
  · by_cases hunion : ∃ members, g.shape t = .union (some members)
    · obtain ⟨members, hshape⟩ := hunion
      have hpush := hsuffices.push hmet (by simp [hshape])
      obtain ⟨arms, hleaves, harms, hflat⟩ := hflatten (t :: stack) members.toList hpush
      rw [describeIn_succ g fuel stack t hmet, hshape]
      dsimp only
      rw [hflat]
      exact .union arms hmet hshape hleaves harms
    · have hother : ∀ members, g.shape t ≠ .union (some members) :=
        fun members hshape => hunion ⟨members, hshape⟩
      rw [describeIn_succ_of_not_union hmet hother]
      refine .other _ hmet hother fun u hu => hdescribe _ u (hsuffices.push hmet ?_)
      intro kind hkind
      rw [hkind] at hu
      cases hu

theorem flattensWithin_succ (hdescribe : g.DescribesWithin (fuel + 1))
    (hflatten : g.FlattensWithin fuel) : g.FlattensWithin (fuel + 1) := by
  intro stack members hsuffices
  rw [flattenIn]
  induction members with
  | nil => exact ⟨[], .nil, List.forall_mem_nil _, rfl⟩
  | cons m members ih =>
    obtain ⟨rest, hleaves, harms, hrest⟩ := ih
    rw [List.flatMap_cons, hrest]
    by_cases hmet : m ∈ stack
    · rw [if_pos (List.contains_iff_mem.2 hmet)]
      refine ⟨((stack, m), recursiveMark m) :: rest, .leaf (.inl hmet) hleaves, ?_, rfl⟩
      exact List.forall_mem_cons.2 ⟨.again hmet, harms⟩
    · rw [if_neg (mt List.contains_iff_mem.1 hmet)]
      by_cases hnested : isNested (g.shape m) = true
      · have hpush := hsuffices.push hmet fun kind hkind => by
          rw [hkind] at hnested
          cases hnested
        obtain ⟨inner, hinner, hinnerArms, hflat⟩ := hflatten (m :: stack)
          ((g.shape m).members?.getD .empty).toList hpush
        rw [if_pos hnested, hflat]
        refine ⟨inner ++ rest, ?_, ?_, List.map_append.symm⟩
        · rw [List.map_append]
          exact .nested hmet hnested hinner hleaves
        · exact List.forall_mem_append.2 ⟨hinnerArms, harms⟩
      · rw [if_neg hnested]
        refine ⟨((stack, m), g.describeIn (fuel + 1) stack m) :: rest,
          .leaf (.inr (Bool.eq_false_iff.2 hnested)) hleaves, ?_, rfl⟩
        exact List.forall_mem_cons.2 ⟨hdescribe stack m hsuffices, harms⟩

theorem describesWithin_flattensWithin (g : Graph) (fuel : Nat) :
    g.DescribesWithin fuel ∧ g.FlattensWithin fuel := by
  induction fuel with
  | zero =>
    refine ⟨fun _ _ h => ?_, fun _ _ h => ?_⟩ <;>
    · obtain ⟨n, hn⟩ := h.exists_succ
      cases hn
  | succ fuel ih =>
    have hdescribe := describesWithin_succ ih.1 ih.2
    exact ⟨hdescribe, flattensWithin_succ hdescribe ih.2⟩

/-- The description of a type is what it is shown as, inside of no other type. -/
theorem shows_describe (g : Graph) (t : NodeId) : g.Shows [] t (g.describe t) :=
  (describesWithin_flattensWithin g _).1 [] t ⟨.nil, nofun, by rw [List.length_nil]; omega⟩

theorem Leaves.unique {members : List NodeId} {leaves leaves' : List (List NodeId × NodeId)}
    (h : g.Leaves stack members leaves) (h' : g.Leaves stack members leaves') :
    leaves = leaves' := by
  induction h generalizing leaves' with
  | nil =>
    cases h'
    rfl
  | leaf hleaf _ ih =>
    cases h' with
    | leaf _ hrest => rw [ih hrest]
    | nested hmet hnested _ _ =>
      rw [hleaf.resolve_left hmet] at hnested
      cases hnested
  | nested hmet hnested _ _ ihinner ihrest =>
    cases h' with
    | leaf hleaf _ =>
      rw [hleaf.resolve_left hmet] at hnested
      cases hnested
    | nested _ _ hinner hrest => rw [ihinner hinner, ihrest hrest]

theorem shownAs_congr {value value' : NodeId → Json} {s : Shape}
    (h : ∀ u ∈ s.parts, value u = value' u) : shownAs t value s = shownAs t value' s := by
  have hproperties : ∀ p : SortedMap String Property,
      (∀ u ∈ p.values.map Property.type, value u = value' u) →
        shownProperties value p = shownProperties value' p := fun p hp =>
    List.foldl_ext _ _ _ fun members e he => by
      rw [hp _ (List.mem_map_of_mem (List.mem_map_of_mem he))]
  cases s with
  | primitive | enumeration => rfl
  | array | map => simp only [shownAs, h _ (List.mem_singleton_self _)]
  | record p => simp only [shownAs, hproperties p h]
  | object p additional =>
    obtain ⟨hp, hadditional⟩ := List.forall_mem_append.1 h
    cases additional with
    | none => simp only [shownAs, hproperties p hp]
    | some a => simp only [shownAs, hproperties p hp, hadditional a (List.mem_singleton_self a)]
  | union members | intersection members =>
    cases members with
    | none => rfl
    | some members =>
      have hmembers : members.toList.map value = members.toList.map value' := List.map_congr_left h
      simp only [shownAs, hmembers]

theorem Shows.unique {v w : Json} (h : g.Shows stack t v) (h' : g.Shows stack t w) : v = w := by
  induction h generalizing w with
  | again hmet =>
    cases h' with
    | again _ => rfl
    | union _ hmet' _ _ _ | other _ hmet' _ _ => exact absurd hmet hmet'
  | union arms hmet hshape hleaves _ ih =>
    cases h' with
    | again hmet' => exact absurd hmet' hmet
    | other _ _ hshape' _ => exact absurd hshape (hshape' _)
    | union arms' _ hshape' hleaves' harms' =>
      obtain rfl := Option.some.inj (Shape.union.inj (hshape.symm.trans hshape'))
      have harms : arms = arms' :=
        eq_of_forall₂_of_mem (forall₂_of_map_eq (hleaves.unique hleaves')) fun e he e' he' hplace =>
          Prod.ext hplace (ih e he (hplace ▸ harms' e' he'))
      rw [harms]
  | other value hmet hshape _ ih =>
    cases h' with
    | again hmet' => exact absurd hmet' hmet
    | union _ _ hshape' _ _ => exact absurd hshape' (hshape _)
    | other value' _ _ hparts' => exact shownAs_congr fun u hu => ih u hu (hparts' u hu)

/-- The description of a type is all that it is shown as. -/
theorem shows_iff {v : Json} : g.Shows [] t v ↔ v = g.describe t :=
  ⟨fun h => h.unique (g.shows_describe t), fun h => h ▸ g.shows_describe t⟩

theorem Reaches.trans {u v : NodeId} (h : g.Reaches t u) (h' : g.Reaches u v) :
    g.Reaches t v := by
  induction h' with
  | refl => exact h
  | part _ hv ih => exact ih.part hv

/-- All leaves are reached from the members. -/
theorem Leaves.reaches {members : List NodeId} {leaves : List (List NodeId × NodeId)}
    (h : g.Leaves stack members leaves) (hmembers : ∀ m ∈ members, g.Reaches t m) :
    ∀ e ∈ leaves, g.Reaches t e.2 := by
  induction h with
  | nil => exact nofun
  | leaf _ _ ih =>
    obtain ⟨hm, hrest⟩ := List.forall_mem_cons.1 hmembers
    exact List.forall_mem_cons.2 ⟨hm, ih hrest⟩
  | @nested _ _ m _ _ _ _ _ _ ihinner ihrest =>
    obtain ⟨hm, hrest⟩ := List.forall_mem_cons.1 hmembers
    refine List.forall_mem_append.2 ⟨ihinner fun n hn => hm.part ?_, ihrest hrest⟩
    generalize g.shape m = s at hn ⊢
    cases s with
    | union inner | intersection inner => cases inner <;> exact hn
    | _ => cases hn

/-- What is not in the stack and nested is no leaf. -/
theorem Leaves.not_nested {members : List NodeId} {leaves : List (List NodeId × NodeId)}
    (h : g.Leaves stack members leaves) :
    ∀ e ∈ leaves, e.2 ∈ e.1 ∨ isNested (g.shape e.2) = false := by
  induction h with
  | nil => exact nofun
  | leaf h _ ih => exact List.forall_mem_cons.2 ⟨h, ih⟩
  | nested _ _ _ _ ihinner ihrest => exact List.forall_mem_append.2 ⟨ihinner, ihrest⟩

end Graph

end JsonTyping
