import JsonTyping.Proofs.DescriptionForms
import JsonTyping.Proofs.GraphCalls
import Mathlib.Computability.Primrec.List
import Mathlib.Data.List.Permutation
import Mathlib.Data.Set.Insert

/-!
# Unions in descriptions

A union inside of a union is shown through its members, and an arm that is met twice is shown once.
Both are done in one pass over the types and one over neighbouring arms, which leaves two gaps. An
intersection of several members is no union; if all its members are shown as one union, so is the
intersection, and then it is an arm (`Graph.MergesTo`). And arms whose members stand in different
orders are equal as values but have different texts, so another arm may stand between them; that
takes a property that may be absent, and another one with `?` behind the same name.
`Graph.describe_flattens` says that there are no other gaps.
-/

namespace JsonTyping

def unionOf (arms : List Json) : Json := .object [("union", .array arms)]

namespace Json

/-- The first value stands somewhere in the second one. -/
inductive Within (v : Json) : Json → Prop
  | here : Within v v
  | item {w : Json} {items : List Json} (hw : w ∈ items) (h : Within v w) : Within v (.array items)
  | member {m : String × Json} {members : List (String × Json)} (hm : m ∈ members)
      (h : Within v m.2) : Within v (.object members)

theorem within_object_iff {v : Json} {members : List (String × Json)} :
    v.Within (.object members) ↔ v = .object members ∨ ∃ m ∈ members, v.Within m.2 := by
  constructor
  · intro h
    cases h with
    | here => exact .inl rfl
    | member hm h => exact .inr ⟨_, hm, h⟩
  · rintro (rfl | ⟨m, hm, h⟩)
    · exact .here
    · exact .member hm h

theorem within_array_iff {v : Json} {items : List Json} :
    v.Within (.array items) ↔ v = .array items ∨ ∃ w ∈ items, v.Within w := by
  constructor
  · intro h
    cases h with
    | here => exact .inl rfl
    | item hw h => exact .inr ⟨_, hw, h⟩
  · rintro (rfl | ⟨w, hw, h⟩)
    · exact .here
    · exact .item hw h

theorem Within.member_of_tagged {v w : Json} {key : String} (h : v.Within (.object [(key, w)]))
    (hne : v ≠ .object [(key, w)]) : v.Within w := by
  obtain ⟨m, hm, hwithin⟩ := (within_object_iff.1 h).resolve_left hne
  obtain rfl := List.mem_singleton.1 hm
  exact hwithin

end Json

namespace Description

variable {K : List String → Prop} {p : Position} {v : Json} {arms : List Json}

/-- A union that stands in a description stands there as a type. -/
theorem Form.of_within (h : Form K p v) (hwithin : (unionOf arms).Within v) :
    Form K .type (unionOf arms) := by
  induction h with
  | text s => cases hwithin
  | null => cases hwithin
  | @tagged key p w hkey hw ih =>
    rcases Json.within_object_iff.1 hwithin with heq | ⟨m, hm, hwithin⟩
    · exact heq ▸ .tagged hkey hw
    · obtain rfl := List.mem_singleton.1 hm
      exact ih hwithin
  | object hmembers hadditional ihmembers ihadditional =>
    rcases Json.within_object_iff.1 hwithin with heq | ⟨m, hm, hwithin⟩
    · exact heq ▸ .object hmembers hadditional
    · rcases List.mem_cons.1 hm with rfl | hm
      · exact ihmembers hwithin
      · obtain rfl := List.mem_singleton.1 hm
        exact ihadditional hwithin
  | number n => cases hwithin
  | cases l =>
    obtain ⟨w, hw, hwithin⟩ := (Json.within_array_iff.1 hwithin).resolve_left nofun
    obtain ⟨s, -, rfl⟩ := List.mem_map.1 hw
    cases hwithin
  | properties _ h ih =>
    rcases Json.within_object_iff.1 hwithin with heq | ⟨m, hm, hwithin⟩
    · -- A property may be named `union`, but no type is shown as an array.
      obtain rfl := Json.object.inj heq
      cases h _ (List.mem_singleton_self _)
    · exact ih m hm hwithin
  | arms _ _ ih =>
    obtain ⟨w, hw, hwithin⟩ := (Json.within_array_iff.1 hwithin).resolve_left nofun
    exact ih w hw hwithin

theorem Form.arms_of_within (h : Form K p v) (hwithin : (unionOf arms).Within v) :
    Form K .arms (.array arms) := by
  have hform := h.of_within hwithin
  generalize hw : unionOf arms = w at hform
  cases hform with
  | text s => cases hw
  | null => cases hw
  | tagged hkey harms =>
    obtain ⟨rfl, rfl⟩ : "union" = _ ∧ Json.array arms = _ := by simpa [unionOf] using hw
    obtain rfl := Option.some.inj hkey
    exact harms
  | object hmembers hadditional => simp [unionOf] at hw

/-- Arms with keys that tell their order are not the same. -/
theorem Form.pairwise_not_same (hnodup : ∀ ks, K ks → ks.Nodup) (hK : TellsOrder K)
    (h : Form K .arms (.array arms)) : arms.Pairwise fun v w => v.same w = false := by
  cases h with
  | arms hsorted h =>
    refine hsorted.imp_of_mem fun {v w} hv hw hlt => Bool.eq_false_iff.2 fun hsame => ?_
    rw [(h v hv).eq_of_same hnodup hK (h w hw) hsame, Std.ReflOrd.compare_self] at hlt
    cases hlt

end Description

namespace Graph

open Description

variable {g : Graph} {stack : List NodeId} {t u : NodeId} {v : Json} {arms inner : List Json}

/-! ### Unions inside of unions -/

theorem within_collapseArms {key : String} {l : List Json}
    (h : (unionOf arms).Within (collapseArms key l)) :
    unionOf arms = .object [(key, .array (sortArms l))] ∨ ∃ v ∈ l, (unionOf arms).Within v := by
  rcases hasArms_collapseArms key l with honly | hmany
  · exact .inr ⟨_, mem_of_mem_sortArms (honly ▸ List.mem_singleton_self _), h⟩
  · rw [hmany] at h
    rcases Json.within_object_iff.1 h with heq | ⟨m, hm, hwithin⟩
    · exact .inl heq
    · obtain rfl := List.mem_singleton.1 hm
      obtain ⟨v, hv, hwithin⟩ := (Json.within_array_iff.1 hwithin).resolve_left nofun
      exact .inr ⟨v, mem_of_mem_sortArms hv, hwithin⟩

/-- A union that stands where another type is shown stands where a part of it is. -/
theorem within_shownAs {K : List String → Prop} {s : Shape} {value : NodeId → Json}
    (hs : ∀ members, s ≠ .union (some members)) (hvalue : ∀ u ∈ s.parts, Form K .type (value u))
    (h : (unionOf arms).Within (shownAs t value s)) :
    ∃ u ∈ s.parts, (unionOf arms).Within (value u) := by
  have hproperties : ∀ p : SortedMap String Property,
      (∀ u ∈ p.values.map Property.type, u ∈ s.parts) →
      (unionOf arms).Within (.object (shownProperties value p)) →
        ∃ u ∈ s.parts, (unionOf arms).Within (value u) := by
    intro p hp hwithin
    have hvalues : ∀ m ∈ shownProperties value p, ∃ u ∈ s.parts, m.2 = value u :=
      Json.forall_foldl_setMember (P := fun w => ∃ u ∈ s.parts, w = value u) _ _ fun e he =>
        ⟨_, hp _ (List.mem_map_of_mem (List.mem_map_of_mem he)), rfl⟩
    rcases Json.within_object_iff.1 hwithin with heq | ⟨m, hm, hwithin⟩
    · -- A property may be named `union`, but no type is shown as an array.
      obtain ⟨u, hu, harray⟩ := hvalues ("union", .array arms)
        (Json.object.inj heq ▸ List.mem_singleton_self _)
      have hform := hvalue u hu
      rw [← harray] at hform
      cases hform
    · obtain ⟨u, hu, heq⟩ := hvalues m hm
      exact ⟨u, hu, heq ▸ hwithin⟩
  cases s with
  | primitive kind => cases h
  | enumeration cases =>
    obtain ⟨w, hw, hwithin⟩ := (Json.within_array_iff.1
      (Json.Within.member_of_tagged h (by simp [unionOf]))).resolve_left nofun
    obtain ⟨s, -, rfl⟩ := List.mem_map.1 hw
    cases hwithin
  | array items | map values =>
    exact ⟨_, List.mem_singleton_self _, Json.Within.member_of_tagged h (by simp [unionOf])⟩
  | record p =>
    exact hproperties p (fun u hu => hu) (Json.Within.member_of_tagged h (by simp [unionOf]))
  | object p additional =>
    obtain ⟨m, hm, hwithin⟩ := (Json.within_object_iff.1 h).resolve_left (by simp [unionOf])
    rcases List.mem_cons.1 hm with rfl | hm
    · exact hproperties p (fun u hu => List.mem_append_left _ hu) hwithin
    · obtain rfl := List.mem_singleton.1 hm
      cases additional with
      | none => cases hwithin
      | some a => exact ⟨a, List.mem_append_right _ (List.mem_singleton_self a), hwithin⟩
  | union members =>
    cases members with
    | none => cases Json.Within.member_of_tagged h (by simp [unionOf])
    | some members => exact absurd rfl (hs members)
  | intersection members =>
    cases members with
    | none => cases Json.Within.member_of_tagged h (by simp [unionOf])
    | some members =>
      obtain ⟨v, hv, hwithin⟩ := (within_collapseArms h).resolve_left (by simp [unionOf])
      obtain ⟨u, hu, rfl⟩ := List.mem_map.1 hv
      exact ⟨u, hu, hwithin⟩

/-- An intersection of several members all of which are shown as the value. -/
def MergesTo (g : Graph) (u : NodeId) (v : Json) : Prop :=
  ∃ members, g.shape u = .intersection (some members) ∧ 2 ≤ members.size ∧
    ∃ stack, ∀ m ∈ members, ∃ w, g.Shows (u :: stack) m w ∧ v.same w = true

/-- A type that is no union and is shown as one is an intersection. -/
theorem Shows.mergesTo (h : g.Shows stack u v) (hv : v = unionOf inner)
    (hleaf : u ∈ stack ∨ isNested (g.shape u) = false) : g.MergesTo u (unionOf inner) := by
  cases h with
  | again hmet => simp [recursiveMark, unionOf] at hv
  | union arms hmet hshape hleaves hshows =>
    rw [hshape] at hleaf
    cases hleaf.resolve_left hmet
  | other value hmet hshape hshows =>
    have hnested := hleaf.resolve_left hmet
    cases hs : g.shape u with
    | intersection members =>
      rw [hs] at hv hnested hshows
      cases members with
      | none => simp [shownAs, unionOf] at hv
      | some members =>
        have honly : sortArms (members.toList.map value) = [unionOf inner] := by
          rcases hasArms_collapseArms "allOf" (members.toList.map value) with honly | hmany
          · exact honly.trans (congrArg (fun w => [w]) hv)
          · simpa [unionOf] using hmany.symm.trans hv
        refine ⟨members, hs, ?_, stack, fun m hm => ⟨value m, hshows m hm, ?_⟩⟩
        · have hany : members.toList ≠ [] := by
            intro hnil
            rw [hnil] at honly
            simp [sortArms, sortArms.dedup] at honly
          have hpos := List.length_pos_of_ne_nil hany
          have hone : members.toList.length ≠ 1 := beq_eq_false_iff_ne.1 hnested
          change 2 ≤ members.toList.length
          omega
        · obtain ⟨w, hw, hsame⟩ := exists_mem_sortArms (List.mem_map_of_mem hm)
          obtain rfl := List.mem_singleton.1 (honly ▸ hw)
          rcases hsame with heq | hsame
          · rw [heq]
            exact (hshows m hm).form_nodup.same_self fun _ hks => hks
          · exact hsame
    | union members => cases members <;> simp_all [shownAs, unionOf]
    | _ => simp [hs, shownAs, unionOf] at hv

theorem Shows.exists_mergesTo (h : g.Shows stack t v) (hwithin : (unionOf arms).Within v)
    (hinner : unionOf inner ∈ arms) : ∃ u, g.Reaches t u ∧ g.MergesTo u (unionOf inner) := by
  induction h with
  | again _ => cases hwithin.member_of_tagged (by simp [unionOf])
  | union leaves hmet hshape hleaves hshows ih =>
    have hreaches := hleaves.reaches fun m hm => Reaches.part .refl (by rw [hshape]; exact hm)
    rcases within_collapseArms hwithin with heq | ⟨v, hv, hwithin⟩
    · -- The arms are those of the union itself, so each of them is what a leaf is shown as.
      obtain rfl : arms = sortArms (leaves.map (·.2)) := by simpa [unionOf] using heq
      obtain ⟨e, he, hshown⟩ := List.mem_map.1 (mem_of_mem_sortArms hinner)
      exact ⟨e.1.2, hreaches e.1 (List.mem_map_of_mem he),
        (hshows e he).mergesTo hshown (hleaves.not_nested e.1 (List.mem_map_of_mem he))⟩
    · obtain ⟨e, he, rfl⟩ := List.mem_map.1 hv
      obtain ⟨u, hu, hmerges⟩ := ih e he hwithin
      exact ⟨u, (hreaches e.1 (List.mem_map_of_mem he)).trans hu, hmerges⟩
  | other value hmet hshape hshows ih =>
    obtain ⟨u, hu, hwithin⟩ := within_shownAs hshape (fun u hu => (hshows u hu).form_nodup) hwithin
    obtain ⟨w, hw, hmerges⟩ := ih u hu hwithin
    exact ⟨w, .of_part hu hw, hmerges⟩

/-- The arms of every union in a description are in the strict order of their texts. An arm that is
a union itself is what an intersection of several members is shown as, all of which are shown as
that union. Where keys tell the names of the properties that are reached, no two arms are equal. -/
theorem describe_flattens (g : Graph) (t : NodeId) {arms : List Json}
    (h : (unionOf arms).Within (g.describe t)) :
    (arms.Pairwise fun v w => compare v.compact w.compact = .lt) ∧
      (∀ inner, unionOf inner ∈ arms → ∃ u, g.Reaches t u ∧ g.MergesTo u (unionOf inner)) ∧
      (NamesApart (g.propertyNames t) → arms.Pairwise fun v w => v.same w = false) := by
  have hshows := g.shows_describe t
  refine ⟨?_, fun inner hinner => hshows.exists_mergesTo h hinner, fun hapart => ?_⟩
  · cases hshows.form_nodup.arms_of_within h with
    | arms hsorted _ => exact hsorted
  · exact ((hshows.form_spelled hapart subset_rfl).arms_of_within h).pairwise_not_same
      (fun _ hks => hks.nodup hapart) (tellsOrder_spelled hapart)

/-- A union of a record and of a union of integers and of lists of them. -/
def unionInUnion : Graph := ofCalls
  [.share (.primitive .integer) .empty, .share (.array 0) .empty,
    .fresh (.union (some (.ofList [0, 1]))) .empty,
    .share (.record (.ofList [("n", ⟨0, true⟩)])) .empty,
    .fresh (.union (some (.ofList [2, 3]))) .empty]

theorem propertyNames_unionInUnion : unionInUnion.propertyNames 4 ⊆ {("n", true)} := by
  rintro e ⟨u, p, -, hp, he⟩
  have hall : ∀ u < unionInUnion.size, ∀ p ∈ (unionInUnion.shape u).properties?,
      ∀ e ∈ markedNames p, e = ("n", true) := by
    decide +kernel
  have hlt : u < unionInUnion.size := lt_size_of_shape rfl (by rintro h; rw [h] at hp; cases hp)
  exact hall u hlt p hp e he

theorem describe_flattens_unionInUnion :
    ∃ arms : List Json, unionInUnion.describe 4 = unionOf arms ∧ arms.length = 3 ∧
      (arms.Pairwise fun v w => compare v.compact w.compact = .lt) ∧
      arms.Pairwise fun v w => v.same w = false := by
  obtain ⟨arms, hdescribe, hlength⟩ : ∃ arms : List Json,
      unionInUnion.describe 4 = unionOf arms ∧ arms.length = 3 :=
    ⟨[.string "integer", .object [("array", .string "integer")],
      .object [("class", .object [("n?", .string "integer")])]], by cbv, rfl⟩
  have hwithin : (unionOf arms).Within (unionInUnion.describe 4) := by
    rw [hdescribe]
    exact .here
  obtain ⟨hsorted, -, hdistinct⟩ := describe_flattens unionInUnion 4 hwithin
  refine ⟨arms, hdescribe, hlength, hsorted, hdistinct fun k _ hmarked => ?_⟩
  exact absurd (propertyNames_unionInUnion hmarked) (by simp)

/-- Two unions with the same members, an intersection of both, and a union with it. -/
def mergedUnions : Graph := ofCalls
  [.share (.primitive .bool) .empty, .share (.primitive .integer) .empty,
    .share (.primitive .string) .empty, .fresh (.union (some (.ofList [1, 2]))) .empty,
    .fresh (.union (some (.ofList [1, 2]))) .empty,
    .fresh (.intersection (some (.ofList [3, 4]))) .empty,
    .fresh (.union (some (.ofList [0, 5]))) .empty]

/-- Two records that are shown as equal values, and one whose text stands between theirs. -/
def mistakenNames : Graph := ofCalls
  [.share (.primitive .bool) .empty, .share (.primitive .integer) .empty,
    .share (.primitive .string) .empty,
    .share (.record (.ofList [("a!", ⟨2, false⟩), ("a?", ⟨1, false⟩)])) .empty,
    .share (.record (.ofList [("a1", ⟨0, false⟩)])) .empty,
    .share (.record (.ofList [("a", ⟨1, true⟩), ("a!", ⟨2, false⟩)])) .empty,
    .fresh (.union (some (.ofList [3, 4, 5]))) .empty]

/-- A union may be an arm of a union, and an arm may be there twice. -/
theorem describe_leavesNested :
    mergedUnions.describe 6 =
        unionOf [.string "bool", unionOf [.string "integer", .string "string"]] ∧
      ∃ first second third : Json, mistakenNames.describe 6 = unionOf [first, second, third] ∧
        first.same third = true := by
  -- Arms are compared by looking members up; the equations for this come with the imports.
  refine ⟨by cbv,
    .object [("class", .object [("a!", .string "string"), ("a?", .string "integer")])],
    .object [("class", .object [("a1", .string "bool")])],
    .object [("class", .object [("a?", .string "integer"), ("a!", .string "string")])], by cbv, ?_⟩
  decide +kernel

end Graph

end JsonTyping
