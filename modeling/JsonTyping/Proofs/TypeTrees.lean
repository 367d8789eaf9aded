import JsonTyping.Proofs.Sightings
import Mathlib.Data.List.Perm.Basic
import Mathlib.Data.List.Perm.Lattice

/-!
# The type of values as a tree

`TypeTree.ofValues` gives the type that several JSON values have together, directly by recursion on
the values: what they are apart from containers, the type of all items of the arrays, and of the
objects either one type of all member values or one type for each key. There is no table, no graph
and no node in it. The order of the values does not matter (`TypeTree.ofValues_perm`).
-/

namespace JsonTyping

/-- A type, written out. A property has its key, whether it may be absent, and its type. -/
inductive TypeTree where
  | primitive (kind : Primitive)
  | enumeration (cases : SortedSet String)
  | array (items : TypeTree)
  | map (values : TypeTree)
  | record (properties : List (String × Bool × TypeTree))
  | union (arms : List TypeTree)

namespace Json

def members? : Json → Option (List (String × Json))
  | .object members => some members
  | _ => none

theorem sizeItems_append (vs ws : List Json) :
    sizeItems (vs ++ ws) = sizeItems vs + sizeItems ws := by
  induction vs with
  | nil => simp only [List.nil_append, sizeItems, Nat.zero_add]
  | cons v vs ih => simp only [List.cons_append, sizeItems, ih, Nat.add_assoc]

theorem sizeItems_map_value (members : List (String × Json)) :
    sizeItems (members.map (·.2)) = sizeMembers members := by
  induction members with
  | nil => rfl
  | cons m members ih => simp only [List.map_cons, sizeItems, sizeMembers, ih]

theorem sizeItems_le_of_sublist {vs ws : List Json} (h : vs.Sublist ws) :
    sizeItems vs ≤ sizeItems ws := by
  induction h with
  | slnil => exact Nat.le_refl _
  | cons v _ ih =>
    rw [sizeItems]
    omega
  | cons_cons v _ ih =>
    rw [sizeItems, sizeItems]
    omega

end Json

namespace TypeTree

section Values

variable (settings : Settings) (vs : List Json)

def texts : List String := vs.filterMap Json.string?

def arrays : List (List Json) := vs.filterMap Json.items?

def objects : List (List (String × Json)) := vs.filterMap Json.members?

/-- The formats of the texts, if formats are looked for. -/
def formats : SortedSet Format := .ofList ((texts vs).filterMap settings.formatOf)

/-- The texts without format that are short enough to be kept, as often as they occur. -/
def literals : List String :=
  (texts vs).filter fun s =>
    (settings.formatOf s).isNone && decide (Text.units16 s ≤ settings.internMaxLen)

/-- Whether some text without format is longer. -/
def hasLongText : Bool :=
  (texts vs).any fun s =>
    (settings.formatOf s).isNone && decide (settings.internMaxLen < Text.units16 s)

/-- Whether texts that occur so often have few enough different cases for an enumeration. -/
def fewCases (cases samples : Nat) : Bool :=
  settings.inferEnums && decide (settings.minEnumSamples ≤ samples)
    && decide (cases * cases < samples)

/-- The type of the texts, if there are any. -/
def ofTexts : List TypeTree :=
  if (formats settings vs).size = 1 ∧ literals settings vs = [] ∧ ¬ hasLongText settings vs then
    (formats settings vs).toList.map fun f => .primitive f.primitive
  else if hasLongText settings vs ∨ (formats settings vs).toList ≠ [] then [.primitive .string]
  else if literals settings vs = [] then []
  else
    let cases := SortedSet.ofList (literals settings vs)
    if fewCases settings cases.size (literals settings vs).length then [.enumeration cases]
    else [.primitive .string]

/-- The types of the values that are no containers. -/
def ofScalars : List TypeTree :=
  (if vs.any Json.isNull then [.primitive .null] else [])
    ++ (if vs.any Json.isBool then [.primitive .bool] else [])
    ++ (if vs.any Json.isDouble then [.primitive .double]
      else if vs.any Json.isInteger then [.primitive .integer] else [])
    ++ ofTexts settings vs

/-- The keys of all objects. -/
def keys : SortedSet String := .ofList ((objects vs).flatMap fun members => members.map (·.1))

/-- The values of all members of all objects. -/
def memberValues : List Json := (objects vs).flatMap fun members => members.map (·.2)

/-- The values that objects have under a key; an object may repeat it. -/
def under (key : String) : List Json :=
  (objects vs).flatMap fun members =>
    members.filterMap fun m => if m.1 = key then some m.2 else none

/-- Whether some object lacks the key. -/
def isOptional (key : String) : Bool :=
  (objects vs).any fun members => members.all fun m => m.1 != key

/-- Whether the objects have too many keys for a record. -/
def isMap : Bool := settings.inferMaps && decide (settings.mapThreshold < (keys vs).size)

end Values

/-- The type of values with several types; without any there is no value. -/
def join : List TypeTree → TypeTree
  | [] => .primitive .none
  | [only] => only
  | arms => .union arms

theorem size_memberValues (vs : List Json) :
    Json.sizeItems (memberValues vs) + (objects vs).length ≤ Json.sizeItems vs := by
  induction vs with
  | nil => exact Nat.le_refl _
  | cons v vs ih =>
    simp only [memberValues, objects] at ih ⊢
    cases v with
    | object members =>
      simp only [List.filterMap_cons, Json.members?, List.flatMap_cons, Json.sizeItems_append,
        Json.sizeItems_map_value, List.length_cons, Json.sizeItems, Json.size]
      omega
    | _ =>
      simp only [List.filterMap_cons, Json.members?, Json.sizeItems]
      omega

theorem under_sublist (vs : List Json) (key : String) :
    (under vs key).Sublist (memberValues vs) := by
  unfold under memberValues
  induction objects vs with
  | nil => exact .slnil
  | cons members rest ih =>
    simp only [List.flatMap_cons]
    refine .append ?_ ih
    induction members with
    | nil => exact .slnil
    | cons m members ih =>
      rw [List.filterMap_cons, List.map_cons]
      by_cases hm : m.1 = key
      · rw [if_pos hm]
        exact .cons_cons m.2 ih
      · rw [if_neg hm]
        exact .cons m.2 ih

theorem size_items (vs : List Json) :
    Json.sizeItems (arrays vs).flatten + (arrays vs).length ≤ Json.sizeItems vs := by
  induction vs with
  | nil => exact Nat.le_refl _
  | cons v vs ih =>
    simp only [arrays] at ih ⊢
    cases v with
    | array items =>
      simp only [List.filterMap_cons, Json.items?, List.flatten_cons, Json.sizeItems_append,
        List.length_cons, Json.sizeItems, Json.size]
      omega
    | _ =>
      simp only [List.filterMap_cons, Json.items?, Json.sizeItems]
      omega

theorem size_memberValues_lt {vs : List Json} (h : objects vs ≠ []) :
    Json.sizeItems (memberValues vs) < Json.sizeItems vs := by
  have hle := size_memberValues vs
  have hpos := List.length_pos_of_ne_nil h
  omega

theorem size_under_lt {vs : List Json} (h : objects vs ≠ []) (key : String) :
    Json.sizeItems (under vs key) < Json.sizeItems vs :=
  Nat.lt_of_le_of_lt (Json.sizeItems_le_of_sublist (under_sublist vs key))
    (size_memberValues_lt h)

theorem size_items_lt {vs : List Json} (h : arrays vs ≠ []) :
    Json.sizeItems (arrays vs).flatten < Json.sizeItems vs := by
  have hle := size_items vs
  have hpos := List.length_pos_of_ne_nil h
  omega

/-! ### The type of values -/

/-- The type that all values have together. -/
def ofValues (settings : Settings) (vs : List Json) : TypeTree :=
  join (ofScalars settings vs
    ++ (if objects vs = [] then []
      else if isMap settings vs then [.map (ofValues settings (memberValues vs))]
      else [.record ((keys vs).toList.map fun key =>
        (key, isOptional vs key, ofValues settings (under vs key)))])
    ++ (if arrays vs = [] then [] else [.array (ofValues settings (arrays vs).flatten)]))
termination_by Json.sizeItems vs
decreasing_by
  · exact size_memberValues_lt ‹_›
  · exact size_under_lt ‹_› key
  · exact size_items_lt ‹_›

/-- The type of the objects, if there are any. -/
def ofObjects (settings : Settings) (vs : List Json) : List TypeTree :=
  if objects vs = [] then []
  else if isMap settings vs then [.map (ofValues settings (memberValues vs))]
  else [.record ((keys vs).toList.map fun key =>
    (key, isOptional vs key, ofValues settings (under vs key)))]

/-- The type of the arrays, if there are any. -/
def ofArrays (settings : Settings) (vs : List Json) : List TypeTree :=
  if arrays vs = [] then [] else [.array (ofValues settings (arrays vs).flatten)]

theorem ofValues_eq (settings : Settings) (vs : List Json) :
    ofValues settings vs =
      join (ofScalars settings vs ++ ofObjects settings vs ++ ofArrays settings vs) := by
  rw [ofValues, ofObjects, ofArrays]

section Perm

variable {vs ws : List Json} (h : vs.Perm ws)

theorem ofList_perm {α : Type} [Ord α] [Std.TransOrd α] [Std.LawfulEqOrd α] {l m : List α}
    (h : l.Perm m) : SortedSet.ofList l = SortedSet.ofList m :=
  SortedSet.ext_mem fun a => by rw [SortedSet.mem_ofList, SortedSet.mem_ofList, h.mem_iff]

include h

theorem objects_perm : (objects vs).Perm (objects ws) := h.filterMap _

theorem texts_perm : (texts vs).Perm (texts ws) := h.filterMap _

theorem memberValues_perm : (memberValues vs).Perm (memberValues ws) :=
  (objects_perm h).flatMap_right _

theorem under_perm (key : String) : (under vs key).Perm (under ws key) :=
  (objects_perm h).flatMap_right _

theorem keys_perm : keys vs = keys ws := ofList_perm ((objects_perm h).flatMap_right _)

theorem ofTexts_perm (settings : Settings) : ofTexts settings vs = ofTexts settings ws := by
  have htexts := texts_perm h
  have hformats : formats settings vs = formats settings ws := ofList_perm (htexts.filterMap _)
  have hliterals : (literals settings vs).Perm (literals settings ws) := htexts.filter _
  have hlong : hasLongText settings vs = hasLongText settings ws := htexts.any_eq
  have hnil : literals settings vs = [] ↔ literals settings ws = [] := by
    rw [← List.length_eq_zero_iff, ← List.length_eq_zero_iff, hliterals.length_eq]
  simp only [ofTexts, hformats, hlong, hnil, ofList_perm hliterals, hliterals.length_eq]

theorem ofScalars_perm (settings : Settings) : ofScalars settings vs = ofScalars settings ws := by
  simp only [ofScalars, h.any_eq, ofTexts_perm h]

end Perm

theorem ofValues_perm (settings : Settings) {vs ws : List Json} (h : vs.Perm ws) :
    ofValues settings vs = ofValues settings ws := by
  -- On the size of the values: those inside of containers are permuted, and smaller.
  induction hsize : Json.sizeItems vs using Nat.strongRecOn generalizing vs ws with
  | ind n ih =>
    subst hsize
    have hobjects := objects_perm h
    have harrays : (arrays vs).Perm (arrays ws) := h.filterMap _
    have hobjectsNil : objects vs = [] ↔ objects ws = [] := by
      rw [← List.length_eq_zero_iff, ← List.length_eq_zero_iff, hobjects.length_eq]
    have harraysNil : arrays vs = [] ↔ arrays ws = [] := by
      rw [← List.length_eq_zero_iff, ← List.length_eq_zero_iff, harrays.length_eq]
    have hofObjects : ofObjects settings vs = ofObjects settings ws := by
      unfold ofObjects
      by_cases hnil : objects vs = []
      · rw [if_pos hnil, if_pos (hobjectsNil.1 hnil)]
      · have hmembers : ofValues settings (memberValues vs) = ofValues settings (memberValues ws) :=
          ih _ (size_memberValues_lt hnil) (memberValues_perm h) rfl
        have hunder : ∀ key, ofValues settings (under vs key) = ofValues settings (under ws key) :=
          fun key => ih _ (size_under_lt hnil key) (under_perm h key) rfl
        have hoptional : ∀ key, isOptional vs key = isOptional ws key := fun key =>
          hobjects.any_eq
        have hmap : isMap settings vs = isMap settings ws := by simp only [isMap, keys_perm h]
        rw [if_neg hnil, if_neg (hobjectsNil.not.1 hnil), hmap, keys_perm h, hmembers]
        simp only [hunder, hoptional]
    have hofArrays : ofArrays settings vs = ofArrays settings ws := by
      unfold ofArrays
      by_cases hnil : arrays vs = []
      · rw [if_pos hnil, if_pos (harraysNil.1 hnil)]
      · rw [if_neg hnil, if_neg (harraysNil.not.1 hnil),
          ih _ (size_items_lt hnil) harrays.flatten rfl]
    rw [ofValues_eq, ofValues_eq, ofScalars_perm h, hofObjects, hofArrays]

/-- The place of a type among the arms of a union. -/
def rank : TypeTree → Nat
  | .primitive .null => 0
  | .primitive .bool => 1
  | .primitive .integer | .primitive .double => 2
  | .primitive _ | .enumeration _ => 3
  | .map _ | .record _ => 4
  | .array _ => 5
  | .union _ => 6

theorem rank_ofFormat (f : Format) : (primitive f.primitive).rank = 3 := by
  cases f <;> rfl

theorem rank_ofTexts (settings : Settings) (vs : List Json) :
    ((ofTexts settings vs).map rank).Sublist [3] := by
  unfold ofTexts
  split
  · next hone =>
    obtain ⟨hsize, -⟩ := hone
    obtain ⟨f, hf⟩ := List.length_eq_one_iff.1 hsize
    simp only [hf, List.map_cons, List.map_nil, rank_ofFormat, List.Sublist.refl]
  · split
    · exact .refl _
    · split
      · exact List.nil_sublist _
      · dsimp only
        split <;> exact .refl _

theorem rank_ofScalars (settings : Settings) (vs : List Json) :
    ((ofScalars settings vs).map rank).Sublist [0, 1, 2, 3] := by
  have hnull : ((if vs.any Json.isNull then [primitive .null] else []).map rank).Sublist [0] := by
    split <;> simp [rank]
  have hbool : ((if vs.any Json.isBool then [primitive .bool] else []).map rank).Sublist [1] := by
    split <;> simp [rank]
  have hnumber : ((if vs.any Json.isDouble then [primitive .double]
      else if vs.any Json.isInteger then [primitive .integer] else []).map rank).Sublist [2] := by
    split
    · simp [rank]
    · split <;> simp [rank]
  unfold ofScalars
  simp only [List.map_append]
  exact ((hnull.append hbool).append hnumber).append (rank_ofTexts settings vs)

/-- The types of values are of different kinds, in the order of these, and none is a union. -/
theorem rank_sublist (settings : Settings) (vs : List Json) :
    ((ofScalars settings vs ++ ofObjects settings vs ++ ofArrays settings vs).map rank).Sublist
      [0, 1, 2, 3, 4, 5] := by
  have hobjects : ((ofObjects settings vs).map rank).Sublist [4] := by
    unfold ofObjects
    split
    · exact List.nil_sublist _
    · split <;> exact .refl _
  have harrays : ((ofArrays settings vs).map rank).Sublist [5] := by
    unfold ofArrays
    split
    · exact List.nil_sublist _
    · exact .refl _
  rw [List.map_append, List.map_append]
  exact ((rank_ofScalars settings vs).append hobjects).append harrays

theorem rank_arms (settings : Settings) (vs : List Json) :
    (ofScalars settings vs ++ ofObjects settings vs ++ ofArrays settings vs).Pairwise
      fun a b => a.rank < b.rank := by
  have hsorted : [0, 1, 2, 3, 4, 5].Pairwise (· < · : Nat → Nat → Prop) := by decide
  exact List.pairwise_map.1 (hsorted.sublist (rank_sublist settings vs))

end TypeTree

end JsonTyping
