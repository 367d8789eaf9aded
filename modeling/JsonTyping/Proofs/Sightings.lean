import JsonTyping.Proofs.Recording

/-!
# Types from the values themselves

Types are inferred from handles of a table. This module says the same on the values that the handles
stand for: `Inference.ofSightings` is the inference on values, and it does what the inference on
handles does (`Inference.inferType_eq`).
-/

namespace JsonTyping

namespace Json

def isNull : Json → Bool
  | .null => true
  | _ => false

def isBool : Json → Bool
  | .bool _ => true
  | _ => false

def isInteger : Json → Bool
  | .number (.integer _) => true
  | _ => false

def isDouble : Json → Bool
  | .number (.double _) => true
  | _ => false

end Json

/-- A value at a position, and whether it is the value of a key `$ref` where references are
handled. -/
structure Sighting where
  isTarget : Bool
  value : Json

/-- The format of a text, if formats are looked for. -/
def Settings.formatOf (settings : Settings) (s : String) : Option Format :=
  if settings.inferStringFormats then Format.recognize s else none

namespace Sighting

def literal? (settings : Settings) (x : Sighting) : Option String :=
  match x.value with
  | .string s =>
    if x.isTarget then some s
    else
      match settings.formatOf s with
      | some _ => none
      | none => if Text.fitsUnits16 s settings.internMaxLen then some s else none
  | _ => none

def isDropped (settings : Settings) (x : Sighting) : Bool :=
  match x.value with
  | .string s =>
    !x.isTarget && (settings.formatOf s).isNone && !Text.fitsUnits16 s settings.internMaxLen
  | _ => false

def format? (settings : Settings) (x : Sighting) : Option (Format × Attributes) :=
  match x.value with
  | .string s =>
    if x.isTarget then none else (settings.formatOf s).map fun f => (f, f.traits s)
  | _ => none

def members? (x : Sighting) : Option (List (String × Json)) :=
  match x.value with
  | .object members => some members
  | _ => none

def items? (x : Sighting) : Option (List Json) := x.value.items?

/-- Formats with the attributes of all their texts. -/
def gather (found : List (Format × Attributes)) : SortedMap Format Attributes :=
  found.foldl (fun m e => m.alter e.1 fun known => (known.getD .empty).combine e.2) .empty

/-- What the values at one position show, apart from containers. -/
def evidence (settings : Settings) (xs : List Sighting) : Evidence where
  null := xs.any (·.value.isNull)
  bool := xs.any (·.value.isBool)
  integer := xs.any (·.value.isInteger)
  double := xs.any (·.value.isDouble)
  literals := .ofList (xs.filterMap (literal? settings))
  literalCount := (xs.filterMap (literal? settings)).length
  unrestricted := xs.any (isDropped settings)
  formats := gather (xs.filterMap (format? settings))
  objects := []
  arrays := []

def objects (xs : List Sighting) : List (List (String × Json)) := xs.filterMap members?

def arrays (xs : List Sighting) : List (List Json) := xs.filterMap items?

def ofArrays (arrays : List (List Json)) : List Sighting := arrays.flatten.map (⟨false, ·⟩)

section Objects

variable (settings : Settings) (objects : List (List (String × Json)))

def keys : SortedSet String := .ofList (objects.flatMap fun members => members.map (·.1))

/-- A member as a sighting of its value. -/
def ofMember (m : String × Json) : Sighting := ⟨settings.handleRefs && m.1 == "$ref", m.2⟩

def under (key : String) : List Sighting :=
  objects.flatMap fun members =>
    members.filterMap fun m => if m.1 = key then some (ofMember settings m) else none

def allValues : List Sighting := (keys objects).toList.flatMap (under settings objects)

def isOptional (key : String) : Bool :=
  decide ((objects.countP fun members => members.any fun m => m.1 == key) < objects.length)

def isMap : Bool := settings.inferMaps && decide (settings.mapThreshold < (keys objects).size)

def target? : List (String × Json) → Option String
  | [("$ref", .string s)] => some s
  | _ => none

/-- The targets, if references are handled and all objects are references. -/
def targets? : Option (SortedSet String) :=
  if settings.handleRefs then
    if objects.isEmpty then none else (objects.mapM target?).map .ofList
  else none

end Objects

end Sighting

namespace Inference

open Sighting

section Values

variable (settings : Settings) (infer : List Sighting → Attributes → StateM Inference NodeId)

def ofArrays (arrays : List (List Json)) (a : Attributes) : StateM Inference NodeId := do
  let items ← infer (Sighting.ofArrays arrays) .empty
  onGraph (·.share (.array items) a)

def ofProperties (objects : List (List (String × Json))) (keys : List String) :
    StateM Inference (List (String × Property)) :=
  keys.mapM fun key => do
    let type ← infer (under settings objects key) (.inferredName key)
    return (key, Property.mk type (isOptional objects key))

def ofObjects (objects : List (List (String × Json))) (a : Attributes) :
    StateM Inference NodeId :=
  match targets? settings objects with
  | some targets => defer targets a
  | none =>
    if isMap settings objects then do
      let values ← infer (allValues settings objects) .empty
      onGraph (·.share (.map values) a)
    else do
      let properties ← ofProperties settings infer objects (keys objects).toList
      onGraph (·.share (.record (.ofList properties)) a)

/-- The types of what the evidence shows apart from containers. -/
def ofEvidence (unified : Unified) : StateM Inference (List NodeId) := do
  let primitives ← unified.primitives.toList.mapM fun p =>
    onGraph (·.share (.primitive p) ((unified.traits.find? p).getD .empty))
  let enumerations ← unified.cases.toList.mapM fun cases =>
    onGraph (·.share (.enumeration cases) .empty)
  return primitives ++ enumerations

def whenAny {α : Type} (containers : List α)
    (type : List α → Attributes → StateM Inference NodeId) : StateM Inference (List NodeId) :=
  if containers.isEmpty then pure [] else (fun t => [t]) <$> type containers .empty

end Values

/-- The type of the values at one position. -/
def ofSightings (settings : Settings) :
    Nat → List Sighting → Attributes → StateM Inference NodeId
  | 0, _, _ => onGraph (·.share (.primitive .none) .empty)
  | fuel + 1, xs, a => do
    let scalars ← ofEvidence ((evidence settings xs).unify settings)
    let objects ← whenAny (objects xs) (ofObjects settings (ofSightings settings fuel))
    let arrays ← whenAny (arrays xs) (ofArrays (ofSightings settings fuel))
    joinTypes (.ofList (scalars ++ objects ++ arrays)) a

end Inference

/-! ### Handles and values show the same -/

def Handle.objectRow? : Handle → Option Nat
  | .object row => some row
  | _ => none

def Handle.arrayRow? : Handle → Option Nat
  | .array row => some row
  | _ => none

theorem Format.ofName?_name (f : Format) : Format.ofName? f.name = some f := by
  cases f <;> rfl

theorem Format.traits_of_not_hasTraits {f : Format} (h : f.hasTraits = false) (s : String) :
    f.traits s = .empty := by
  cases f <;> first | rfl | cases h

theorem Format.recognize_of_formatOf {settings : Settings} {s : String} {f : Format}
    (h : settings.formatOf s = some f) : Format.recognize s = some f := by
  unfold Settings.formatOf at h
  split at h
  · exact h
  · cases h

namespace Table

/-- The handle stands for a sighted value. -/
def Sees (t : Table) (h : Handle) (x : Sighting) : Prop := t.Keeps x.isTarget h x.value

/-- The members of an object stand for others, in order. -/
def SeesMembers (t : Table) : List (String × Handle) → List (String × Json) → Prop :=
  List.Forall₂ fun m n => m.1 = n.1 ∧ t.Sees m.2 (.ofMember t.settings n)

def SeesObject (t : Table) (row : Nat) (members : List (String × Json)) : Prop :=
  t.SeesMembers (t.members row) members

def SeesArray (t : Table) (row : Nat) (items : List Json) : Prop :=
  List.Forall₂ (t.Keeps false) (t.items row) items

variable {t : Table}

theorem string_of_get {i : Nat} {s : String} (h : t.strings[i]? = some s) : t.string i = s := by
  simp only [string, h, Option.getD_some]

theorem members_of_keeps {row : Nat} {hs : List (Nat × Handle)} {members : List (String × Json)}
    (hrow : t.objects[row]? = some hs) (h : t.KeepsMembers hs members) :
    t.SeesObject row members := by
  simp only [SeesObject, SeesMembers, Table.members, hrow, Option.getD_some,
    List.forall₂_map_left_iff]
  refine (keepsMembers_iff.1 h).imp fun m n hm => ⟨string_of_get hm.1, hm.2⟩

theorem items_of_keeps {row : Nat} {hs : List Handle} {items : List Json}
    (hrow : t.arrays[row]? = some hs) (h : t.KeepsItems hs items) : t.SeesArray row items := by
  simp only [SeesArray, Table.items, hrow, Option.getD_some]
  exact keepsItems_iff.1 h

theorem isEmpty_eq_of_forall₂ {α β : Type} {R : α → β → Prop} {l : List α} {xs : List β}
    (h : List.Forall₂ R l xs) : l.isEmpty = xs.isEmpty := by
  cases h <;> rfl

theorem forall₂_concat_right {α β : Type} {R : α → β → Prop} {l : List α} {xs : List β} {x : β}
    (h : List.Forall₂ R l (xs ++ [x])) : ∃ l' a, l = l' ++ [a] ∧ List.Forall₂ R l' xs ∧ R a x := by
  have hrev : List.Forall₂ R l.reverse (x :: xs.reverse) := by
    simpa using List.forall₂_reverse_iff.2 h
  obtain ⟨a, u, ha, hu, heq⟩ := List.forall₂_cons_right_iff.1 hrev
  refine ⟨u.reverse, a, ?_, ?_, ha⟩
  · rw [← List.reverse_cons, ← heq, List.reverse_reverse]
  · simpa using List.forall₂_reverse_iff.2 hu

theorem ofList_concat (l : List String) (s : String) :
    SortedSet.ofList (l ++ [s]) = (SortedSet.ofList l).insert s := by
  simp only [SortedSet.ofList, SortedSet.insertMany, List.foldl_append, List.foldl_cons,
    List.foldl_nil]

theorem gather_concat (found : List (Format × Attributes)) (f : Format) (a : Attributes) :
    Sighting.gather (found ++ [(f, a)]) =
      (Sighting.gather found).alter f fun known => (known.getD .empty).combine a := by
  simp only [Sighting.gather, List.foldl_append, List.foldl_cons, List.foldl_nil]

/-- A sighting that shows no text. -/
theorem evidence_concat_of_no_text {settings : Settings} {x : Sighting}
    (hl : x.literal? settings = none) (hd : x.isDropped settings = false)
    (hf : x.format? settings = none) (xs : List Sighting) :
    Sighting.evidence settings (xs ++ [x]) =
      { Sighting.evidence settings xs with
        null := (Sighting.evidence settings xs).null || x.value.isNull
        bool := (Sighting.evidence settings xs).bool || x.value.isBool
        integer := (Sighting.evidence settings xs).integer || x.value.isInteger
        double := (Sighting.evidence settings xs).double || x.value.isDouble } := by
  simp only [Sighting.evidence, List.any_append, List.any_cons, List.any_nil, Bool.or_false,
    List.filterMap_append, List.filterMap_cons, List.filterMap_nil, hl, hf, hd, List.append_nil]

theorem evidence_concat_literal {settings : Settings} {isTarget : Bool} {s : String}
    (hl : Sighting.literal? settings ⟨isTarget, .string s⟩ = some s)
    (hd : Sighting.isDropped settings ⟨isTarget, .string s⟩ = false)
    (hf : Sighting.format? settings ⟨isTarget, .string s⟩ = none) (xs : List Sighting) :
    Sighting.evidence settings (xs ++ [⟨isTarget, .string s⟩]) =
      { Sighting.evidence settings xs with
        literals := (Sighting.evidence settings xs).literals.insert s
        literalCount := (Sighting.evidence settings xs).literalCount + 1 } := by
  simp only [Sighting.evidence, List.any_append, List.any_cons, List.any_nil, Bool.or_false,
    List.filterMap_append, List.filterMap_cons, List.filterMap_nil, hl, hf, hd, List.append_nil,
    Json.isNull, Json.isBool, Json.isInteger, Json.isDouble, ofList_concat, List.length_append,
    List.length_cons, List.length_nil, Nat.zero_add]

theorem evidence_concat_dropped {settings : Settings} {isTarget : Bool} {s : String}
    (hl : Sighting.literal? settings ⟨isTarget, .string s⟩ = none)
    (hd : Sighting.isDropped settings ⟨isTarget, .string s⟩ = true)
    (hf : Sighting.format? settings ⟨isTarget, .string s⟩ = none) (xs : List Sighting) :
    Sighting.evidence settings (xs ++ [⟨isTarget, .string s⟩]) =
      { Sighting.evidence settings xs with unrestricted := true } := by
  simp only [Sighting.evidence, List.any_append, List.any_cons, List.any_nil, Bool.or_false,
    List.filterMap_append, List.filterMap_cons, List.filterMap_nil, hl, hf, hd, List.append_nil,
    Json.isNull, Json.isBool, Json.isInteger, Json.isDouble, Bool.or_true]

theorem evidence_concat_format {settings : Settings} {isTarget : Bool} {s : String} {f : Format}
    (hl : Sighting.literal? settings ⟨isTarget, .string s⟩ = none)
    (hd : Sighting.isDropped settings ⟨isTarget, .string s⟩ = false)
    (hf : Sighting.format? settings ⟨isTarget, .string s⟩ = some (f, f.traits s))
    (xs : List Sighting) :
    Sighting.evidence settings (xs ++ [⟨isTarget, .string s⟩]) =
      (Sighting.evidence settings xs).addFormat f (f.traits s) := by
  simp only [Sighting.evidence, List.any_append, List.any_cons, List.any_nil, Bool.or_false,
    List.filterMap_append, List.filterMap_cons, List.filterMap_nil, hl, hf, hd, List.append_nil,
    Json.isNull, Json.isBool, Json.isInteger, Json.isDouble, gather_concat, Evidence.addFormat]

/-- A handle that stands for a text adds to the evidence what the text shows. -/
theorem add_of_keepsText {h : Handle} {isTarget : Bool} {s : String}
    (hs : t.KeepsText isTarget h s) (xs : List Sighting) (objects arrays : List Nat) :
    Evidence.add t { Sighting.evidence t.settings xs with objects, arrays } h =
      { Sighting.evidence t.settings (xs ++ [⟨isTarget, .string s⟩]) with objects, arrays } ∧
    h.objectRow? = none ∧ h.arrayRow? = none := by
  have hformat : t.recognize s = t.settings.formatOf s := rfl
  unfold KeepsText at hs
  by_cases htarget : isTarget
  · rw [if_pos htarget] at hs
    obtain ⟨i, rfl, hi⟩ := hs
    subst htarget
    rw [evidence_concat_literal rfl rfl rfl]
    refine ⟨?_, rfl, rfl⟩
    simp only [Evidence.add, string_of_get hi]
  · have hfalse : isTarget = false := by simpa using htarget
    subst hfalse
    rw [if_neg htarget, hformat] at hs
    cases hf : t.settings.formatOf s with
    | some f =>
      simp only [hf] at hs
      have hrec := Format.recognize_of_formatOf hf
      rw [evidence_concat_format (f := f) (by simp only [Sighting.literal?, hf]; rfl)
        (by simp only [Sighting.isDropped, hf]; rfl) (by simp only [Sighting.format?, hf]; rfl)]
      split at hs
      · obtain ⟨i, rfl, hi⟩ := hs
        refine ⟨?_, rfl, rfl⟩
        simp only [Evidence.add, Table.format?, string_of_get hi, hrec, Evidence.addFormat]
      · next htraits =>
        obtain ⟨i, rfl, hi⟩ := hs
        refine ⟨?_, rfl, rfl⟩
        have hnone := Format.traits_of_not_hasTraits (by simpa using htraits) s
        simp only [Evidence.add, Table.format?, string_of_get hi, Format.ofName?_name, hnone,
          Evidence.addFormat]
    | none =>
      simp only [hf] at hs
      split at hs
      · next hfits =>
        obtain ⟨i, rfl, hi⟩ := hs
        rw [evidence_concat_literal (by simp only [Sighting.literal?, hf, hfits]; rfl)
          (by simp only [Sighting.isDropped, hfits, Bool.not_true, Bool.and_false])
          (by simp only [Sighting.format?, hf]; rfl)]
        refine ⟨?_, rfl, rfl⟩
        simp only [Evidence.add, string_of_get hi]
      · next hfits =>
        have hlong : Text.fitsUnits16 s t.settings.internMaxLen = false := by simpa using hfits
        subst hs
        rw [evidence_concat_dropped
          (by simp only [Sighting.literal?, hf, hlong, Bool.false_eq_true, if_false])
          (by simp only [Sighting.isDropped, hf, hlong]; rfl)
          (by simp only [Sighting.format?, hf]; rfl)]
        exact ⟨rfl, rfl, rfl⟩

/-- One more handle adds to the evidence what the value it stands for shows. -/
theorem add_of_sees {h : Handle} {x : Sighting} (hx : t.Sees h x) (xs : List Sighting)
    (objects arrays : List Nat) :
    Evidence.add t { Sighting.evidence t.settings xs with objects, arrays } h =
      { Sighting.evidence t.settings (xs ++ [x]) with
        objects := objects ++ h.objectRow?.toList
        arrays := arrays ++ h.arrayRow?.toList } := by
  obtain ⟨isTarget, v⟩ := x
  cases v with
  | string s =>
    have hs : t.KeepsText isTarget h s := by simpa only [Sees, Keeps] using hx
    obtain ⟨hadd, hobject, harray⟩ := add_of_keepsText hs xs objects arrays
    rw [hadd, hobject, harray, Option.toList_none, List.append_nil, List.append_nil]
  | null =>
    simp only [Sees, Keeps] at hx
    subst hx
    rw [evidence_concat_of_no_text rfl rfl rfl]
    simp only [Evidence.add, Json.isNull, Json.isBool, Json.isInteger, Json.isDouble, Bool.or_true,
      Bool.or_false, Handle.objectRow?, Handle.arrayRow?, Option.toList_none, List.append_nil]
  | bool b =>
    simp only [Sees, Keeps] at hx
    subst hx
    rw [evidence_concat_of_no_text rfl rfl rfl]
    simp only [Evidence.add, Json.isNull, Json.isBool, Json.isInteger, Json.isDouble, Bool.or_true,
      Bool.or_false, Handle.objectRow?, Handle.arrayRow?, Option.toList_none, List.append_nil]
  | number n =>
    cases n with
    | integer i =>
      simp only [Sees, Keeps] at hx
      subst hx
      rw [evidence_concat_of_no_text rfl rfl rfl]
      simp only [Evidence.add, Json.isNull, Json.isBool, Json.isInteger, Json.isDouble,
        Bool.or_true, Bool.or_false, Handle.objectRow?, Handle.arrayRow?, Option.toList_none,
        List.append_nil]
    | double d =>
      simp only [Sees, Keeps] at hx
      subst hx
      rw [evidence_concat_of_no_text rfl rfl rfl]
      simp only [Evidence.add, Json.isNull, Json.isBool, Json.isInteger, Json.isDouble,
        Bool.or_true, Bool.or_false, Handle.objectRow?, Handle.arrayRow?, Option.toList_none,
        List.append_nil]
  | array items =>
    simp only [Sees, Keeps] at hx
    obtain ⟨row, hs, rfl, -, -⟩ := hx
    rw [evidence_concat_of_no_text rfl rfl rfl]
    simp only [Evidence.add, Json.isNull, Json.isBool, Json.isInteger, Json.isDouble,
      Bool.or_false, Handle.objectRow?, Handle.arrayRow?, Option.toList_none, Option.toList_some,
      List.append_nil]
  | object members =>
    simp only [Sees, Keeps] at hx
    obtain ⟨row, hs, rfl, -, -⟩ := hx
    rw [evidence_concat_of_no_text rfl rfl rfl]
    simp only [Evidence.add, Json.isNull, Json.isBool, Json.isInteger, Json.isDouble,
      Bool.or_false, Handle.objectRow?, Handle.arrayRow?, Option.toList_none, Option.toList_some,
      List.append_nil]

/-- The evidence of handles is that of the values they stand for, with the rows of containers. -/
theorem ofValues_eq {hs : List Handle} {xs : List Sighting} (h : List.Forall₂ t.Sees hs xs) :
    Evidence.ofValues t hs =
      { Sighting.evidence t.settings xs with
        objects := hs.filterMap Handle.objectRow?
        arrays := hs.filterMap Handle.arrayRow? } := by
  induction xs using List.reverseRecOn generalizing hs with
  | nil =>
    rw [List.forall₂_nil_right_iff] at h
    subst h
    rfl
  | append_singleton xs x ih =>
    obtain ⟨hs', a, rfl, hxs, hx⟩ := forall₂_concat_right h
    have hfold : Evidence.ofValues t (hs' ++ [a]) = Evidence.add t (Evidence.ofValues t hs') a := by
      simp only [Evidence.ofValues, List.foldl_append, List.foldl_cons, List.foldl_nil]
    rw [hfold, ih hxs, add_of_sees hx]
    simp only [List.filterMap_append]
    cases a <;> rfl

/-- A handle stands for an object or an array in a row if and only if it is in one. -/
theorem Sees.rows {h : Handle} {x : Sighting} (hx : t.Sees h x) :
    Option.Rel t.SeesObject h.objectRow? x.members? ∧
      Option.Rel t.SeesArray h.arrayRow? x.items? := by
  obtain ⟨isTarget, v⟩ := x
  cases v with
  | string s =>
    have hs : t.KeepsText isTarget h s := by simpa only [Sees, Keeps] using hx
    obtain ⟨-, hobject, harray⟩ := add_of_keepsText hs [] [] []
    rw [hobject, harray]
    exact ⟨.none, .none⟩
  | object members =>
    simp only [Sees, Keeps] at hx
    obtain ⟨row, hs, rfl, hrow, hmembers⟩ := hx
    exact ⟨.some (members_of_keeps hrow hmembers), .none⟩
  | array items =>
    simp only [Sees, Keeps] at hx
    obtain ⟨row, hs, rfl, hrow, hitems⟩ := hx
    exact ⟨.none, .some (items_of_keeps hrow hitems)⟩
  | null =>
    simp only [Sees, Keeps] at hx
    subst hx
    exact ⟨.none, .none⟩
  | bool b =>
    simp only [Sees, Keeps] at hx
    subst hx
    exact ⟨.none, .none⟩
  | number n =>
    cases n <;>
    · simp only [Sees, Keeps] at hx
      subst hx
      exact ⟨.none, .none⟩

theorem sees_objects {hs : List Handle} {xs : List Sighting} (h : List.Forall₂ t.Sees hs xs) :
    List.Forall₂ t.SeesObject (hs.filterMap Handle.objectRow?) (Sighting.objects xs) :=
  List.rel_filterMap (fun _ _ hx => hx.rows.1) h

theorem sees_arrays {hs : List Handle} {xs : List Sighting} (h : List.Forall₂ t.Sees hs xs) :
    List.Forall₂ t.SeesArray (hs.filterMap Handle.arrayRow?) (Sighting.arrays xs) :=
  List.rel_filterMap (fun _ _ hx => hx.rows.2) h

theorem SeesMembers.keys {ms : List (String × Handle)} {ns : List (String × Json)}
    (h : t.SeesMembers ms ns) : ms.map (·.1) = ns.map (·.1) := by
  induction h with
  | nil => rfl
  | cons hm _ ih => simp only [List.map_cons, hm.1, ih]

theorem SeesMembers.target? {ms : List (String × Handle)} {ns : List (String × Json)}
    (h : t.SeesMembers ms ns) (hrefs : t.settings.handleRefs = true) :
    ObjectEvidence.target? t ms = Sighting.target? ns := by
  cases h with
  | nil => rfl
  | @cons m n ms ns hm hrest =>
    cases hrest with
    | cons _ _ => simp only [ObjectEvidence.target?, Sighting.target?]
    | nil =>
      obtain ⟨k, h⟩ := m
      obtain ⟨k', v⟩ := n
      obtain ⟨hkey, hv⟩ := hm
      change k = k' at hkey
      subst hkey
      by_cases hk : k = "$ref"
      · subst hk
        have hv' : t.Keeps true h v := by
          simpa only [Sees, Sighting.ofMember, hrefs, beq_self_eq_true, Bool.and_true] using hv
        cases v with
        | string s =>
          simp only [Keeps, KeepsText, if_true] at hv'
          obtain ⟨i, rfl, hi⟩ := hv'
          simp only [ObjectEvidence.target?, Sighting.target?, string_of_get hi]
        | array items =>
          simp only [Keeps] at hv'
          obtain ⟨row, hs, rfl, -, -⟩ := hv'
          rfl
        | object members =>
          simp only [Keeps] at hv'
          obtain ⟨row, hs, rfl, -, -⟩ := hv'
          rfl
        | null =>
          simp only [Keeps] at hv'
          subst hv'
          rfl
        | bool b =>
          simp only [Keeps] at hv'
          subst hv'
          rfl
        | number n =>
          cases n <;>
          · simp only [Keeps] at hv'
            subst hv'
            rfl
      · have hleft : ObjectEvidence.target? t [(k, h)] = none := by
          unfold ObjectEvidence.target?
          split
          · next heq => exact absurd (congrArg Prod.fst (List.cons.inj heq).1) hk
          · rfl
        have hright : Sighting.target? [(k, v)] = none := by
          unfold Sighting.target?
          split
          · next heq => exact absurd (congrArg Prod.fst (List.cons.inj heq).1) hk
          · rfl
        rw [hleft, hright]

section Objects

variable {rows : List Nat} {objects : List (List (String × Json))}
  (h : List.Forall₂ t.SeesObject rows objects)

include h

theorem keys_eq : (ObjectEvidence.ofRows t rows).keys = Sighting.keys objects := by
  have hkeys : (rows.map t.members).flatMap (fun members => members.map (·.1)) =
      objects.flatMap fun members => members.map (·.1) := by
    induction h with
    | nil => rfl
    | cons hrow _ ih => simp only [List.map_cons, List.flatMap_cons, ih, SeesMembers.keys hrow]
  exact congrArg SortedSet.ofList hkeys

theorem isMap_eq :
    (ObjectEvidence.ofRows t rows).isMap t.settings = Sighting.isMap t.settings objects := by
  simp only [ObjectEvidence.isMap, Sighting.isMap, keys_eq h]

theorem isOptional_eq (key : String) :
    (ObjectEvidence.ofRows t rows).isOptional key = Sighting.isOptional objects key := by
  have hlength : (rows.map t.members).length = objects.length := by
    rw [List.length_map, h.length_eq]
  have hcount : (rows.map t.members).countP (fun members => members.any fun m => m.1 == key) =
      objects.countP fun members => members.any fun m => m.1 == key := by
    clear hlength
    induction h with
    | nil => rfl
    | @cons row members rows objects hrow _ ih =>
      have hany : ((t.members row).any fun m => m.1 == key) =
          members.any fun m => m.1 == key := by
        have hmap := congrArg (·.any (· == key)) (SeesMembers.keys hrow)
        simpa only [List.any_map, Function.comp_def] using hmap
      simp only [List.map_cons, List.countP_cons, ih, hany]
  simp only [ObjectEvidence.isOptional, ObjectEvidence.presentIn, ObjectEvidence.size,
    ObjectEvidence.ofRows, Sighting.isOptional, hlength, hcount]

theorem sees_under (key : String) :
    List.Forall₂ t.Sees ((ObjectEvidence.ofRows t rows).valuesOf key)
      (Sighting.under t.settings objects key) := by
  simp only [ObjectEvidence.valuesOf, ObjectEvidence.ofRows, List.flatMap_map, Sighting.under]
  refine List.rel_flatMap h fun row members hrow => List.rel_filterMap (fun m n hm => ?_) hrow
  obtain ⟨k, g⟩ := m
  obtain ⟨hkey, hvalue⟩ := hm
  change k = n.1 at hkey
  subst hkey
  by_cases hk : n.1 = key
  · simp only [hk, if_true]
    exact .some hvalue
  · simp only [hk, if_false]
    exact .none

theorem sees_allValues :
    List.Forall₂ t.Sees (ObjectEvidence.ofRows t rows).allValues
      (Sighting.allValues t.settings objects) := by
  simp only [ObjectEvidence.allValues, Sighting.allValues, keys_eq h]
  exact List.rel_flatMap (List.forall₂_same.2 fun _ _ => rfl) fun k _ hk => hk ▸ sees_under h k

theorem targets?_eq :
    (if t.settings.handleRefs then (ObjectEvidence.ofRows t rows).targets? t else none) =
      Sighting.targets? t.settings objects := by
  unfold Sighting.targets?
  split
  · next hrefs =>
    have hempty : (rows.map t.members).isEmpty = objects.isEmpty :=
      List.isEmpty_map.trans (isEmpty_eq_of_forall₂ h)
    have hmap : (rows.map t.members).mapM (ObjectEvidence.target? t) =
        objects.mapM Sighting.target? := by
      clear hempty
      induction h with
      | nil => rfl
      | cons hrow _ ih =>
        simp only [List.map_cons, List.mapM_cons, ih, SeesMembers.target? hrow hrefs]
    simp only [ObjectEvidence.targets?, ObjectEvidence.ofRows, hempty, hmap]
  · rfl

end Objects

end Table

namespace Inference

open Table

/-! ### The same inference -/

section SameInference

variable {t : Table} {infer : List Handle → Attributes → StateM Inference NodeId}
  {infer' : List Sighting → Attributes → StateM Inference NodeId}
  (hinfer : ∀ hs xs a, List.Forall₂ t.Sees hs xs → infer hs a = infer' xs a)

include hinfer

theorem inferArray_eq {rows : List Nat} {arrays : List (List Json)}
    (h : List.Forall₂ t.SeesArray rows arrays) (a : Attributes) :
    inferArray t infer rows a = ofArrays infer' arrays a := by
  have hitems : List.Forall₂ t.Sees (rows.flatMap t.items) (Sighting.ofArrays arrays) := by
    rw [Sighting.ofArrays, List.forall₂_map_right_iff, ← List.flatMap_id]
    exact List.rel_flatMap h fun _ _ hrow => hrow
  simp only [inferArray, ofArrays, hinfer _ _ _ hitems]

theorem inferObject_eq {rows : List Nat} {objects : List (List (String × Json))}
    (h : List.Forall₂ t.SeesObject rows objects) (a : Attributes) :
    inferObject t infer rows a = ofObjects t.settings infer' objects a := by
  have hproperties : ∀ key,
      infer ((ObjectEvidence.ofRows t rows).valuesOf key) (.inferredName key) =
        infer' (Sighting.under t.settings objects key) (.inferredName key) :=
    fun key => hinfer _ _ _ (sees_under h key)
  have hvalues := hinfer _ _ .empty (sees_allValues h)
  simp only [inferObject, ofObjects, ofProperties, targets?_eq h]
  cases Sighting.targets? t.settings objects with
  | some targets => rfl
  | none => simp only [isMap_eq h, keys_eq h, hvalues, hproperties, isOptional_eq h]

end SameInference

/-- Inference on handles does what inference on the values does that they stand for. -/
theorem inferType_eq {t : Table} (fuel : Nat) {hs : List Handle} {xs : List Sighting}
    (h : List.Forall₂ t.Sees hs xs) (a : Attributes) :
    inferType t fuel hs a = ofSightings t.settings fuel xs a := by
  induction fuel generalizing hs xs a with
  | zero => rfl
  | succ fuel ih =>
    have hobjects := sees_objects h
    have harrays := sees_arrays h
    have hunify : (Evidence.ofValues t hs).unify t.settings =
        { (Sighting.evidence t.settings xs).unify t.settings with
          objects := hs.filterMap Handle.objectRow?
          arrays := hs.filterMap Handle.arrayRow? } := by
      rw [ofValues_eq h]
      rfl
    have hobject : ∀ a, inferObject t (inferType t fuel) (hs.filterMap Handle.objectRow?) a =
        ofObjects t.settings (ofSightings t.settings fuel) (Sighting.objects xs) a :=
      inferObject_eq (fun _ _ a h => ih h a) hobjects
    have harray : ∀ a, inferArray t (inferType t fuel) (hs.filterMap Handle.arrayRow?) a =
        ofArrays (ofSightings t.settings fuel) (Sighting.arrays xs) a :=
      inferArray_eq (fun _ _ a h => ih h a) harrays
    have hnoObject : (hs.filterMap Handle.objectRow?).isEmpty = (Sighting.objects xs).isEmpty :=
      isEmpty_eq_of_forall₂ hobjects
    have hnoArray : (hs.filterMap Handle.arrayRow?).isEmpty = (Sighting.arrays xs).isEmpty :=
      isEmpty_eq_of_forall₂ harrays
    simp only [inferType, ofSightings, ofEvidence, whenAny, hunify, hobject, harray, hnoObject,
      hnoArray, bind_assoc, pure_bind]
    cases (Sighting.objects xs).isEmpty <;> cases (Sighting.arrays xs).isEmpty <;>
      simp only [if_true, Bool.false_eq_true, if_false, pure_bind]

end Inference

/-- The type of a collection is that of the values it keeps. -/
theorem Collection.Keeps.typeOf_eq {settings : Settings} {values : List Json} {c : Collection}
    (h : Collection.Keeps settings values c) (a : Attributes) :
    Inference.typeOf c.recorder.table c.roots a =
      Inference.ofSightings settings (c.recorder.table.rows + 1) (values.map (⟨false, ·⟩)) a := by
  have hsees : List.Forall₂ c.recorder.table.Sees c.roots
      (values.map fun v => (⟨false, v⟩ : Sighting)) :=
    List.forall₂_map_right_iff.2 h.roots
  have hsame := Inference.inferType_eq (c.recorder.table.rows + 1) hsees a
  rw [h.settings] at hsame
  exact hsame

end JsonTyping
