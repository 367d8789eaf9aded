import JsonTyping.Json.Value
import JsonTyping.Proofs.Runs
import Mathlib.Data.List.Basic
import Mathlib.Data.List.Forall2
import Mathlib.Data.List.Induction
import Mathlib.Data.List.Nodup

/-!
# Repeated keys

`Json.WithoutRepeats v w` says what is left of a value when the repeated members of its objects are
removed at every depth: a key stands where it first stood, with the value it had last. That is the
document of the value, and nothing else (`Json.withoutRepeats_iff`). A value that repeats no key is
its own document (`Json.NoRepeats.distinct_eq`).
-/

namespace JsonTyping.Json

/-- What holds of a container whenever it holds of its parts, and of the other values, holds of
all. -/
theorem inductionOn {P : Json → Prop} (null : P .null) (bool : ∀ b, P (.bool b))
    (number : ∀ n, P (.number n)) (string : ∀ s, P (.string s))
    (array : ∀ items, (∀ v ∈ items, P v) → P (.array items))
    (object : ∀ members, (∀ m ∈ members, P m.2) → P (.object members)) (v : Json) : P v :=
  match v with
  | .null => null
  | .bool b => bool b
  | .number n => number n
  | .string s => string s
  | .array items => array items fun v _ => inductionOn null bool number string array object v
  | .object members =>
    object members fun m hm =>
      have : sizeOf m.2 < sizeOf members :=
        Nat.lt_trans (by cases m; simp only [Prod.mk.sizeOf_spec]; omega) (List.sizeOf_lt_of_mem hm)
      inductionOn null bool number string array object m.2

def last? (members : List (String × Json)) (key : String) : Option Json :=
  members.reverse.lookup key

/-- The keys of members, each at its first place. -/
def firstKeys (members : List (String × Json)) : List String := (members.map (·.1)).eraseDups

/-- What is left when the repeated members of all objects are removed. -/
inductive WithoutRepeats : Json → Json → Prop
  | null : WithoutRepeats .null .null
  | bool (b : Bool) : WithoutRepeats (.bool b) (.bool b)
  | number (n : Number) : WithoutRepeats (.number n) (.number n)
  | string (s : String) : WithoutRepeats (.string s) (.string s)
  | array {items kept : List Json} (hitems : List.Forall₂ WithoutRepeats items kept) :
    WithoutRepeats (.array items) (.array kept)
  | object {members kept : List (String × Json)}
    (hkeys : kept.map (·.1) = firstKeys members)
    (hvalues : List.Forall₂ WithoutRepeats ((firstKeys members).filterMap (last? members))
      (kept.map (·.2))) :
    WithoutRepeats (.object members) (.object kept)

/-- No object repeats a key. -/
inductive NoRepeats : Json → Prop
  | null : NoRepeats .null
  | bool (b : Bool) : NoRepeats (.bool b)
  | number (n : Number) : NoRepeats (.number n)
  | string (s : String) : NoRepeats (.string s)
  | array {items : List Json} (hitems : ∀ v ∈ items, NoRepeats v) : NoRepeats (.array items)
  | object {members : List (String × Json)} (hkeys : (members.map (·.1)).Nodup)
    (hvalues : ∀ m ∈ members, NoRepeats m.2) : NoRepeats (.object members)

theorem eraseDups_concat (l : List String) (a : String) :
    (l ++ [a]).eraseDups = if a ∈ l then l.eraseDups else l.eraseDups ++ [a] := by
  rw [List.eraseDups_append]
  by_cases ha : a ∈ l
  · rw [if_pos ha]
    simp [List.removeAll, ha]
  · rw [if_neg ha]
    simp [List.removeAll, ha, List.eraseDups_cons]

theorem nodup_eraseDups (l : List String) : l.eraseDups.Nodup := by
  induction l using List.reverseRecOn with
  | nil => exact List.nodup_nil
  | append_singleton l a ih =>
    rw [eraseDups_concat]
    split
    · exact ih
    · next ha =>
      refine List.nodup_append.2 ⟨ih, List.nodup_singleton a, fun b hb c hc hbc => ha ?_⟩
      rw [← List.mem_singleton.1 hc, ← hbc]
      exact List.mem_eraseDups.1 hb

theorem eraseDups_of_nodup {l : List String} (h : l.Nodup) : l.eraseDups = l := by
  induction l using List.reverseRecOn with
  | nil => rfl
  | append_singleton l a ih =>
    obtain ⟨hl, -, hdisjoint⟩ := List.nodup_append.1 h
    have ha : a ∉ l := fun ha => hdisjoint a ha a List.mem_cons_self rfl
    rw [eraseDups_concat, if_neg ha, ih hl]

theorem lookup_of_mem {members : List (String × Json)} (h : (members.map (·.1)).Nodup)
    {m : String × Json} (hm : m ∈ members) : members.lookup m.1 = some m.2 := by
  induction members with
  | nil => cases hm
  | cons n rest ih =>
    obtain ⟨hn, hrest⟩ := List.nodup_cons.1 (List.map_cons ▸ h)
    rcases List.mem_cons.1 hm with rfl | hm
    · exact List.lookup_cons_self
    · have hne : (m.1 == n.1) = false :=
        beq_false_of_ne fun heq => hn (heq ▸ List.mem_map_of_mem hm)
      rw [List.lookup_cons, hne]
      exact ih hrest hm

theorem filterMap_lookup {members : List (String × Json)} (h : (members.map (·.1)).Nodup) :
    (members.map (·.1)).filterMap (List.lookup · members) = members.map (·.2) := by
  rw [List.filterMap_map, ← List.filterMap_eq_map]
  exact List.filterMap_congr fun m hm => lookup_of_mem h hm

theorem mem_of_last? {members : List (String × Json)} {key : String} {v : Json}
    (h : last? members key = some v) : (key, v) ∈ members :=
  List.mem_reverse.1 (mem_of_lookup h)

theorem last?_concat (members : List (String × Json)) (m : String × Json) (key : String) :
    last? (members ++ [m]) key = if key = m.1 then some m.2 else last? members key := by
  rw [last?, List.reverse_append, List.reverse_singleton, List.singleton_append, List.lookup_cons]
  by_cases hkey : key = m.1
  · rw [if_pos hkey, beq_iff_eq.2 hkey]
  · rw [if_neg hkey, beq_false_of_ne hkey, last?]

theorem distinctItems_eq (items : List Json) : distinctItems items = items.map distinct := by
  induction items with
  | nil => rfl
  | cons v rest ih => rw [distinctItems, ih, List.map_cons]

theorem distinctMembers_concat (members : List (String × Json)) (m : String × Json)
    (done : List (String × Json)) :
    distinctMembers (members ++ [m]) done =
      setMember m.1 m.2.distinct (distinctMembers members done) := by
  induction members generalizing done with
  | nil => rfl
  | cons n rest ih => exact ih _

theorem keys_setMember (key : String) (v : Json) (members : List (String × Json)) :
    (setMember key v members).map (·.1) =
      if key ∈ members.map (·.1) then members.map (·.1) else members.map (·.1) ++ [key] := by
  induction members with
  | nil => rfl
  | cons m rest ih =>
    rw [setMember]
    by_cases hkey : m.1 = key
    · rw [if_pos hkey, if_pos (hkey ▸ List.mem_cons_self)]
      rfl
    · have hmem : key ∈ (m :: rest).map (·.1) ↔ key ∈ rest.map (·.1) := by
        rw [List.map_cons, List.mem_cons, or_iff_right (Ne.symm hkey)]
      rw [if_neg hkey, List.map_cons, ih]
      simp only [hmem]
      split <;> rfl

theorem lookup_setMember (key : String) (v : Json) (members : List (String × Json)) (k : String) :
    (setMember key v members).lookup k = if k = key then some v else members.lookup k := by
  induction members with
  | nil =>
    rw [setMember, List.lookup_cons, List.lookup_nil]
    by_cases hk : k = key
    · rw [if_pos hk, beq_iff_eq.2 hk]
    · rw [if_neg hk, beq_false_of_ne hk]
  | cons m rest ih =>
    rw [setMember]
    by_cases hkey : m.1 = key
    · rw [if_pos hkey, List.lookup_cons, List.lookup_cons, hkey]
      by_cases hk : k = key
      · rw [if_pos hk, beq_iff_eq.2 hk]
      · rw [if_neg hk, beq_false_of_ne hk]
    · rw [if_neg hkey, List.lookup_cons, List.lookup_cons, ih]
      by_cases hk : k = m.1
      · have hne : k ≠ key := hk ▸ hkey
        simp only [beq_iff_eq.2 hk, if_neg hne]
      · rw [beq_false_of_ne hk]

theorem keys_distinctMembers (members : List (String × Json)) :
    (distinctMembers members []).map (·.1) = firstKeys members := by
  induction members using List.reverseRecOn with
  | nil => rfl
  | append_singleton members m ih =>
    rw [firstKeys] at ih
    rw [distinctMembers_concat, keys_setMember, ih, firstKeys, List.map_append, List.map_singleton,
      eraseDups_concat]
    simp only [List.mem_eraseDups]

theorem lookup_distinctMembers (members : List (String × Json)) (key : String) :
    (distinctMembers members []).lookup key = (last? members key).map distinct := by
  induction members using List.reverseRecOn with
  | nil => rfl
  | append_singleton members m ih =>
    rw [distinctMembers_concat, lookup_setMember, last?_concat, ih]
    split <;> rfl

theorem values_distinctMembers (members : List (String × Json)) :
    (distinctMembers members []).map (·.2) =
      ((firstKeys members).filterMap (last? members)).map distinct := by
  have hnodup : ((distinctMembers members []).map (·.1)).Nodup :=
    keys_distinctMembers members ▸ nodup_eraseDups _
  rw [← filterMap_lookup hnodup, keys_distinctMembers, List.map_filterMap]
  exact List.filterMap_congr fun key _ => lookup_distinctMembers members key

theorem forall₂_iff_map {α : Type} {R : α → α → Prop} {f : α → α} {l : List α}
    (h : ∀ a ∈ l, ∀ b, R a b ↔ b = f a) (l' : List α) : List.Forall₂ R l l' ↔ l' = l.map f :=
  forall₂_iff_eq_map (S := Eq) (List.forall₂_refl l) (fun _ x hx heq => heq ▸ h x hx) l'

/-- What is left of a value without its repeated members is its document. -/
theorem withoutRepeats_iff (v w : Json) : WithoutRepeats v w ↔ w = v.distinct := by
  induction v using inductionOn generalizing w with
  | null => exact ⟨fun h => by cases h; rfl, fun h => h ▸ .null⟩
  | bool b => exact ⟨fun h => by cases h; rfl, fun h => h ▸ .bool b⟩
  | number n => exact ⟨fun h => by cases h; rfl, fun h => h ▸ .number n⟩
  | string s => exact ⟨fun h => by cases h; rfl, fun h => h ▸ .string s⟩
  | array items ih =>
    have hitems : ∀ kept, List.Forall₂ WithoutRepeats items kept ↔ kept = items.map distinct :=
      forall₂_iff_map ih
    rw [distinct, distinctItems_eq]
    constructor
    · intro h
      cases h with
      | array hkept => rw [(hitems _).1 hkept]
    · rintro rfl
      exact .array ((hitems _).2 rfl)
  | object members ih =>
    have hvalues : ∀ kept, List.Forall₂ WithoutRepeats
          ((firstKeys members).filterMap (last? members)) kept ↔
        kept = ((firstKeys members).filterMap (last? members)).map distinct := by
      refine forall₂_iff_map fun v hv => ?_
      obtain ⟨key, -, hlast⟩ := List.mem_filterMap.1 hv
      exact ih (key, v) (mem_of_last? hlast)
    rw [distinct]
    constructor
    · intro h
      cases h with
      | object hkeys hkept =>
        -- Both have the same keys and the same values in the same order.
        rw [List.zip_of_prod hkeys ((hvalues _).1 hkept),
          List.zip_of_prod (keys_distinctMembers members) (values_distinctMembers members)]
    · rintro rfl
      exact .object (keys_distinctMembers members)
        ((hvalues _).2 (values_distinctMembers members))

theorem filterMap_last? {members : List (String × Json)} (h : (members.map (·.1)).Nodup) :
    (firstKeys members).filterMap (last? members) = members.map (·.2) := by
  have hreversed : (members.reverse.map (·.1)).Nodup := by
    rw [List.map_reverse]
    exact List.nodup_reverse.2 h
  have hvalues := filterMap_lookup hreversed
  rw [List.map_reverse, List.map_reverse, List.filterMap_reverse, List.reverse_inj] at hvalues
  rw [firstKeys, eraseDups_of_nodup h]
  exact hvalues

theorem NoRepeats.distinct_eq {v : Json} (h : v.NoRepeats) : v.distinct = v := by
  induction h with
  | null => rfl
  | bool b => rfl
  | number n => rfl
  | string s => rfl
  | @array items _ ih => rw [distinct, distinctItems_eq, List.map_congr_left ih, List.map_id']
  | @object members hkeys _ ih =>
    have hdone := values_distinctMembers members
    rw [filterMap_last? hkeys] at hdone
    have hsame : (members.map (·.2)).map distinct = members.map (·.2) := by
      rw [List.map_map]
      exact List.map_congr_left ih
    rw [distinct, List.zip_of_prod ((keys_distinctMembers members).trans (eraseDups_of_nodup hkeys))
      (hdone.trans hsame), ← List.zip_of_prod rfl rfl]

theorem noRepeats_distinct (v : Json) : v.distinct.NoRepeats := by
  induction v using inductionOn with
  | null => exact .null
  | bool b => exact .bool b
  | number n => exact .number n
  | string s => exact .string s
  | array items ih =>
    rw [distinct, distinctItems_eq]
    exact .array (List.forall_mem_map.2 ih)
  | object members ih =>
    refine .object (keys_distinctMembers members ▸ nodup_eraseDups _) fun m hm => ?_
    have hvalue : m.2 ∈ (distinctMembers members []).map (·.2) := List.mem_map_of_mem hm
    rw [values_distinctMembers] at hvalue
    obtain ⟨v, hv, hdistinct⟩ := List.mem_map.1 hvalue
    obtain ⟨key, -, hlast⟩ := List.mem_filterMap.1 hv
    exact hdistinct ▸ ih (key, v) (mem_of_last? hlast)

end JsonTyping.Json
