import JsonTyping.Proofs.DescriptionRuns
import JsonTyping.Proofs.RepeatedKeys

/-!
# The form of descriptions

Every description is built by one grammar (`Description.Form`), with the arms of unions and
intersections in the strict order of their texts (`Graph.Shows.form`). `Json.same` ignores the order
of members, which is the order of property names and so is not told by the keys that are shown: `a`,
if it may be absent, and `a?`, if not, are shown under one key. Where there are no two such names
(`Description.NamesApart`), two descriptions are the same only if they are equal
(`Description.Form.eq_of_same`).
-/

namespace JsonTyping

namespace Json

theorem sameItems_iff {vs ws : List Json} :
    sameItems vs ws = true ↔ List.Forall₂ (fun v w => v.same w = true) vs ws := by
  induction vs generalizing ws with
  | nil => cases ws <;> simp [sameItems]
  | cons v vs ih => cases ws <;> simp [sameItems, ih]

theorem eq_of_same_array {vs ws : List Json} (h : (Json.array vs).same (.array ws) = true)
    (heq : ∀ v ∈ vs, ∀ w ∈ ws, v.same w = true → v = w) : vs = ws := by
  rw [same, sameItems_iff] at h
  exact eq_of_forall₂_of_mem h heq

theorem sameMembers_iff {members other : List (String × Json)} :
    sameMembers members other = true ↔
      ∀ m ∈ members, ∃ w, other.lookup m.1 = some w ∧ m.2.same w = true := by
  induction members with
  | nil => simp [sameMembers]
  | cons m members ih =>
    rw [sameMembers, Bool.and_eq_true, ih, List.forall_mem_cons]
    refine and_congr_left fun _ => ?_
    cases other.lookup m.1 <;> simp

theorem same_object {members other : List (String × Json)}
    (h : (Json.object members).same (.object other) = true) :
    members.length = other.length ∧
      ∀ m ∈ members, ∃ w, (m.1, w) ∈ other ∧ m.2.same w = true := by
  rw [same, Bool.and_eq_true, beq_iff_eq, sameMembers_iff] at h
  refine ⟨h.1, fun m hm => ?_⟩
  obtain ⟨w, hw, hsame⟩ := h.2 m hm
  exact ⟨w, mem_of_lookup hw, hsame⟩

/-- A value without repeated keys is the same as itself. -/
theorem same_self {v : Json} (hv : v.Legible) (hkeys : v.NoRepeats) : v.same v = true := by
  induction hv with
  | null => rfl
  | bool b => simp [same]
  | natural n => simp [same, ofNat, Number.same]
  | string s => simp [same]
  | array _ ih =>
    cases hkeys with
    | array hkeys =>
      rw [same, sameItems_iff]
      exact List.forall₂_same.2 fun v hv => ih v hv (hkeys v hv)
  | object _ ih =>
    cases hkeys with
    | object hnodup hkeys =>
      rw [same, Bool.and_eq_true, sameMembers_iff]
      refine ⟨beq_iff_eq.2 rfl, fun m hm => ⟨m.2, lookup_of_mem hnodup hm, ih m hm (hkeys m hm)⟩⟩

end Json

theorem mem_of_mem_sortArms {v : Json} {arms : List Json} (h : v ∈ sortArms arms) : v ∈ arms :=
  Graph.mem_sorted_iff.1 (Graph.mem_of_mem_dedup h)

/-- Sorted arms without equal neighbours are in strict order, if those of one text are equal. -/
theorem pairwise_dedup {arms : List Json}
    (hle : arms.Pairwise fun v w => (compare v.compact w.compact).isLE)
    (hsame : ∀ v ∈ arms, ∀ w ∈ arms, v.compact = w.compact → v.same w = true) :
    (sortArms.dedup arms).Pairwise fun v w => compare v.compact w.compact = .lt := by
  induction arms using sortArms.dedup.induct with
  | case1 first second rest hfirst ih =>
    rw [sortArms.dedup, if_pos hfirst]
    have hsub : (first :: rest).Sublist (first :: second :: rest) :=
      (List.sublist_cons_self second rest).cons_cons first
    exact ih (hle.sublist hsub)
      fun v hv w hw => hsame v (hsub.subset hv) w (hsub.subset hw)
  | case2 first second rest hfirst ih =>
    rw [sortArms.dedup, if_neg hfirst]
    obtain ⟨hbefore, hle⟩ := List.pairwise_cons.1 hle
    refine List.pairwise_cons.2 ⟨fun v hv => ?_, ih hle fun v hv w hw =>
      hsame v (List.mem_cons_of_mem _ hv) w (List.mem_cons_of_mem _ hw)⟩
    have hmem := Graph.mem_of_mem_dedup hv
    have hfirstLe := hbefore v hmem
    refine (Ordering.isLE_iff_eq_lt_or_eq_eq.1 hfirstLe).resolve_right fun heq => hfirst ?_
    -- What stands between two arms of one text has that text too.
    have htext : first.compact = v.compact := Std.LawfulEqCmp.eq_of_compare heq
    have hbetween : (compare second.compact v.compact).isLE := by
      rcases List.mem_cons.1 hmem with rfl | hrest
      · exact Std.ReflCmp.isLE_rfl
      · exact (List.pairwise_cons.1 hle).1 v hrest
    refine hsame first List.mem_cons_self second (List.mem_cons_of_mem _ List.mem_cons_self) ?_
    exact Std.LawfulEqCmp.eq_of_compare (Std.OrientedCmp.isLE_antisymm
      (hbefore second List.mem_cons_self) (htext ▸ hbetween))
  | case3 arms hshort =>
    rw [sortArms.dedup.eq_2 arms hshort]
    rcases arms with _ | ⟨v, _ | ⟨w, rest⟩⟩
    · exact .nil
    · exact List.pairwise_singleton _ v
    · exact (hshort v w rest rfl).elim

theorem pairwise_sortArms {arms : List Json}
    (hsame : ∀ v ∈ arms, ∀ w ∈ arms, v.compact = w.compact → v.same w = true) :
    (sortArms arms).Pairwise fun v w => compare v.compact w.compact = .lt := by
  refine pairwise_dedup (List.pairwise_map.2 ?_) fun v hv w hw =>
    hsame v (Graph.mem_sorted_iff.1 hv) w (Graph.mem_sorted_iff.1 hw)
  refine (pairwise_sorted _).imp_of_mem fun {a b} ha hb hab => ?_
  obtain ⟨v, -, rfl⟩ := List.mem_map.1 (List.mem_mergeSort.1 ha)
  obtain ⟨w, -, rfl⟩ := List.mem_map.1 (List.mem_mergeSort.1 hb)
  exact (isLE_iff_of_texts _ _).1 hab

theorem exists_mem_sortArms {v : Json} {arms : List Json} (h : v ∈ arms) :
    ∃ w ∈ sortArms arms, w = v ∨ w.same v = true :=
  Graph.exists_mem_dedup (Graph.mem_sorted_iff.2 h)

/-- Where arms are the same only if they are equal, sorting leaves out nothing else. -/
theorem mem_sortArms_iff {arms : List Json} (heq : ∀ v ∈ arms, ∀ w ∈ arms, v.same w = true → v = w)
    {v : Json} : v ∈ sortArms arms ↔ v ∈ arms := by
  refine ⟨mem_of_mem_sortArms, fun hv => ?_⟩
  obtain ⟨w, hw, rfl | hsame⟩ := exists_mem_sortArms hv
  · exact hw
  · exact heq w (mem_of_mem_sortArms hw) v hv hsame ▸ hw

theorem collapseArms_of_one {key : String} {arms : List Json} {only : Json}
    (h : sortArms arms = [only]) : collapseArms key arms = only := by
  rw [collapseArms, h]

theorem collapseArms_of_not_one {key : String} {arms : List Json}
    (h : (sortArms arms).length ≠ 1) :
    collapseArms key arms = .object [(key, .array (sortArms arms))] := by
  rcases Graph.hasArms_collapseArms key arms with honly | hmany
  · exact absurd (by rw [honly, List.length_singleton]) h
  · exact hmany

namespace Description

/-! ### The grammar of descriptions -/

/-- What stands somewhere in a description: a type, the number of a node, the cases of an
enumeration, the properties of a record or object, or the arms of a union or intersection. -/
inductive Position where
  | type
  | number
  | cases
  | properties
  | arms

/-- What stands under the only key of a type. -/
def position? : String → Option Position
  | "$recursive" | "pending" => some .number
  | "enum" => some .cases
  | "class" => some .properties
  | "array" | "map" => some .type
  | "union" | "allOf" => some .arms
  | _ => none

/-- What is written at a position. `K` holds of the lists of keys under which properties stand. -/
inductive Form (K : List String → Prop) : Position → Json → Prop
  | text (s : String) : Form K .type (.string s)
  | null : Form K .type .null
  | tagged {key : String} {p : Position} {v : Json} (hkey : position? key = some p)
      (h : Form K p v) : Form K .type (.object [(key, v)])
  | object {members additional : Json} (hmembers : Form K .properties members)
      (hadditional : Form K .type additional) :
      Form K .type (.object [("object", members), ("additional", additional)])
  | number (n : Nat) : Form K .number (.ofNat n)
  | cases (l : List String) : Form K .cases (.ofStrings l)
  | properties {members : List (String × Json)} (hkeys : K (members.map (·.1)))
      (h : ∀ m ∈ members, Form K .type m.2) : Form K .properties (.object members)
  | arms {l : List Json} (hsorted : l.Pairwise fun v w => compare v.compact w.compact = .lt)
      (h : ∀ v ∈ l, Form K .type v) : Form K .arms (.array l)

variable {K : List String → Prop} {p : Position} {v w : Json}

theorem Form.legible (h : Form K p v) : v.Legible := by
  induction h with
  | text s => exact .string s
  | null => exact .null
  | tagged _ _ ih => exact .object (List.forall_mem_singleton.2 ih)
  | object _ _ ihmembers ihadditional =>
    exact .object (List.forall_mem_cons.2 ⟨ihmembers, List.forall_mem_singleton.2 ihadditional⟩)
  | number n => exact .natural n
  | cases l => exact .array (List.forall_mem_map.2 fun s _ => .string s)
  | properties _ _ ih => exact .object ih
  | arms _ _ ih => exact .array ih

theorem Form.noRepeats (hnodup : ∀ ks, K ks → ks.Nodup) (h : Form K p v) : v.NoRepeats := by
  induction h with
  | text s => exact .string s
  | null => exact .null
  | tagged _ _ ih => exact .object (List.nodup_singleton _) (List.forall_mem_singleton.2 ih)
  | object _ _ ihmembers ihadditional =>
    exact .object (by simp)
      (List.forall_mem_cons.2 ⟨ihmembers, List.forall_mem_singleton.2 ihadditional⟩)
  | number n => exact .number _
  | cases l => exact .array (List.forall_mem_map.2 fun s _ => .string s)
  | properties hkeys _ ih => exact .object (hnodup _ hkeys) ih
  | arms _ _ ih => exact .array ih

theorem Form.same_self (hnodup : ∀ ks, K ks → ks.Nodup) (h : Form K p v) : v.same v = true :=
  Json.same_self h.legible (h.noRepeats hnodup)

/-- Arms are listed in the strict order of their texts. -/
theorem Form.sortArms (hnodup : ∀ ks, K ks → ks.Nodup) {arms : List Json}
    (h : ∀ v ∈ arms, Form K .type v) : Form K .arms (.array (sortArms arms)) := by
  refine .arms (pairwise_sortArms fun v hv w hw htexts => ?_)
    fun v hv => h v (mem_of_mem_sortArms hv)
  obtain rfl := Json.compact_inj (h v hv).legible (h w hw).legible htexts
  exact (h v hv).same_self hnodup

theorem Form.collapseArms (hnodup : ∀ ks, K ks → ks.Nodup) {key : String}
    (hkey : position? key = some .arms) {arms : List Json} (h : ∀ v ∈ arms, Form K .type v) :
    Form K .type (collapseArms key arms) := by
  rcases Graph.hasArms_collapseArms key arms with honly | hmany
  · exact h _ (mem_of_mem_sortArms (honly ▸ List.mem_singleton_self _))
  · rw [hmany]
    exact .tagged hkey (.sortArms hnodup h)

/-! ### Keys that tell their order -/

/-- Lists of keys that differ at most in their order are equal. -/
def TellsOrder (K : List String → Prop) : Prop :=
  ∀ ks ks', K ks → K ks' → ks.Perm ks' → ks = ks'

theorem members_eq_of_same {members other : List (String × Json)}
    (hnodup : (members.map (·.1)).Nodup) (hnodup' : (other.map (·.1)).Nodup)
    (horder : (members.map (·.1)).Perm (other.map (·.1)) →
      members.map (·.1) = other.map (·.1))
    (hlength : members.length = other.length) (hmem : ∀ m ∈ members, m ∈ other) :
    members = other := by
  have hkeys : members.map (·.1) = other.map (·.1) :=
    horder (((List.subperm_of_subset hnodup.of_map hmem).perm_of_length_le
      hlength.symm.le).map _)
  exact eq_of_forall₂_of_mem (forall₂_of_map_eq hkeys) fun m hm n hn hkey =>
    List.inj_on_of_nodup_map hnodup' (hmem m hm) hn hkey

/-- Descriptions with keys that tell their order are the same only if they are equal. -/
theorem Form.eq_of_same (hnodup : ∀ ks, K ks → ks.Nodup) (hK : TellsOrder K) (hv : Form K p v)
    (hw : Form K p w) (h : v.same w = true) : v = w := by
  induction hv generalizing w with
  | text s =>
    cases hw with
    | text s' =>
      rw [Json.same, beq_iff_eq] at h
      rw [h]
    | _ => simp [Json.same] at h
  | null =>
    cases hw with
    | null => rfl
    | _ => simp [Json.same] at h
  | tagged hkey _ ih =>
    cases hw with
    | tagged hkey' hw =>
      obtain ⟨-, hmem⟩ := Json.same_object h
      obtain ⟨w, hin, hsame⟩ := hmem _ (List.mem_singleton_self _)
      obtain ⟨rfl, rfl⟩ := Prod.mk.inj (List.mem_singleton.1 hin)
      obtain rfl := Option.some.inj (hkey.symm.trans hkey')
      rw [ih hw hsame]
    | _ => simp [Json.same] at h
  | object _ _ ihmembers ihadditional =>
    cases hw with
    | object hmembers hadditional =>
      simp only [Json.same, Json.sameMembers, List.lookup_cons, BEq.rfl, Bool.and_true,
        Bool.and_eq_true] at h
      rw [ihmembers hmembers h.2.1, ihadditional hadditional h.2.2]
    | _ => simp [Json.same] at h
  | number n =>
    cases hw with
    | number m =>
      simp only [Json.ofNat, Json.same, Number.same, beq_iff_eq] at h
      rw [Int.ofNat_inj.1 h]
  | cases l =>
    cases hw with
    | cases k =>
      refine congrArg Json.array (Json.eq_of_same_array h fun v hv w hw hsame => ?_)
      obtain ⟨s, -, rfl⟩ := List.mem_map.1 hv
      obtain ⟨t, -, rfl⟩ := List.mem_map.1 hw
      rw [Json.same, beq_iff_eq] at hsame
      rw [hsame]
  | @properties members hkeys _ ih =>
    cases hw with
    | @properties other hkeys' hother =>
      obtain ⟨hlength, hmem⟩ := Json.same_object h
      refine congrArg Json.object (members_eq_of_same (hnodup _ hkeys) (hnodup _ hkeys')
        (hK _ _ hkeys hkeys') hlength fun m hm => ?_)
      obtain ⟨w, hin, hsame⟩ := hmem m hm
      have heq : m = (m.1, w) := Prod.ext rfl (ih m hm (hother _ hin) hsame)
      exact heq ▸ hin
  | arms _ _ ih =>
    cases hw with
    | arms _ hother =>
      exact congrArg Json.array
        (Json.eq_of_same_array h fun v hv w hw hsame => ih v hv (hother w hw) hsame)

/-- Names of properties come with whether the property may be absent. No name that does, with `?`
behind it, is one that does not. -/
def NamesApart (names : Set (String × Bool)) : Prop :=
  ∀ k, (k, true) ∈ names → (k ++ "?", false) ∉ names

/-- The keys are those under which properties with some of these names are shown, in the order of
the names. -/
def Spelled (names : Set (String × Bool)) (ks : List String) : Prop :=
  ∃ l : List (String × Bool), (∀ e ∈ l, e ∈ names) ∧
    (l.Pairwise fun a b => compare a.1 b.1 = .lt) ∧ ks = l.map fun e => Graph.spelling e.1 e.2

variable {names : Set (String × Bool)}

theorem NamesApart.mono {names' : Set (String × Bool)} (h : NamesApart names)
    (hsub : names' ⊆ names) : NamesApart names' := fun k hk hk' => h k (hsub hk) (hsub hk')

theorem namesApart_singleton (e : String × Bool) : NamesApart {e} := by
  intro k hk hk'
  have hboth := (Set.mem_singleton_iff.1 hk).trans (Set.mem_singleton_iff.1 hk').symm
  cases congrArg Prod.snd hboth

/-- A key tells the name of the property, and whether it may be absent. -/
theorem NamesApart.spelling_inj (h : NamesApart names) {a b : String × Bool} (ha : a ∈ names)
    (hb : b ∈ names) (heq : Graph.spelling a.1 a.2 = Graph.spelling b.1 b.2) : a = b := by
  obtain ⟨k, o⟩ := a
  obtain ⟨k', o'⟩ := b
  cases o <;> cases o'
  · exact congrArg (·, false) heq
  · have hmarked : k = k' ++ "?" := heq
    exact absurd (hmarked ▸ ha) (h k' hb)
  · have hmarked : k ++ "?" = k' := heq
    exact absurd (hmarked ▸ hb) (h k ha)
  · have htexts : k ++ "?" = k' ++ "?" := heq
    rw [← String.toList_inj, String.toList_append, String.toList_append] at htexts
    exact congrArg (·, true) (String.toList_inj.1 (List.append_cancel_right htexts))

theorem Spelled.nodup (h : NamesApart names) {ks : List String} (hks : Spelled names ks) :
    ks.Nodup := by
  obtain ⟨l, hl, hsorted, rfl⟩ := hks
  refine List.pairwise_map.2 (hsorted.imp_of_mem fun {a b} ha hb hlt heq => ?_)
  rw [h.spelling_inj (hl a ha) (hl b hb) heq, Std.ReflOrd.compare_self] at hlt
  cases hlt

theorem tellsOrder_spelled (h : NamesApart names) : TellsOrder (Spelled names) := by
  rintro _ _ ⟨l, hl, hsorted, rfl⟩ ⟨l', hl', hsorted', rfl⟩ hperm
  -- The order of names is one of keys, as the keys tell the names.
  let before (k k' : String) : Prop := ∃ a b : String × Bool, (a ∈ names ∧ b ∈ names) ∧
    (k = Graph.spelling a.1 a.2 ∧ k' = Graph.spelling b.1 b.2) ∧ compare a.1 b.1 = .lt
  have hpairwise : ∀ l : List (String × Bool), (∀ e ∈ l, e ∈ names) →
      (l.Pairwise fun a b => compare a.1 b.1 = .lt) →
      (l.map fun e => Graph.spelling e.1 e.2).Pairwise before := fun l hl hsorted =>
    List.pairwise_map.2 (hsorted.imp_of_mem fun {a b} ha hb hlt =>
      ⟨a, b, ⟨hl a ha, hl b hb⟩, ⟨rfl, rfl⟩, hlt⟩)
  refine List.Perm.eq_of_pairwise (fun k k' _ _ hkk' hk'k => ?_) (hpairwise l hl hsorted)
    (hpairwise l' hl' hsorted') hperm
  obtain ⟨a, b, ⟨ha, hb⟩, ⟨hka, hkb⟩, hlt⟩ := hkk'
  obtain ⟨b', a', ⟨hb', ha'⟩, ⟨hkb', hka'⟩, hlt'⟩ := hk'k
  rw [h.spelling_inj ha' ha (hka'.symm.trans hka),
    h.spelling_inj hb' hb (hkb'.symm.trans hkb)] at hlt'
  have hboth := Std.TransCmp.lt_trans hlt hlt'
  rw [Std.ReflOrd.compare_self] at hboth
  cases hboth

end Description

/-! ### Descriptions have the form -/

namespace Json

theorem setMember_of_notMem {key : String} (v : Json) {members : List (String × Json)}
    (h : key ∉ members.map (·.1)) : setMember key v members = members ++ [(key, v)] := by
  induction members with
  | nil => rfl
  | cons m members ih =>
    rw [List.map_cons, List.mem_cons, not_or] at h
    rw [setMember, if_neg (Ne.symm h.1), ih h.2, List.cons_append]

section Fold

variable {α : Type} (key : α → String) (value : α → Json)

theorem nodup_foldl_setMember (l : List α) :
    ((l.foldl (fun members a => setMember (key a) (value a) members) []).map (·.1)).Nodup := by
  induction l using List.reverseRecOn with
  | nil => exact List.nodup_nil
  | append_singleton l a ih =>
    rw [List.foldl_append, List.foldl_cons, List.foldl_nil, keys_setMember]
    split
    · exact ih
    · next hnew =>
      refine List.nodup_append.2 ⟨ih, List.nodup_singleton _, fun k hk k' hk' heq => hnew ?_⟩
      rwa [← List.mem_singleton.1 hk', ← heq]

theorem forall_foldl_setMember {P : Json → Prop} {l : List α} (h : ∀ a ∈ l, P (value a)) :
    ∀ m ∈ l.foldl (fun members a => setMember (key a) (value a) members) [], P m.2 := by
  induction l using List.reverseRecOn with
  | nil => exact nofun
  | append_singleton l a ih =>
    obtain ⟨hl, ha⟩ := List.forall_mem_append.1 h
    rw [List.foldl_append, List.foldl_cons, List.foldl_nil]
    exact forall_setMember (ha a (List.mem_singleton_self a)) (ih hl)

/-- Members with different keys are all there. -/
theorem foldl_setMember {l : List α} (h : (l.map key).Nodup) :
    l.foldl (fun members a => setMember (key a) (value a) members) [] =
      l.map fun a => (key a, value a) := by
  induction l using List.reverseRecOn with
  | nil => rfl
  | append_singleton l a ih =>
    rw [List.map_append, List.map_singleton, List.nodup_append] at h
    obtain ⟨hl, -, hnew⟩ := h
    rw [List.foldl_append, List.foldl_cons, List.foldl_nil, ih hl, setMember_of_notMem,
      List.map_append, List.map_singleton]
    rw [List.map_map]
    exact fun ha => hnew _ ha _ (List.mem_singleton_self _) rfl

end Fold

end Json

/-- The properties of a record or object. -/
def Shape.properties? : Shape → Option (SortedMap String Property)
  | .record p => some p
  | .object p _ => some p
  | _ => none

/-- The names of properties, each with whether the property may be absent. -/
def markedNames (p : SortedMap String Property) : List (String × Bool) :=
  p.entries.map fun e => (e.1, e.2.optional)

namespace Graph

open Description

variable {g : Graph} {stack : List NodeId} {t : NodeId} {v : Json} {K : List String → Prop}

/-- The names of the properties of everything that is reached from the type, each with whether the
property may be absent. -/
def propertyNames (g : Graph) (t : NodeId) : Set (String × Bool) :=
  {e | ∃ u p, g.Reaches t u ∧ (g.shape u).properties? = some p ∧ e ∈ markedNames p}

theorem Reaches.propertyNames {u : NodeId} (h : g.Reaches t u) :
    g.propertyNames u ⊆ g.propertyNames t := by
  rintro e ⟨w, p, hw, hp, he⟩
  exact ⟨w, p, h.trans hw, hp, he⟩

theorem form_shownAs (hnodup : ∀ ks, K ks → ks.Nodup) {s : Shape} {value : NodeId → Json}
    (hkeys : ∀ p, s.properties? = some p → K ((shownProperties value p).map (·.1)))
    (hparts : ∀ u ∈ s.parts, Form K .type (value u)) : Form K .type (shownAs t value s) := by
  have hproperties : ∀ p : SortedMap String Property,
      (∀ u ∈ p.values.map Property.type, Form K .type (value u)) →
        ∀ m ∈ shownProperties value p, Form K .type m.2 := fun p hp =>
    Json.forall_foldl_setMember _ _ fun e he => hp _ (List.mem_map_of_mem (List.mem_map_of_mem he))
  cases s with
  | primitive kind => exact .text _
  | enumeration cases => exact .tagged rfl (.cases _)
  | array items | map values => exact .tagged rfl (hparts _ (List.mem_singleton_self _))
  | record p => exact .tagged rfl (.properties (hkeys p rfl) (hproperties p hparts))
  | object p additional =>
    obtain ⟨hp, hadditional⟩ := List.forall_mem_append.1 hparts
    refine .object (.properties (hkeys p rfl) (hproperties p hp)) ?_
    cases additional with
    | none => exact .null
    | some a => exact hadditional a (List.mem_singleton_self a)
  | union members | intersection members =>
    cases members with
    | none => exact .tagged rfl (.number t)
    | some members => exact .collapseArms hnodup rfl (List.forall_mem_map.2 hparts)

/-- Everything that is shown has the form of a description. -/
theorem Shows.form (hnodup : ∀ ks, K ks → ks.Nodup) (h : g.Shows stack t v)
    (hkeys : ∀ u p, g.Reaches t u → (g.shape u).properties? = some p →
      ∀ value, K ((shownProperties value p).map (·.1))) : Form K .type v := by
  induction h with
  | again _ => exact .tagged rfl (.number _)
  | union arms _ hshape hleaves _ ih =>
    refine .collapseArms hnodup rfl (List.forall_mem_map.2 fun e he => ih e he fun u p hu => ?_)
    have hreaches := hleaves.reaches (fun m hm => Reaches.part .refl (by rw [hshape]; exact hm))
      e.1 (List.mem_map_of_mem he)
    exact hkeys u p (hreaches.trans hu)
  | other value _ _ _ ih =>
    refine form_shownAs hnodup (fun p hp => hkeys _ p .refl hp value) fun u hu => ih u hu ?_
    exact fun w p hw => hkeys w p (.of_part hu hw)

/-- No description repeats a key. -/
theorem Shows.form_nodup (h : g.Shows stack t v) : Form List.Nodup .type v :=
  h.form (fun _ hks => hks) fun _ _ _ _ _ => Json.nodup_foldl_setMember _ _ _

theorem Shows.legible (h : g.Shows stack t v) : v.Legible := h.form_nodup.legible

section Apart

variable {names : Set (String × Bool)} (hapart : NamesApart names) {p : SortedMap String Property}

theorem spelled_entries (hp : ∀ e ∈ markedNames p, e ∈ names) :
    Spelled names (p.entries.map fun e => spelling e.1 e.2.optional) := by
  refine ⟨markedNames p, hp, List.pairwise_map.2 p.sorted, ?_⟩
  rw [markedNames, List.map_map]
  rfl

include hapart

/-- Every property is shown. -/
theorem shownProperties_eq (hp : ∀ e ∈ markedNames p, e ∈ names) (value : NodeId → Json) :
    shownProperties value p =
      p.entries.map fun e => (spelling e.1 e.2.optional, value e.2.type) :=
  Json.foldl_setMember _ _ ((spelled_entries hp).nodup hapart)

theorem Shows.form_spelled (h : g.Shows stack t v) (hnames : g.propertyNames t ⊆ names) :
    Form (Spelled names) .type v := by
  refine h.form (fun _ hks => hks.nodup hapart) fun u p hu hp value => ?_
  have hin : ∀ e ∈ markedNames p, e ∈ names := fun e he => hnames ⟨u, p, hu, hp, he⟩
  rw [shownProperties_eq hapart hin, List.map_map]
  exact spelled_entries hin

end Apart

end Graph

end JsonTyping
