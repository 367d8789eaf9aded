import JsonTyping.Proofs.InferenceSoundness
import JsonTyping.Proofs.Rearranged

/-!
# The order of samples does not matter

`Json.Reordered` relates values that differ in the order of the items of arrays and of the members
of objects, at any depth. What alike lists of such values show is the same, so the inference does
the same on them (`Inference.ofSightings_eq`), and collections of rearranged samples are solved with
the same outcome (`Collection.solve_eq_of_rearranged`). Where strings are not made enumerations, not
even the number of samples matters. This is the order-independence of SPEC_FULL.md §8.
-/

namespace JsonTyping

/-- The values differ at most in the order of items and members, at any depth. -/
inductive Json.Reordered : Json → Json → Prop
  | same (v : Json) : Reordered v v
  | array {xs zs ys : List Json} :
    xs.Perm zs → List.Forall₂ Reordered zs ys → Reordered (.array xs) (.array ys)
  | object {ms ns ks : List (String × Json)} :
    ms.Perm ns → ns.map (·.1) = ks.map (·.1) →
      List.Forall₂ Reordered (ns.map (·.2)) (ks.map (·.2)) → Reordered (.object ms) (.object ks)

namespace Sighting

def ReorderedMember (m n : String × Json) : Prop := m.1 = n.1 ∧ m.2.Reordered n.2

def Reordered (x y : Sighting) : Prop := x.isTarget = y.isTarget ∧ x.value.Reordered y.value

theorem forall₂_reorderedMember {ms ns : List (String × Json)}
    (hkeys : ms.map (·.1) = ns.map (·.1))
    (hvalues : List.Forall₂ Json.Reordered (ms.map (·.2)) (ns.map (·.2))) :
    List.Forall₂ ReorderedMember ms ns := by
  induction ms generalizing ns with
  | nil =>
    cases ns with
    | nil => exact .nil
    | cons n ns => cases hkeys
  | cons m ms ih =>
    cases ns with
    | nil => cases hkeys
    | cons n ns =>
      obtain ⟨hkey, hkeys⟩ := List.cons.inj hkeys
      cases hvalues with
      | cons hvalue hvalues => exact .cons ⟨hkey, hvalue⟩ (ih hkeys hvalues)

section Shown

variable {settings : Settings} {x y : Sighting}

theorem Reordered.eq_or (h : Reordered x y) :
    x = y ∨ (∃ xs ys, x.value = .array xs ∧ y.value = .array ys ∧ Shuffled Json.Reordered xs ys) ∨
      ∃ ms ns, x.value = .object ms ∧ y.value = .object ns ∧ Shuffled ReorderedMember ms ns := by
  obtain ⟨isTarget, v⟩ := x
  obtain ⟨isTarget', w⟩ := y
  obtain ⟨htarget, hvalue⟩ := h
  change isTarget = isTarget' at htarget
  subst htarget
  cases hvalue with
  | same => exact .inl rfl
  | array hperm hitems => exact .inr (.inl ⟨_, _, rfl, rfl, _, hperm, hitems⟩)
  | object hperm hkeys hvalues =>
    exact .inr (.inr ⟨_, _, rfl, rfl, _, hperm, forall₂_reorderedMember hkeys hvalues⟩)

/-- Whatever is no different for arrays and for objects is the same for reordered values. -/
theorem Reordered.congr {α : Type} (h : Reordered x y) {f : Sighting → α} {a : α}
    (harray : ∀ t vs, f ⟨t, .array vs⟩ = a) (hobject : ∀ t ms, f ⟨t, .object ms⟩ = a) :
    f x = f y := by
  rcases h.eq_or with rfl | ⟨xs, ys, hx, hy, -⟩ | ⟨ms, ns, hx, hy, -⟩
  · rfl
  · obtain ⟨t, v⟩ := x
    obtain ⟨t', w⟩ := y
    obtain rfl : v = .array xs := hx
    obtain rfl : w = .array ys := hy
    rw [harray, harray]
  · obtain ⟨t, v⟩ := x
    obtain ⟨t', w⟩ := y
    obtain rfl : v = .object ms := hx
    obtain rfl : w = .object ns := hy
    rw [hobject, hobject]

theorem Reordered.members? (h : Reordered x y) :
    Option.Rel (Shuffled ReorderedMember) x.members? y.members? := by
  rcases h.eq_or with rfl | ⟨xs, ys, hx, hy, -⟩ | ⟨ms, ns, hx, hy, hmembers⟩
  · cases x.members? with
    | none => exact .none
    | some ms =>
      exact .some (.of_forall₂ (List.forall₂_same.2 fun m _ => ⟨rfl, .same m.2⟩))
  · simp only [Sighting.members?, hx, hy]
    exact .none
  · simp only [Sighting.members?, hx, hy]
    exact .some hmembers

theorem Reordered.items? (h : Reordered x y) :
    Option.Rel (Shuffled Json.Reordered) x.items? y.items? := by
  rcases h.eq_or with rfl | ⟨xs, ys, hx, hy, hitems⟩ | ⟨ms, ns, hx, hy, -⟩
  · cases x.items? with
    | none => exact .none
    | some vs => exact .some (.of_forall₂ (List.forall₂_same.2 fun v _ => .same v))
  · simp only [Sighting.items?, Json.items?, hx, hy]
    exact .some hitems
  · simp only [Sighting.items?, Json.items?, hx, hy]
    exact .none

end Shown

variable {settings : Settings}

theorem unify_congr {e e' : Evidence}
    (h : { e with literalCount := 0 } = { e' with literalCount := 0 })
    (hzero : e.literalCount = 0 ↔ e'.literalCount = 0)
    (hcount : settings.inferEnums = true → e.literalCount = e'.literalCount) :
    e.unify settings = e'.unify settings := by
  obtain ⟨null, bool, integer, double, literals, n, unrestricted, formats, objects, arrays⟩ := e
  obtain ⟨null', bool', integer', double', literals', n', unrestricted', formats', objects',
    arrays'⟩ := e'
  cases h
  cases henums : settings.inferEnums with
  | true =>
    obtain rfl : n = n' := hcount henums
    rfl
  | false =>
    have hzero' : n = 0 ↔ n' = 0 := hzero
    simp only [Evidence.unify, Evidence.texts, Evidence.isEnumeration, henums, Bool.false_and,
      Bool.false_eq_true, if_false, hzero']

theorem rangeless_formats (xs : List Sighting) :
    ∀ e ∈ xs.filterMap (format? settings), e.2.Rangeless := by
  intro e he
  obtain ⟨x, -, hx⟩ := List.mem_filterMap.1 he
  unfold format? at hx
  split at hx
  · next s _ =>
    split at hx
    · cases hx
    · obtain ⟨f, -, rfl⟩ := Option.map_eq_some_iff.1 hx
      exact f.rangeless_traits s
  · cases hx

theorem unify_evidence_eq {xs ys : List Sighting}
    (h : Alike settings.inferEnums Reordered xs ys) :
    (evidence settings xs).unify settings = (evidence settings ys).unify settings := by
  have hany : ∀ p : Json → Bool, (∀ vs, p (.array vs) = false) → (∀ ms, p (.object ms) = false) →
      xs.any (fun x => p x.value) = ys.any fun y => p y.value := fun p harray hobject =>
    h.1.any_eq fun x y hxy =>
      hxy.congr (f := fun x => p x.value) (fun _ vs => harray vs) fun _ ms => hobject ms
  have hliterals := h.filterMap_eq (f := literal? settings) (g := literal? settings)
    fun x y hxy => hxy.congr (fun _ _ => rfl) fun _ _ => rfl
  have hformats := h.filterMap_eq (f := format? settings) (g := format? settings)
    fun x y hxy => hxy.congr (fun _ _ => rfl) fun _ _ => rfl
  have hdropped : xs.any (isDropped settings) = ys.any (isDropped settings) :=
    h.1.any_eq fun x y hxy => hxy.congr (fun _ _ => rfl) fun _ _ => rfl
  have hset : SortedSet.ofList (xs.filterMap (literal? settings)) =
      SortedSet.ofList (ys.filterMap (literal? settings)) :=
    SortedSet.ext_mem fun s => by
      rw [SortedSet.mem_ofList, SortedSet.mem_ofList, hliterals.1.mem_iff]
  have hgather : gather (xs.filterMap (format? settings)) =
      gather (ys.filterMap (format? settings)) :=
    gather_eq_of_mem_iff (rangeless_formats xs) hformats.1.mem_iff
  refine unify_congr ?_ ?_ fun henums => (hliterals.2 henums).length_eq
  · simp only [evidence, hany Json.isNull (fun _ => rfl) fun _ => rfl,
      hany Json.isBool (fun _ => rfl) fun _ => rfl, hany Json.isInteger (fun _ => rfl) fun _ => rfl,
      hany Json.isDouble (fun _ => rfl) fun _ => rfl, hset, hgather, hdropped]
  · simp only [evidence, List.length_eq_zero_iff, ← List.isEmpty_iff, hliterals.1.isEmpty_eq]

/-! ### Alike objects -/

theorem target?_of_shuffled {ms ns : List (String × Json)} (h : Shuffled ReorderedMember ms ns) :
    target? ms = target? ns := by
  have hnone : ∀ k v, (∀ s, v ≠ .string s) → target? [(k, v)] = none := by
    intro k v hv
    unfold target?
    split
    · next s heq =>
      cases heq
      exact absurd rfl (hv s)
    · rfl
  have harray : ∀ k vs, target? [(k, .array vs)] = none := fun k vs => hnone k (.array vs) (by simp)
  have hobject : ∀ k ms, target? [(k, .object ms)] = none := fun k ms =>
    hnone k (.object ms) (by simp)
  have hlong : ∀ ms : List (String × Json), ms.length ≠ 1 → target? ms = none := by
    intro ms hlength
    unfold target?
    split
    · exact absurd rfl hlength
    · rfl
  by_cases hlength : ms.length = 1
  · obtain ⟨m, rfl⟩ := List.length_eq_one_iff.1 hlength
    obtain ⟨zs, hperm, hzs⟩ := h
    obtain rfl := List.perm_singleton.1 hperm.symm
    obtain ⟨n, rest, ⟨hkey, hvalue⟩, hrest, rfl⟩ := List.forall₂_cons_left_iff.1 hzs
    obtain rfl := List.forall₂_nil_left_iff.1 hrest
    obtain ⟨k, v⟩ := m
    obtain ⟨k', w⟩ := n
    obtain rfl : k = k' := hkey
    cases hvalue with
    | same => rfl
    | array => rw [harray, harray]
    | object => rw [hobject, hobject]
  · rw [hlong ms hlength, hlong ns (h.length_eq ▸ hlength)]

theorem mapM_target?_eq (objects : List (List (String × Json))) :
    objects.mapM target? =
      if objects.any fun ms => (target? ms).isNone then none
      else some (objects.filterMap target?) := by
  induction objects with
  | nil => rfl
  | cons ms objects ih =>
    rw [List.mapM_cons, ih]
    cases hms : target? ms with
    | none => simp [hms]
    | some s =>
      cases hany : objects.any fun ms => (target? ms).isNone with
      | true => simp [hms, hany]
      | false => simp [hms, hany]

theorem isOptional_eq_any (objects : List (List (String × Json))) (key : String) :
    isOptional objects key = objects.any fun ms => !ms.any fun m => m.1 == key := by
  have hle := List.countP_le_length (p := fun ms : List (String × Json) => ms.any (·.1 == key))
    (l := objects)
  have hall := List.countP_eq_length (p := fun ms : List (String × Json) => ms.any (·.1 == key))
    (l := objects)
  rw [Bool.eq_iff_iff, isOptional, decide_eq_true_iff, List.any_eq_true]
  constructor
  · intro hlt
    have hne : ¬ ∀ ms ∈ objects, ms.any (·.1 == key) = true := fun h => by
      have heq := hall.2 h
      omega
    obtain ⟨ms, hms⟩ := Classical.not_forall.1 hne
    obtain ⟨hmem, hlacks⟩ := Classical.not_imp.1 hms
    exact ⟨ms, hmem, by rw [Bool.eq_false_iff.2 hlacks]; rfl⟩
  · rintro ⟨ms, hms, hlacks⟩
    have hne : ¬ objects.countP (fun ms => ms.any (·.1 == key)) = objects.length := fun heq => by
      have hhas := hall.1 heq ms hms
      rw [hhas] at hlacks
      cases hlacks
    omega

section Objects

variable {objects objects' : List (List (String × Json))}
  (h : Alike settings.inferEnums (Shuffled ReorderedMember) objects objects')

include h

theorem keys_eq_of_alike : keys objects = keys objects' := by
  have hkeys : Alike settings.inferEnums Eq (objects.flatMap fun ms => ms.map (·.1))
      (objects'.flatMap fun ms => ms.map (·.1)) :=
    h.flatMap fun ms ns hms => hms.alike.map fun m n hm => hm.1
  refine SortedSet.ext_mem fun k => ?_
  rw [keys, keys, SortedSet.mem_ofList, SortedSet.mem_ofList, hkeys.1.mem_iff]

theorem isMap_eq_of_alike : isMap settings objects = isMap settings objects' := by
  rw [isMap, isMap, keys_eq_of_alike h]

theorem isOptional_eq_of_alike (key : String) :
    isOptional objects key = isOptional objects' key := by
  rw [isOptional_eq_any, isOptional_eq_any]
  refine h.1.any_eq fun ms ns hms => congrArg not ?_
  exact hms.covers.any_eq fun m n hm => by rw [hm.1]

theorem under_alike (key : String) :
    Alike settings.inferEnums Reordered (under settings objects key)
      (under settings objects' key) := by
  refine h.flatMap fun ms ns hms => hms.alike.filterMap fun m n hm => ?_
  obtain ⟨hkey, hvalue⟩ := hm
  rw [hkey]
  split
  · exact .some ⟨by rw [ofMember, ofMember, hkey], hvalue⟩
  · exact .none

theorem allValues_alike :
    Alike settings.inferEnums Reordered (allValues settings objects)
      (allValues settings objects') := by
  have hsame : Alike settings.inferEnums Eq (keys objects).toList (keys objects').toList := by
    rw [keys_eq_of_alike h]
    exact (Shuffled.of_forall₂ (List.forall₂_same.2 fun _ _ => rfl)).alike
  exact hsame.flatMap fun k k' hk => hk ▸ under_alike h k

theorem targets?_eq_of_alike : targets? settings objects = targets? settings objects' := by
  have htargets := h.filterMap_eq (f := target?) (g := target?) fun _ _ => target?_of_shuffled
  have hany : (objects.any fun ms => (target? ms).isNone) =
      objects'.any fun ms => (target? ms).isNone :=
    h.1.any_eq fun ms ns hms => by rw [target?_of_shuffled hms]
  have hset : SortedSet.ofList (objects.filterMap target?) =
      SortedSet.ofList (objects'.filterMap target?) :=
    SortedSet.ext_mem fun s => by
      rw [SortedSet.mem_ofList, SortedSet.mem_ofList, htargets.1.mem_iff]
  simp only [targets?, h.1.isEmpty_eq, mapM_target?_eq, hany]
  split
  · split
    · rfl
    · split
      · rfl
      · simp only [Option.map_some, hset]
  · rfl

end Objects

end Sighting

namespace Inference

open Sighting

/-! ### The same inference -/

section SameInference

variable {settings : Settings} {infer infer' : List Sighting → Attributes → StateM Inference NodeId}
  (reached reached' : Json → Prop)
  (hinfer : ∀ xs ys a, Alike settings.inferEnums Reordered xs ys →
    (∀ x ∈ xs, reached x.value) → (∀ y ∈ ys, reached' y.value) → infer xs a = infer' ys a)

include hinfer

theorem ofArrays_eq {arrays arrays' : List (List Json)}
    (h : Alike settings.inferEnums (Shuffled Json.Reordered) arrays arrays')
    (hreached : ∀ items ∈ arrays, ∀ v ∈ items, reached v)
    (hreached' : ∀ items ∈ arrays', ∀ v ∈ items, reached' v) (a : Attributes) :
    ofArrays infer arrays a = ofArrays infer' arrays' a := by
  have hitems : Alike settings.inferEnums Reordered (Sighting.ofArrays arrays)
      (Sighting.ofArrays arrays') := by
    have hflat := h.flatMap (f := id) (g := id) fun xs ys hxy => hxy.alike
    rw [List.flatMap_id, List.flatMap_id] at hflat
    exact hflat.map fun v w hvw => ⟨rfl, hvw⟩
  have hall : ∀ {p : Json → Prop} {l : List (List Json)}, (∀ items ∈ l, ∀ v ∈ items, p v) →
      ∀ x ∈ Sighting.ofArrays l, p x.value := by
    intro p l hl x hx
    obtain ⟨v, hv, rfl⟩ := List.mem_map.1 hx
    obtain ⟨items, hmem, hv⟩ := List.mem_flatten.1 hv
    exact hl items hmem v hv
  rw [ofArrays, ofArrays, hinfer _ _ _ hitems (hall hreached) (hall hreached')]

theorem ofObjects_eq {objects objects' : List (List (String × Json))}
    (h : Alike settings.inferEnums (Shuffled ReorderedMember) objects objects')
    (hreached : ∀ ms ∈ objects, ∀ m ∈ ms, reached m.2)
    (hreached' : ∀ ms ∈ objects', ∀ m ∈ ms, reached' m.2) (a : Attributes) :
    ofObjects settings infer objects a = ofObjects settings infer' objects' a := by
  have hunder : ∀ {p : Json → Prop} {l : List (List (String × Json))},
      (∀ ms ∈ l, ∀ m ∈ ms, p m.2) → ∀ key, ∀ x ∈ under settings l key, p x.value := by
    intro p l hl key x hx
    obtain ⟨ms, hms, hx⟩ := List.mem_flatMap.1 hx
    obtain ⟨m, hm, hx⟩ := List.mem_filterMap.1 hx
    split at hx
    · obtain rfl := Option.some.inj hx
      exact hl ms hms m hm
    · cases hx
  have hall : ∀ {p : Json → Prop} {l : List (List (String × Json))},
      (∀ ms ∈ l, ∀ m ∈ ms, p m.2) → ∀ x ∈ allValues settings l, p x.value := by
    intro p l hl x hx
    obtain ⟨key, -, hx⟩ := List.mem_flatMap.1 hx
    exact hunder hl key x hx
  have hvalues := hinfer _ _ .empty (allValues_alike h) (hall hreached) (hall hreached')
  have hproperties : ∀ keys,
      ofProperties settings infer objects keys = ofProperties settings infer' objects' keys := by
    intro keys
    refine congrArg (List.mapM · keys) (funext fun key => ?_)
    rw [hinfer _ _ _ (under_alike h key) (hunder hreached key) (hunder hreached' key),
      isOptional_eq_of_alike h]
  simp only [ofObjects, targets?_eq_of_alike h, isMap_eq_of_alike h, keys_eq_of_alike h, hvalues,
    hproperties]

end SameInference

theorem whenAny_eq {α : Type} {xs ys : List α}
    {type type' : List α → Attributes → StateM Inference NodeId} (hempty : xs.isEmpty = ys.isEmpty)
    (h : ∀ a, type xs a = type' ys a) : whenAny xs type = whenAny ys type' := by
  simp only [whenAny, hempty, h]

theorem ofSightings_nil (settings : Settings) (fuel : Nat) (a : Attributes) :
    ofSightings settings fuel [] a = onGraph (·.share (.primitive .none) .empty) := by
  cases fuel with
  | zero => rfl
  | succ fuel => rfl

/-- The inference does the same on alike values, however deep it might go. -/
theorem ofSightings_eq (settings : Settings) {fuel fuel' : Nat} {xs ys : List Sighting}
    (h : Alike settings.inferEnums Reordered xs ys) (hxs : ∀ x ∈ xs, x.value.depth < fuel)
    (hys : ∀ y ∈ ys, y.value.depth < fuel') (a : Attributes) :
    ofSightings settings fuel xs a = ofSightings settings fuel' ys a := by
  have hnil : ∀ {l : List Sighting}, (∀ x ∈ l, x.value.depth < 0) → l = [] := fun hl =>
    List.eq_nil_iff_forall_not_mem.2 fun x hx => Nat.not_lt_zero _ (hl x hx)
  have hempty := h.1.isEmpty_eq
  -- Alike lists may differ in depth, so each has its own fuel; when one is used up, both are empty.
  induction fuel generalizing fuel' xs ys a with
  | zero =>
    obtain rfl := hnil hxs
    obtain rfl := List.isEmpty_iff.1 hempty.symm
    rw [ofSightings_nil, ofSightings_nil]
  | succ fuel ih =>
    cases fuel' with
    | zero =>
      obtain rfl := hnil hys
      obtain rfl := List.isEmpty_iff.1 hempty
      rw [ofSightings_nil, ofSightings_nil]
    | succ fuel' =>
      have hobjects : Alike settings.inferEnums (Shuffled ReorderedMember) (objects xs)
          (objects ys) := h.filterMap fun x y hxy => hxy.members?
      have harrays : Alike settings.inferEnums (Shuffled Json.Reordered) (arrays xs)
          (arrays ys) := h.filterMap fun x y hxy => hxy.items?
      have hinfer : ∀ us vs a, Alike settings.inferEnums Reordered us vs →
          (∀ x ∈ us, x.value.depth < fuel) → (∀ y ∈ vs, y.value.depth < fuel') →
          ofSightings settings fuel us a = ofSightings settings fuel' vs a :=
        fun us vs a huv hus hvs => ih huv hus hvs a huv.1.isEmpty_eq
      have hobject := ofObjects_eq (·.depth < fuel) (·.depth < fuel')
        hinfer hobjects (depth_lt_of_mem_objects hxs) (depth_lt_of_mem_objects hys)
      have harray := ofArrays_eq (·.depth < fuel) (·.depth < fuel')
        hinfer harrays (depth_lt_of_mem_arrays hxs) (depth_lt_of_mem_arrays hys)
      rw [ofSightings, ofSightings, unify_evidence_eq h,
        whenAny_eq hobjects.1.isEmpty_eq hobject, whenAny_eq harrays.1.isEmpty_eq harray]

end Inference

namespace Collection

/-- The samples are the same but for the order of samples, of items and of members. -/
def Rearranged (values values' : List Json) : Prop := Shuffled Json.Reordered values values'

/-- The samples are the same but for the orders and for how often each comes. -/
def SameSamples (values values' : List Json) : Prop := Covers Json.Reordered values values'

/-- Rearranged samples are solved with the same outcome and the same graph. Without enumerations it
does not even matter how often each sample comes. -/
theorem solve_eq_of_rearranged {settings : Settings} {values values' : List Json}
    {c d : Collection} (hc : Observed settings values c) (hd : Observed settings values' d)
    (h : Rearranged values values' ∨
      settings.inferEnums = false ∧ SameSamples values values') (graph : Graph) (name : String) :
    c.solve graph name = d.solve graph name := by
  have halike : Alike settings.inferEnums Json.Reordered values values' := by
    rcases h with hrearranged | ⟨henums, hsame⟩
    · exact Shuffled.alike hrearranged
    · exact ⟨hsame, fun hcounts => absurd (hcounts.symm.trans henums) nofun⟩
  have hsightings : Alike settings.inferEnums Sighting.Reordered
      (values.map fun v => (⟨false, v⟩ : Sighting)) (values'.map fun v => ⟨false, v⟩) :=
    halike.map fun v w hvw => ⟨rfl, hvw⟩
  have hdepth : ∀ {l : List Json} {e : Collection}, Keeps settings l e →
      ∀ x ∈ l.map (fun v => (⟨false, v⟩ : Sighting)),
        x.value.depth < e.recorder.table.rows + 1 := by
    intro l e hkeeps x hx
    obtain ⟨v, hv, rfl⟩ := List.mem_map.1 hx
    exact Nat.lt_succ_of_le (hkeeps.depth v hv)
  have htype := Inference.ofSightings_eq settings hsightings (hdepth hc.keeps) (hdepth hd.keeps)
    (.givenName name)
  have hempty : c.roots.isEmpty = d.roots.isEmpty := by
    rw [Table.isEmpty_eq_of_forall₂ hc.keeps.roots, Table.isEmpty_eq_of_forall₂ hd.keeps.roots,
      halike.1.isEmpty_eq]
  simp only [solve, hempty, hc.keeps.typeOf_eq, hd.keeps.typeOf_eq, htype]

theorem solve_eq_of_swapped :
    ∃ c d,
      Observed {} [.string "x", .object [("a", .null), ("b", .array [.null, .bool true])]] c ∧
      Observed {} [.object [("b", .array [.bool true, .null]), ("a", .null)], .string "x"] d ∧
      c.solve .empty "T" = d.solve .empty "T" := by
  obtain ⟨c, -, hc⟩ := exists_observed {}
    [.string "x", .object [("a", .null), ("b", .array [.null, .bool true])]]
  obtain ⟨d, -, hd⟩ := exists_observed {}
    [.object [("b", .array [.bool true, .null]), ("a", .null)], .string "x"]
  have hitems : Json.Reordered (.array [.null, .bool true]) (.array [.bool true, .null]) :=
    .array (.swap _ _ _) (.cons (.same _) (.cons (.same _) .nil))
  have hmembers : Json.Reordered (.object [("a", .null), ("b", .array [.null, .bool true])])
      (.object [("b", .array [.bool true, .null]), ("a", .null)]) :=
    .object (.swap _ _ _) rfl (.cons hitems (.cons (.same _) .nil))
  have hsamples : Rearranged
      [.string "x", .object [("a", .null), ("b", .array [.null, .bool true])]]
      [.object [("b", .array [.bool true, .null]), ("a", .null)], .string "x"] :=
    ⟨_, .swap _ _ _, .cons hmembers (.cons (.same _) .nil)⟩
  exact ⟨c, d, hc, hd, solve_eq_of_rearranged hc hd (.inl hsamples) .empty "T"⟩

end Collection

end JsonTyping
