import JsonTyping.Proofs.TreeInstances
import Mathlib.Data.List.Perm.Subperm

/-!
# More samples

Where strings do not become enumerations, the type of more values has every value that the type of
fewer has (`TypeTree.has_ofValues_of_subset`): numbers get wider, formats turn into strings,
properties become optional and records become maps, all at every depth. So more samples never reject
what fewer samples accepted (`Collection.solve_accepts_more`).
-/

namespace JsonTyping

namespace TypeTree

section Subsets

variable {settings : Settings} {vs ws : List Json}

theorem any_of_subset (hsub : vs ⊆ ws) {p : Json → Bool} (h : vs.any p = true) :
    ws.any p = true := by
  obtain ⟨v, hv, hp⟩ := List.any_eq_true.1 h
  exact List.any_eq_true.2 ⟨v, hsub hv, hp⟩

theorem filterMap_subset {α : Type} (hsub : vs ⊆ ws) (f : Json → Option α) :
    vs.filterMap f ⊆ ws.filterMap f := by
  intro a ha
  obtain ⟨v, hv, hf⟩ := List.mem_filterMap.1 ha
  exact List.mem_filterMap.2 ⟨v, hsub hv, hf⟩

theorem objects_subset (hsub : vs ⊆ ws) : objects vs ⊆ objects ws := filterMap_subset hsub _

theorem ne_nil_of_subset {α : Type} {l m : List α} (hsub : l ⊆ m) (h : l ≠ []) : m ≠ [] := by
  rintro rfl
  exact h (List.eq_nil_of_subset_nil hsub)

theorem items_subset (hsub : vs ⊆ ws) : (arrays vs).flatten ⊆ (arrays ws).flatten := by
  intro v hv
  obtain ⟨items, hitems, hv⟩ := List.mem_flatten.1 hv
  exact List.mem_flatten.2 ⟨items, filterMap_subset hsub _ hitems, hv⟩

theorem memberValues_subset (hsub : vs ⊆ ws) : memberValues vs ⊆ memberValues ws := by
  intro v hv
  obtain ⟨members, hmembers, hv⟩ := List.mem_flatMap.1 hv
  exact List.mem_flatMap.2 ⟨members, objects_subset hsub hmembers, hv⟩

theorem under_subset (hsub : vs ⊆ ws) (key : String) : under vs key ⊆ under ws key := by
  intro v hv
  obtain ⟨members, hmembers, hv⟩ := List.mem_flatMap.1 hv
  exact List.mem_flatMap.2 ⟨members, objects_subset hsub hmembers, hv⟩

theorem under_subset_memberValues (hsub : vs ⊆ ws) (key : String) :
    under vs key ⊆ memberValues ws := by
  intro v hv
  exact memberValues_subset hsub ((under_sublist vs key).subset hv)

theorem mem_keys_iff {key : String} :
    key ∈ keys vs ↔ ∃ members ∈ objects vs, ∃ m ∈ members, m.1 = key := by
  rw [keys, SortedSet.mem_ofList, List.mem_flatMap]
  simp only [List.mem_map]

theorem keys_subset (hsub : vs ⊆ ws) {key : String} (hkey : key ∈ keys vs) : key ∈ keys ws := by
  obtain ⟨members, hmembers, hm⟩ := mem_keys_iff.1 hkey
  exact mem_keys_iff.2 ⟨members, objects_subset hsub hmembers, hm⟩

theorem isMap_of_subset (hsub : vs ⊆ ws) (h : isMap settings vs = true) :
    isMap settings ws = true := by
  have hsize : (keys vs).size ≤ (keys ws).size :=
    (List.Nodup.subperm (keys vs).nodup fun key hkey => keys_subset hsub hkey).length_le
  simp only [isMap, Bool.and_eq_true, decide_eq_true_eq] at h ⊢
  exact ⟨h.1, Nat.lt_of_lt_of_le h.2 hsize⟩

theorem isOptional_eq_false_iff {key : String} :
    isOptional vs key = false ↔ ∀ members ∈ objects vs, ∃ m ∈ members, m.1 = key := by
  simp [isOptional]

/-- A property that all objects have is one of fewer objects, and all of them have it. -/
theorem required_of_subset (hsub : vs ⊆ ws) (hany : objects vs ≠ []) {key : String}
    (h : isOptional ws key = false) : key ∈ keys vs ∧ isOptional vs key = false := by
  have hall : ∀ members ∈ objects vs, ∃ m ∈ members, m.1 = key := fun members hmembers =>
    isOptional_eq_false_iff.1 h members (objects_subset hsub hmembers)
  obtain ⟨members, hmembers⟩ := List.exists_mem_of_ne_nil _ hany
  exact ⟨mem_keys_iff.2 ⟨members, hmembers, hall members hmembers⟩,
    isOptional_eq_false_iff.2 hall⟩

/-- A text has a format, or it is a literal, or it is too long for one. -/
theorem text_cases (settings : Settings) {s : String} (hs : s ∈ texts vs) :
    (∃ f ∈ formats settings vs, settings.formatOf s = some f) ∨ s ∈ literals settings vs ∨
      hasLongText settings vs = true := by
  cases hf : settings.formatOf s with
  | some f =>
    have hmem : f ∈ formats settings vs :=
      SortedSet.mem_ofList.2 (List.mem_filterMap.2 ⟨s, hs, hf⟩)
    exact .inl ⟨f, hmem, rfl⟩
  | none =>
    by_cases hlength : Text.units16 s ≤ settings.internMaxLen
    · refine .inr (.inl (List.mem_filter.2 ⟨hs, ?_⟩))
      rw [hf, decide_eq_true hlength]
      rfl
    · refine .inr (.inr (List.any_eq_true.2 ⟨s, hs, ?_⟩))
      rw [hf, decide_eq_true (Nat.lt_of_not_le hlength)]
      rfl

/-- Texts that all have the same format have the type of that format. -/
theorem ofTexts_of_format {f : Format} (hany : texts vs ≠ [])
    (hf : ∀ s ∈ texts vs, settings.formatOf s = some f) :
    ofTexts settings vs = [.primitive f.primitive] := by
  obtain ⟨s₀, hs₀⟩ := List.exists_mem_of_ne_nil _ hany
  have hformats : formats settings vs = .singleton f := by
    refine SortedSet.ext_mem fun f' => ?_
    rw [formats, SortedSet.mem_ofList, List.mem_filterMap, SortedSet.mem_singleton]
    constructor
    · rintro ⟨s, hs, hs'⟩
      exact Option.some.inj (hs'.symm.trans (hf s hs))
    · rintro rfl
      exact ⟨s₀, hs₀, hf s₀ hs₀⟩
  have hliterals : literals settings vs = [] := by
    refine List.filter_eq_nil_iff.2 fun s hs => ?_
    rw [hf s hs]
    exact Bool.false_ne_true
  have hlong : ¬ hasLongText settings vs = true := by
    intro h
    obtain ⟨s, hs, hlong⟩ := List.any_eq_true.1 h
    rw [hf s hs] at hlong
    cases hlong
  unfold ofTexts
  rw [hformats, if_pos ⟨rfl, hliterals, hlong⟩]
  rfl

/-- Other texts are just strings, unless they become an enumeration. -/
theorem ofTexts_of_mixed (henums : settings.inferEnums = false) (hany : texts vs ≠ [])
    (hmixed : ¬ ∃ f, ∀ s ∈ texts vs, settings.formatOf s = some f) :
    ofTexts settings vs = [.primitive .string] := by
  have hone : ¬ ((formats settings vs).size = 1 ∧ literals settings vs = [] ∧
      ¬ hasLongText settings vs = true) := by
    rintro ⟨hsize, hliterals, hlong⟩
    obtain ⟨f, hf⟩ := List.length_eq_one_iff.1 hsize
    refine hmixed ⟨f, fun s hs => ?_⟩
    rcases text_cases settings hs with ⟨f', hf', heq⟩ | hliteral | hlong'
    · rw [SortedSet.mem_iff, hf] at hf'
      rw [heq, List.mem_singleton.1 hf']
    · rw [hliterals] at hliteral
      cases hliteral
    · exact absurd hlong' hlong
  unfold ofTexts
  rw [if_neg hone]
  by_cases hplain : hasLongText settings vs = true ∨ (formats settings vs).toList ≠ []
  · rw [if_pos hplain]
  · obtain ⟨hlong, hformats⟩ := not_or.1 hplain
    obtain ⟨s, hs⟩ := List.exists_mem_of_ne_nil _ hany
    have hliterals : literals settings vs ≠ [] := by
      rcases text_cases settings hs with ⟨f, hf, -⟩ | hliteral | hlong'
      · exact absurd (List.ne_nil_of_mem hf) hformats
      · exact List.ne_nil_of_mem hliteral
      · exact absurd hlong' hlong
    have hfew : ∀ cases samples, fewCases settings cases samples = false := by
      intro cases samples
      rw [fewCases, henums]
      rfl
    rw [if_neg hplain, if_neg hliterals]
    simp only [hfew, Bool.false_eq_true, if_false]

/-! ### Wider types -/

theorem offers_ofTexts_of_subset (henums : settings.inferEnums = false) (hsub : vs ⊆ ws)
    {v : Json} (h : Offers (ofTexts settings vs) v) : Offers (ofTexts settings ws) v := by
  have hany : texts vs ≠ [] := by
    intro hnil
    have hnone : ofTexts settings vs = [] := by
      simp [ofTexts, formats, literals, hasLongText, hnil, SortedSet.size, SortedSet.ofList,
        SortedSet.insertMany, SortedSet.empty]
    rw [hnone] at h
    exact offers_nil h
  have htexts : texts vs ⊆ texts ws := filterMap_subset hsub _
  have hany' : texts ws ≠ [] := ne_nil_of_subset htexts hany
  by_cases hall : ∃ f, ∀ s ∈ texts ws, settings.formatOf s = some f
  · -- Then the fewer texts have that format, too.
    obtain ⟨f, hf⟩ := hall
    rw [ofTexts_of_format hany fun s hs => hf s (htexts hs)] at h
    rw [ofTexts_of_format hany' hf]
    exact h
  · rw [ofTexts_of_mixed henums hany' hall, offers_singleton, has_primitive]
    by_cases hall' : ∃ f, ∀ s ∈ texts vs, settings.formatOf s = some f
    · obtain ⟨f, hf⟩ := hall'
      rw [ofTexts_of_format hany hf, offers_singleton, has_primitive] at h
      obtain ⟨s, rfl⟩ : ∃ s, v = .string s := by
        cases v with
        | string s => exact ⟨s, rfl⟩
        | _ => cases f <;> cases h
      exact trivial
    · rw [ofTexts_of_mixed henums hany hall', offers_singleton, has_primitive] at h
      exact h

theorem holds_double_of_integer {v : Json} (h : Primitive.integer.Holds v) :
    Primitive.double.Holds v := by
  cases v with
  | number n => exact trivial
  | string s =>
    obtain ⟨f, hf, -⟩ := h
    cases f <;> cases hf
  | _ => cases h

theorem offers_ofScalars_of_subset (henums : settings.inferEnums = false) (hsub : vs ⊆ ws)
    {v : Json} (h : Offers (ofScalars settings vs) v) : Offers (ofScalars settings ws) v := by
  unfold ofScalars at h ⊢
  rw [offers_append, offers_append, offers_append] at h ⊢
  rcases h with ((hnull | hbool) | hnumber) | htext
  · rw [offers_ite] at hnull
    exact .inl (.inl (.inl (offers_ite.2 ⟨any_of_subset hsub hnull.1, hnull.2⟩)))
  · rw [offers_ite] at hbool
    exact .inl (.inl (.inr (offers_ite.2 ⟨any_of_subset hsub hbool.1, hbool.2⟩)))
  · refine .inl (.inr ?_)
    cases hdouble : vs.any Json.isDouble with
    | true =>
      rw [if_pos hdouble] at hnumber
      rw [if_pos (any_of_subset hsub hdouble)]
      exact hnumber
    | false =>
      rw [hdouble, if_neg Bool.false_ne_true, offers_ite, has_primitive] at hnumber
      cases hdouble' : ws.any Json.isDouble with
      | true =>
        rw [if_pos rfl, offers_singleton, has_primitive]
        exact holds_double_of_integer hnumber.2
      | false =>
        rw [if_neg Bool.false_ne_true, offers_ite, has_primitive]
        exact ⟨any_of_subset hsub hnumber.1, hnumber.2⟩
  · exact .inr (offers_ofTexts_of_subset henums hsub htext)

/-- The property written out for a key. -/
theorem mem_properties_iff {p : String × Bool × TypeTree} :
    (p ∈ (keys vs).toList.map fun key =>
      (key, isOptional vs key, ofValues settings (under vs key))) ↔
    p.1 ∈ keys vs ∧ p = (p.1, isOptional vs p.1, ofValues settings (under vs p.1)) := by
  rw [List.mem_map]
  constructor
  · rintro ⟨key, hkey, rfl⟩
    exact ⟨hkey, rfl⟩
  · rintro ⟨hkey, hp⟩
    exact ⟨p.1, hkey, hp.symm⟩

/-- What an object of the fewer objects has under its keys. -/
theorem members_of_record {ms : List (String × Json)}
    (h : (record ((keys vs).toList.map fun key =>
      (key, isOptional vs key, ofValues settings (under vs key)))).Has (.object ms)) :
    (∀ k v, (k, v) ∈ ms → k ∈ keys vs ∧ (ofValues settings (under vs k)).Has v) ∧
      ∀ k ∈ keys vs, isOptional vs k = false → ∃ v, (k, v) ∈ ms := by
  cases h with
  | record hdeclared htypes hpresent =>
    constructor
    · intro k v hkv
      obtain ⟨p, hp, hkey⟩ := hdeclared k v hkv
      have hvalue := htypes k v p hkv hp hkey
      obtain ⟨hmem, heq⟩ := mem_properties_iff.1 hp
      rw [heq, hkey] at hvalue
      rw [hkey] at hmem
      exact ⟨hmem, hvalue⟩
    · intro k hk hrequired
      exact hpresent (k, isOptional vs k, ofValues settings (under vs k))
        (mem_properties_iff.2 ⟨hk, rfl⟩) hrequired

theorem offers_ofObjects_of_subset (hsub : vs ⊆ ws)
    (ih : ∀ us us', Json.sizeItems us < Json.sizeItems vs → us ⊆ us' → ∀ v,
      (ofValues settings us).Has v → (ofValues settings us').Has v)
    {v : Json} (h : Offers (ofObjects settings vs) v) : Offers (ofObjects settings ws) v := by
  unfold ofObjects at h ⊢
  by_cases hnil : objects vs = []
  · rw [if_pos hnil] at h
    exact absurd h offers_nil
  have hnil' : objects ws ≠ [] := ne_nil_of_subset (objects_subset hsub) hnil
  have hvalues := ih _ _ (size_memberValues_lt hnil) (memberValues_subset hsub)
  have hunder : ∀ key, Json.sizeItems (under vs key) < Json.sizeItems vs := size_under_lt hnil
  rw [if_neg hnil] at h
  rw [if_neg hnil']
  by_cases hmap : isMap settings vs = true
  · rw [if_pos hmap, offers_singleton] at h
    rw [if_pos (isMap_of_subset hsub hmap), offers_singleton]
    cases h with
    | map hms => exact .map fun k v hkv => hvalues v (hms k v hkv)
  · rw [if_neg hmap, offers_singleton] at h
    obtain ⟨ms, rfl⟩ : ∃ ms, v = .object ms := by
      cases h with
      | @record _ ms _ _ _ => exact ⟨ms, rfl⟩
    obtain ⟨hmembers, hpresent⟩ := members_of_record h
    by_cases hmap' : isMap settings ws = true
    · -- The values under a key are among all the values of members.
      rw [if_pos hmap', offers_singleton]
      refine .map fun k v hkv => ?_
      exact ih _ _ (hunder k) (under_subset_memberValues hsub k) v (hmembers k v hkv).2
    · rw [if_neg hmap', offers_singleton]
      refine .record ?_ ?_ ?_
      · intro k v hkv
        have hkey : k ∈ keys ws := keys_subset hsub (hmembers k v hkv).1
        exact ⟨(k, isOptional ws k, ofValues settings (under ws k)),
          mem_properties_iff.2 ⟨hkey, rfl⟩, rfl⟩
      · intro k v p hkv hp hkey
        obtain ⟨-, heq⟩ := mem_properties_iff.1 hp
        rw [heq, hkey]
        exact ih _ _ (hunder k) (under_subset hsub k) v (hmembers k v hkv).2
      · intro p hp hrequired
        obtain ⟨-, heq⟩ := mem_properties_iff.1 hp
        rw [heq] at hrequired
        obtain ⟨hkey, hrequired'⟩ := required_of_subset hsub hnil hrequired
        exact hpresent p.1 hkey hrequired'

theorem offers_ofArrays_of_subset (hsub : vs ⊆ ws)
    (ih : ∀ us us', Json.sizeItems us < Json.sizeItems vs → us ⊆ us' → ∀ v,
      (ofValues settings us).Has v → (ofValues settings us').Has v)
    {v : Json} (h : Offers (ofArrays settings vs) v) : Offers (ofArrays settings ws) v := by
  unfold ofArrays at h ⊢
  by_cases hnil : arrays vs = []
  · rw [if_pos hnil] at h
    exact absurd h offers_nil
  have hnil' : arrays ws ≠ [] := ne_nil_of_subset (filterMap_subset hsub _) hnil
  have hitems := ih _ _ (size_items_lt hnil) (items_subset hsub)
  rw [if_neg hnil, offers_singleton] at h
  rw [if_neg hnil', offers_singleton]
  cases h with
  | array hvs => exact .array fun v hv => hitems v (hvs v hv)

/-- The type of more values has every value that the type of fewer has. -/
theorem has_ofValues_of_subset (henums : settings.inferEnums = false) (hsub : vs ⊆ ws) {v : Json}
    (h : (ofValues settings vs).Has v) : (ofValues settings ws).Has v := by
  -- On the size of the fewer values: those inside of containers are smaller, and every part of
  -- their type is taken from fewer values than the same part of the other type.
  induction hsize : Json.sizeItems vs using Nat.strongRecOn generalizing vs ws v with
  | ind n ih =>
    subst hsize
    have ih' : ∀ us us', Json.sizeItems us < Json.sizeItems vs → us ⊆ us' → ∀ v,
        (ofValues settings us).Has v → (ofValues settings us').Has v :=
      fun us us' hlt hus v hv => ih _ hlt hus hv rfl
    rw [has_ofValues_iff] at h ⊢
    rcases h with (hscalar | hobject) | harray
    · exact .inl (.inl (offers_ofScalars_of_subset henums hsub hscalar))
    · exact .inl (.inr (offers_ofObjects_of_subset hsub ih' hobject))
    · exact .inr (offers_ofArrays_of_subset hsub ih' harray)

end Subsets

end TypeTree

namespace Collection

/-- Samples are given a type under a name that is not taken. -/
theorem exists_solve_of_free {settings : Settings} {values : List Json} {c : Collection}
    (hrefs : settings.handleRefs = false) (hany : values ≠ [])
    (hobserved : Observed settings values c) {graph : Graph} {name : String}
    (hfree : graph.topLevel? name = none) :
    ∃ g root, c.solve graph name = (g, .ok root) ∧
      g.Unfolds root (TypeTree.ofValues settings values) := by
  obtain ⟨top, s, htopLevels, hunfolds, hsolve⟩ :=
    solve_of_no_refs hrefs hany hobserved graph name
  have hfree' : s.graph.topLevel? name = none := by
    rw [Graph.topLevel?, htopLevels]
    exact hfree
  have hpublish : s.graph.publish? name top =
      some { s.graph with topLevels := s.graph.topLevels ++ [(name, top)] } := by
    rw [Graph.publish?, hfree']
    rfl
  rw [hpublish] at hsolve
  exact ⟨_, top, hsolve, hunfolds.of_shape (Nat.le_refl _) fun u => rfl⟩

/-- More samples never reject what fewer samples accepted: where strings do not become enumerations
and references are not handled, every instance of the type of some samples is one of the type of
more samples. -/
theorem solve_accepts_more {settings : Settings} (henums : settings.inferEnums = false)
    (hrefs : settings.handleRefs = false) {values values' : List Json} (hany : values ≠ [])
    (hsub : values ⊆ values') {c c' : Collection} (hc : Observed settings values c)
    (hc' : Observed settings values' c') {graph graph' : Graph} {name name' : String}
    (hfree : graph.topLevel? name = none) (hfree' : graph'.topLevel? name' = none) :
    ∃ g root g' root', c.solve graph name = (g, .ok root) ∧
      c'.solve graph' name' = (g', .ok root') ∧
      ∀ v, g.Instance (g.Targets root) root v → g'.Instance (g'.Targets root') root' v := by
  have hany' : values' ≠ [] := TypeTree.ne_nil_of_subset hsub hany
  obtain ⟨g, root, hsolve, hunfolds⟩ := exists_solve_of_free hrefs hany hc hfree
  obtain ⟨g', root', hsolve', hunfolds'⟩ := exists_solve_of_free hrefs hany' hc' hfree'
  refine ⟨g, root, g', root', hsolve, hsolve', fun v hv => ?_⟩
  have hhas := hunfolds.instance_iff.1 hv
  exact hunfolds'.instance_iff.2 (TypeTree.has_ofValues_of_subset henums hsub hhas)

/-- Few keys make a map, and strings never make an enumeration. -/
def mapSettings : Settings := { inferEnums := false, mapThreshold := 2 }

def oneRecord : List Json :=
  [.object [("a", .number (.integer 1)), ("on", .string "true")]]

def threeRecords : List Json :=
  [.object [("b", .null), ("on", .string "17")], .object [("a", .number (.double .zero))]]
    ++ oneRecord

/-- The record of one sample, with an integer and the text of a boolean, is accepted by the map of
three. -/
theorem solve_accepts_more_records :
    ∃ c c' g root g' root', Observed mapSettings oneRecord c ∧
      Observed mapSettings threeRecords c' ∧ c.solve .empty "T" = (g, .ok root) ∧
      c'.solve .empty "T" = (g', .ok root') ∧
      g.Unfolds root (.record
        [("a", false, .primitive .integer), ("on", false, .primitive .boolString)]) ∧
      g'.Unfolds root' (.map (.union
        [.primitive .null, .primitive .double, .primitive .string])) ∧
      ∀ v, g.Instance (g.Targets root) root v → g'.Instance (g'.Targets root') root' v := by
  have hinteger : TypeTree.ofValues mapSettings [.number (.integer 1)] = .primitive .integer := by
    rw [TypeTree.ofValues_eq]
    rfl
  have htext : TypeTree.ofValues mapSettings [.string "true"] = .primitive .boolString := by
    rw [TypeTree.ofValues_eq]
    rfl
  have hmembers : TypeTree.ofValues mapSettings (TypeTree.memberValues threeRecords) =
      .union [.primitive .null, .primitive .double, .primitive .string] := by
    rw [TypeTree.ofValues_eq]
    rfl
  have htree : TypeTree.ofValues mapSettings oneRecord = .record
      [("a", false, .primitive .integer), ("on", false, .primitive .boolString)] := by
    rw [TypeTree.ofValues_eq, ← hinteger, ← htext]
    rfl
  have htree' : TypeTree.ofValues mapSettings threeRecords = .map (.union
      [.primitive .null, .primitive .double, .primitive .string]) := by
    rw [TypeTree.ofValues_eq, ← hmembers]
    rfl
  have hany : oneRecord ≠ [] := List.cons_ne_nil _ _
  have hfree : Graph.empty.topLevel? "T" = none := rfl
  have hsub : oneRecord ⊆ threeRecords := List.subset_append_right _ oneRecord
  obtain ⟨c, -, hc⟩ := exists_observed mapSettings oneRecord
  obtain ⟨c', -, hc'⟩ := exists_observed mapSettings threeRecords
  obtain ⟨g, root, hsolve, hunfolds⟩ :=
    exists_solve_of_free rfl hany hc hfree
  obtain ⟨g', root', hsolve', hunfolds'⟩ :=
    exists_solve_of_free rfl (TypeTree.ne_nil_of_subset hsub hany) hc' hfree
  obtain ⟨k, r, k', r', hk, hk', hmore⟩ :=
    solve_accepts_more rfl rfl hany hsub hc hc' hfree hfree
  cases hk.symm.trans hsolve
  cases hk'.symm.trans hsolve'
  rw [htree] at hunfolds
  rw [htree'] at hunfolds'
  exact ⟨c, c', g, root, g', root', hc, hc', hsolve, hsolve', hunfolds, hunfolds', hmore⟩

end Collection

end JsonTyping
