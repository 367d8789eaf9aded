import JsonTyping.Proofs.LibraryAnswers
import JsonTyping.Schema.Conversion

/-!
# Places of a conversion

A conversion only gets to places that a reference leads to and to the values below them
(`Library.IsPlace`). The documents at hand have finitely many of them (`Library.places`), fewer than
the depth that is allowed (`Library.length_places_lt`), so the number of those without a type
(`Library.unregistered`) bounds how deep a conversion still gets.
-/

namespace JsonTyping

/-- Where a path leads in a document, there is a value of the document. -/
theorem Json.exists_mem_nodes_of_follow? {document v w : Json} {path : List Step}
    (hv : ∃ keys, (keys, v) ∈ document.nodes) (h : follow? document v path = some w) :
    ∃ keys, (keys, w) ∈ document.nodes := by
  induction path generalizing v with
  | nil =>
    cases h
    exact hv
  | cons step path ih =>
    cases step with
    | root => exact ih ⟨[], mem_nodes_self document⟩ h
    | key name =>
      rw [follow?] at h
      obtain ⟨u, hu, h⟩ := Option.bind_eq_some_iff.1 h
      obtain ⟨keys, hkeys⟩ := hv
      refine ih ?_ h
      cases v with
      | object members =>
        exact ⟨_, mem_nodes_append hkeys (mem_nodes_member (mem_of_lookup hu) (mem_nodes_self u))⟩
      | array items => exact ⟨_, mem_nodes_append hkeys (mem_nodes_item hu (mem_nodes_self u))⟩
      | _ => cases hu
    | type index => cases h
    | object => cases h

namespace Library

/-- The value that a reference names, of the answers of the library. -/
def value? (lib : Library) (r : Reference) : Option Json :=
  match r.address with
  | none => none
  | some address =>
    match lib.fetched address with
    | .ok (some document) => Json.follow? document document r.path
    | _ => none

theorem exists_document_of_value? {lib : Library} {r : Reference} {v : Json}
    (h : lib.value? r = some v) :
    ∃ address document, r.address = some address ∧ lib.fetched address = .ok (some document) ∧
      Json.follow? document document r.path = some v := by
  unfold value? at h
  split at h
  · cases h
  · next address haddress =>
    split at h
    · next document hdocument => exact ⟨address, document, haddress, hdocument, h⟩
    · cases h

theorem value?_eq {lib : Library} {r : Reference} {address : String} {document : Json}
    (haddress : r.address = some address) (hdocument : lib.fetched address = .ok (some document)) :
    lib.value? r = Json.follow? document document r.path := by
  simp only [value?, haddress, hdocument]

theorem value?_push {lib : Library} {r : Reference} {v w : Json} {key : String}
    (h : lib.value? r = some v) (hchild : v.child? key = some w) :
    lib.value? (r.push key) = some w := by
  obtain ⟨address, document, haddress, hdocument, hfollow⟩ := exists_document_of_value? h
  rw [value?_eq (r := r.push key) haddress hdocument]
  exact Json.follow?_key hfollow hchild

theorem Finds.value? {lib : Library} {base : Place} {r : Reference} {found : Resolved}
    (h : Finds lib base r found) :
    ∃ v, found.value = .ok v ∧ lib.value? found.place.canonical = some v := by
  obtain ⟨address, haddress, -, hdocument⟩ := h.document
  obtain ⟨v, hv⟩ := h.value
  refine ⟨v, by simp only [Resolved.value, valueAt, hv], ?_⟩
  rw [value?_eq haddress hdocument]
  exact Json.follow?_of_lookup hv

/-- The path that a value of a document can stand for: a string is taken for a reference, any other
value for the target of one. -/
def pathOf : List Step × Json → List Step
  | (_, .string text) => (Reference.parse text).path
  | (path, _) => .root :: path

/-- The paths that references have, one of which leads to `top`. -/
def bases (lib : Library) (top : List Step) : List (List Step) :=
  [.root] :: top :: lib.shelf.flatMap fun e => e.2.nodes.map pathOf

/-- The places that references lead to, and those below them. -/
def places (lib : Library) (top : List Step) : List Reference :=
  lib.shelf.flatMap fun e => (lib.bases top).flatMap fun base =>
    ((lib.value? ⟨some e.1, base⟩).toList.flatMap Json.nodes).map fun node =>
      ⟨some e.1, base ++ node.1⟩

/-- The reference is that of a value at or below a place that a reference leads to. -/
def IsPlace (lib : Library) (top : List Step) (r : Reference) (v : Json) : Prop :=
  ∃ address base w keys, base ∈ lib.bases top ∧ lib.value? ⟨some address, base⟩ = some w ∧
    (keys, v) ∈ w.nodes ∧ r = ⟨some address, base ++ keys⟩

theorem IsPlace.mem_places {lib : Library} (hmemory : lib.InMemory) {top : List Step}
    {r : Reference} {v : Json} (h : lib.IsPlace top r v) : r ∈ lib.places top := by
  obtain ⟨address, base, w, keys, hbase, hvalue, hkeys, rfl⟩ := h
  obtain ⟨_, document, haddress, hdocument, -⟩ := exists_document_of_value? hvalue
  obtain rfl := Option.some.inj haddress
  refine List.mem_flatMap.2 ⟨(address, document), mem_shelf_of_fetched hmemory hdocument, ?_⟩
  refine List.mem_flatMap.2 ⟨base, hbase, List.mem_map.2 ⟨(keys, v), ?_, rfl⟩⟩
  dsimp only
  rw [hvalue]
  exact List.mem_flatMap.2 ⟨w, List.mem_singleton.2 rfl, hkeys⟩

theorem IsPlace.member {lib : Library} {top : List Step} {r : Reference}
    {members : List (String × Json)} (h : lib.IsPlace top r (.object members)) {key : String}
    {v : Json} (hv : (key, v) ∈ members) : lib.IsPlace top (r.push key) v := by
  obtain ⟨address, base, w, keys, hbase, hvalue, hkeys, rfl⟩ := h
  refine ⟨address, base, w, keys ++ [.key key], hbase, hvalue, ?_, ?_⟩
  · exact Json.mem_nodes_append hkeys (Json.mem_nodes_member hv (Json.mem_nodes_self v))
  · simp only [Reference.push, Reference.pushStep, List.append_assoc]

theorem IsPlace.item {lib : Library} {top : List Step} {r : Reference} {items : List Json}
    (h : lib.IsPlace top r (.array items)) {i : Nat} {v : Json} (hv : items[i]? = some v) :
    lib.IsPlace top (r.push (toString i)) v := by
  obtain ⟨address, base, w, keys, hbase, hvalue, hkeys, rfl⟩ := h
  refine ⟨address, base, w, keys ++ [.key (toString i)], hbase, hvalue, ?_, ?_⟩
  · exact Json.mem_nodes_append hkeys (Json.mem_nodes_item hv (Json.mem_nodes_self v))
  · simp only [Reference.push, Reference.pushStep, List.append_assoc]

/-- The value of a place is one of the values of a document on the shelf. -/
theorem IsPlace.exists_mem_nodes {lib : Library} (hmemory : lib.InMemory) {top : List Step}
    {r : Reference} {v : Json} (h : lib.IsPlace top r v) :
    ∃ e ∈ lib.shelf, ∃ path, (path, v) ∈ e.2.nodes := by
  obtain ⟨address, base, w, keys, -, hvalue, hkeys, -⟩ := h
  obtain ⟨address', document, -, hdocument, hfollow⟩ := exists_document_of_value? hvalue
  obtain ⟨path, hpath⟩ :=
    Json.exists_mem_nodes_of_follow? ⟨[], Json.mem_nodes_self document⟩ hfollow
  exact ⟨(address', document), mem_shelf_of_fetched hmemory hdocument, _,
    Json.mem_nodes_append hpath hkeys⟩

theorem IsPlace.of_base {lib : Library} {top : List Step} {r : Reference} {v : Json}
    (hpath : r.path ∈ lib.bases top) (hvalue : lib.value? r = some v) : lib.IsPlace top r v := by
  obtain ⟨address, -, haddress, -, -⟩ := exists_document_of_value? hvalue
  obtain ⟨_, path⟩ := r
  obtain rfl : _ = some address := haddress
  exact ⟨address, path, v, [], hpath, hvalue, Json.mem_nodes_self v, by rw [List.append_nil]⟩

theorem IsObjectPlace.path_mem_bases {lib : Library} {r : Reference} (h : lib.IsObjectPlace r)
    (top : List Step) : r.path ∈ lib.bases top := by
  obtain ⟨address, document, path, members, hmem, -, hpath, rfl⟩ := h
  refine List.mem_cons_of_mem _ (List.mem_cons_of_mem _ (List.mem_flatMap.2 ⟨_, hmem, ?_⟩))
  exact List.mem_map.2 ⟨_, hpath, rfl⟩

/-- Where the reference in a schema leads. -/
theorem IsPlace.target {lib : Library} (hmemory : lib.InMemory) {top : List Step} {r : Reference}
    {schema : List (String × Json)} (h : lib.IsPlace top r (.object schema)) {text : String}
    (htext : schema.lookup "$ref" = some (.string text)) {base : Place} {found : Resolved}
    (hfound : Finds lib base (.parse text) found) {v : Json}
    (hv : lib.value? found.place.canonical = some v) :
    lib.IsPlace top found.place.canonical v := by
  refine .of_base ?_ hv
  rcases hfound.path with hpath | hpath | ⟨q, hq, hpath⟩
  · obtain ⟨e, he, path, hkeys⟩ := (h.member (mem_of_lookup htext)).exists_mem_nodes hmemory
    rw [hpath]
    refine List.mem_cons_of_mem _ (List.mem_cons_of_mem _ (List.mem_flatMap.2 ⟨e, he, ?_⟩))
    exact List.mem_map.2 ⟨_, hkeys, rfl⟩
  · rw [hpath]
    exact List.mem_cons_self
  · rw [← hpath]
    exact hq.path_mem_bases top

/-! ### How many places there are -/

/-- Number of values in the documents on the shelf. -/
def volume (lib : Library) : Nat := Json.sizeMembers lib.shelf

theorem depthBound_eq {lib : Library} (h : lib.InMemory) : Conversion.depthBound lib =
    (lib.shelf.length + 1) * (lib.volume + 2) * (lib.volume + 2) + 1 := by
  have hadded : ∀ answers : List (String × Option Json),
      (answers.filterMap fun e => e.2.map fun document => (e.1, document)).length =
        (answers.filterMap (·.2)).length ∧
      Json.sizeMembers (answers.filterMap fun e => e.2.map fun document => (e.1, document)) =
        Json.sizeItems (answers.filterMap (·.2)) := by
    intro answers
    induction answers with
    | nil => exact ⟨rfl, rfl⟩
    | cons e answers ih =>
      obtain ⟨address, answer⟩ := e
      cases answer with
      | none => exact ih
      | some document =>
        refine ⟨congrArg (· + 1) ih.1, ?_⟩
        simp only [List.filterMap_cons, Option.map_some, Json.sizeMembers, Json.sizeItems, ih.2]
  have happend : ∀ l k : List (String × Json),
      Json.sizeMembers (l ++ k) = Json.sizeMembers l + Json.sizeMembers k := by
    intro l k
    induction l with
    | nil => rw [List.nil_append, Json.sizeMembers, Nat.zero_add]
    | cons e l ih => rw [List.cons_append, Json.sizeMembers, Json.sizeMembers, ih, Nat.add_assoc]
  obtain ⟨hlength, hsize⟩ := hadded lib.answers
  unfold Conversion.depthBound volume shelf
  rw [List.length_append, happend, hlength, hsize]
  cases hstore : lib.store with
  | none => rfl
  | some store =>
    cases store with
    | memory documents broken => rfl
    | files files => exact absurd hstore (h files)

theorem length_flatMap_le {α β : Type} {f : α → List β} {n : Nat} {l : List α}
    (h : ∀ a ∈ l, (f a).length ≤ n) : (l.flatMap f).length ≤ l.length * n := by
  induction l with
  | nil => exact Nat.zero_le _
  | cons a l ih =>
    have ha := h a List.mem_cons_self
    have hl := ih fun b hb => h b (List.mem_cons_of_mem a hb)
    rw [List.flatMap_cons, List.length_append, List.length_cons, Nat.add_one_mul]
    omega

theorem length_bases (lib : Library) (top : List Step) :
    (lib.bases top).length = lib.volume + 2 := by
  have hshelf : ∀ shelf : List (String × Json),
      (shelf.flatMap fun e => e.2.nodes.map pathOf).length = Json.sizeMembers shelf := by
    intro shelf
    induction shelf with
    | nil => rfl
    | cons e shelf ih =>
      rw [List.flatMap_cons, List.length_append, List.length_map, Json.length_nodes, ih,
        Json.sizeMembers]
  simp only [bases, List.length_cons, hshelf, volume]

/-- There are fewer places than a conversion may get deep. -/
theorem length_places_lt {lib : Library} (hmemory : lib.InMemory) (top : List Step) :
    (lib.places top).length < Conversion.depthBound lib := by
  have hvalue : ∀ r : Reference,
      ((lib.value? r).toList.flatMap Json.nodes).length ≤ lib.volume := by
    intro r
    cases hr : lib.value? r with
    | none => exact Nat.zero_le _
    | some v =>
      obtain ⟨address, document, -, hdocument, hfollow⟩ := exists_document_of_value? hr
      have hsize := Json.size_le_of_follow? (Nat.le_refl _) hfollow
      have hshelf : document.size ≤ lib.volume :=
        Json.size_le_of_mem_members (mem_shelf_of_fetched hmemory hdocument)
      simp only [Option.toList_some, List.flatMap_singleton, Json.length_nodes]
      omega
  have hplaces : (lib.places top).length ≤
      lib.shelf.length * ((lib.volume + 2) * lib.volume) := by
    unfold places
    refine length_flatMap_le fun e _ => ?_
    rw [← length_bases lib top]
    refine length_flatMap_le fun base _ => ?_
    rw [List.length_map]
    exact hvalue _
  have hbound : lib.shelf.length * ((lib.volume + 2) * lib.volume) ≤
      (lib.shelf.length + 1) * ((lib.volume + 2) * (lib.volume + 2)) :=
    Nat.mul_le_mul (by omega) (Nat.mul_le_mul_left _ (by omega))
  rw [depthBound_eq hmemory, Nat.mul_assoc]
  omega

/-- How many places have no type yet. -/
def unregistered (lib : Library) (top : List Step) (types : List (Reference × NodeId)) : Nat :=
  (lib.places top).countP fun r => (types.lookup r).isNone

theorem unregistered_lt {lib : Library} (hmemory : lib.InMemory) (top : List Step)
    (types : List (Reference × NodeId)) : lib.unregistered top types < Conversion.depthBound lib :=
  Nat.lt_of_le_of_lt List.countP_le_length (length_places_lt hmemory top)

theorem unregistered_append_le (lib : Library) (top : List Step)
    (new types : List (Reference × NodeId)) :
    lib.unregistered top (new ++ types) ≤ lib.unregistered top types := by
  refine List.countP_mono_left fun r _ h => ?_
  rw [List.lookup_append] at h
  cases htypes : types.lookup r with
  | none => rfl
  | some t =>
    rw [htypes, Option.or_some] at h
    cases h

theorem unregistered_cons_lt {lib : Library} {top : List Step} {r : Reference}
    {types : List (Reference × NodeId)} (hr : r ∈ lib.places top) (hnone : types.lookup r = none)
    (t : NodeId) : lib.unregistered top ((r, t) :: types) < lib.unregistered top types := by
  have hcount : ∀ l : List Reference, r ∈ l →
      (l.countP fun q => (((r, t) :: types).lookup q).isNone) <
        l.countP fun q => (types.lookup q).isNone := by
    intro l hl
    have hcons : ((r, t) :: types).lookup r = some t := by
      rw [SortedMap.lookup_cons_eq, if_pos rfl]
    obtain ⟨before, after, rfl⟩ := List.append_of_mem hl
    have hle : ∀ k : List Reference, (k.countP fun q => (((r, t) :: types).lookup q).isNone) ≤
        k.countP fun q => (types.lookup q).isNone := by
      intro k
      refine List.countP_mono_left fun q _ h => ?_
      rw [SortedMap.lookup_cons_eq] at h
      split at h
      · cases h
      · exact h
    have hbefore := hle before
    have hafter := hle after
    simp only [List.countP_append, List.countP_cons, hcons, hnone, Option.isNone_none,
      Option.isNone_some, if_true]
    simp only [Bool.false_eq_true, if_false]
    omega
  exact hcount _ hr

end Library

end JsonTyping
