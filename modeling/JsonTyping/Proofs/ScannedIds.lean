import JsonTyping.Proofs.DocumentPaths
import JsonTyping.Schema.Aliases

/-!
# Scanning for ids

The walk from a value to one of the values in it applies the ids of the objects that it leaves
(`Place.Walks`). A scan adds exactly the objects that have an id or lie below one, each with the
place to which it is walked (`Aliases.scan_spec`). So a value without ids adds nothing
(`Aliases.scan_of_idFree`).
-/

namespace JsonTyping

theorem Reference.root_eq {address : String} (hne : address ≠ "") :
    root (some address) = ⟨some address, [.root]⟩ := by
  simp [root, ofParts, Option.filter, hne]

/-- An object with these members has an id. An id that is no string does not count. -/
def Json.HasId (members : List (String × Json)) : Prop :=
  ∃ id, members.lookup "$id" = some (.string id)

/-- The place lies below an object in the value that has an id. -/
def Json.BelowId (v : Json) (path : List Step) : Prop :=
  ∃ before step after members, path = before ++ step :: after ∧
    (before, .object members) ∈ v.nodes ∧ HasId members

/-- No object in the value has an id. -/
def Json.IdFree (v : Json) : Prop :=
  ∀ path members, (path, .object members) ∈ v.nodes → ∀ id, members.lookup "$id" ≠ some (.string id)

namespace Place

/-- The place with the id of the object that stands there. -/
def withIdOf (place : Place) (members : List (String × Json)) : Place :=
  match members.lookup "$id" with
  | some id => place.withId id
  | none => place

@[simp] theorem canonical_withIdOf (place : Place) (members : List (String × Json)) :
    (place.withIdOf members).canonical = place.canonical := by
  unfold withIdOf withId
  split
  · split <;> rfl
  · rfl

theorem withIdOf_of_lookup {members : List (String × Json)} {id : String}
    (h : members.lookup "$id" = some (.string id)) (place : Place) :
    place.withIdOf members =
      { place with
        virtual := (Reference.parse id).resolveAgainst place.virtual, underId := true } := by
  rw [withIdOf, h]
  rfl

theorem withIdOf_of_idFree {members : List (String × Json)}
    (h : ∀ id, members.lookup "$id" ≠ some (.string id)) (place : Place) :
    place.withIdOf members = place := by
  unfold withIdOf withId
  split
  · next id hid =>
    split
    · next text => exact absurd hid (h text)
    · rfl
  · rfl

theorem underId_withIdOf {place : Place} {members : List (String × Json)} :
    (place.withIdOf members).underId = true ↔ place.underId = true ∨ Json.HasId members := by
  by_cases hid : Json.HasId members
  · obtain ⟨id, hlookup⟩ := hid
    rw [withIdOf_of_lookup hlookup]
    exact iff_of_true rfl (.inr ⟨id, hlookup⟩)
  · rw [withIdOf_of_idFree (not_exists.1 hid), or_iff_left hid]

/-- The second value stands at the path in the first one. If the first one stands at the first
place, the second one stands at the second place, not counting its own id. -/
inductive Walks : Place → Json → List Step → Place → Json → Prop
  | here (p : Place) (v : Json) : Walks p v [] p v
  | item {p q : Place} {items : List Json} {i : Nat} {w u : Json} {path : List Step}
    (hi : items[i]? = some w) (hwalks : Walks (p.push (toString i)) w path q u) :
    Walks p (.array items) (.key (toString i) :: path) q u
  | member {p q : Place} {members : List (String × Json)} {k : String} {w u : Json}
    {path : List Step} (hk : (k, w) ∈ members)
    (hwalks : Walks ((p.withIdOf members).push k) w path q u) :
    Walks p (.object members) (.key k :: path) q u

variable {p q : Place} {v u : Json} {path : List Step}

theorem Walks.mem_nodes (h : p.Walks v path q u) : (path, u) ∈ v.nodes := by
  induction h with
  | here p v => exact Json.mem_nodes_self v
  | item hi _ ih => exact Json.mem_nodes_item hi ih
  | member hk _ ih => exact Json.mem_nodes_member hk ih

theorem exists_walks (p : Place) (h : (path, u) ∈ v.nodes) : ∃ q, p.Walks v path q u := by
  induction path generalizing p v with
  | nil =>
    obtain rfl := Json.eq_of_mem_nodes_nil h
    exact ⟨p, .here p u⟩
  | cons step path ih =>
    obtain ⟨w, hstep, hu⟩ := Json.mem_nodes_cons.1 h
    cases hstep with
    | @item items i _ hi =>
      obtain ⟨q, hwalks⟩ := ih (p.push (toString i)) hu
      exact ⟨q, .item hi hwalks⟩
    | @member members k _ hk =>
      obtain ⟨q, hwalks⟩ := ih ((p.withIdOf members).push k) hu
      exact ⟨q, .member hk hwalks⟩

theorem Walks.canonical (h : p.Walks v path q u) :
    q.canonical = ⟨p.canonical.address, p.canonical.path ++ path⟩ := by
  induction h with
  | here p v => rw [List.append_nil]
  | item _ _ ih =>
    rw [ih]
    simp only [push, pushStep, Reference.pushStep, List.append_assoc, List.singleton_append]
  | member _ _ ih =>
    rw [ih]
    simp only [push, pushStep, canonical_withIdOf, Reference.pushStep, List.append_assoc,
      List.singleton_append]

theorem Walks.belowId (h : p.Walks v path q u) (hq : q.underId = true) :
    p.underId = true ∨ v.BelowId path := by
  induction h with
  | here p v => exact .inl hq
  | item hi _ ih =>
    refine (ih hq).imp_right ?_
    rintro ⟨before, step, after, ms, rfl, hms, hid⟩
    exact ⟨_ :: before, step, after, ms, rfl, Json.mem_nodes_item hi hms, hid⟩
  | @member p q members k w u path hk _ ih =>
    rcases ih hq with hhere | ⟨before, step, after, ms, rfl, hms, hid⟩
    · refine (underId_withIdOf.1 hhere).imp_right fun hid => ?_
      exact ⟨[], .key k, path, members, rfl, Json.mem_nodes_self _, hid⟩
    · exact .inr ⟨_ :: before, step, after, ms, rfl, Json.mem_nodes_member hk hms, hid⟩

end Place

namespace Aliases

theorem scan_object (place : Place) (entries : List (Reference × Place))
    (members : List (String × Json)) :
    scan place entries (.object members) =
      scanMembers (place.withIdOf members)
        (if (place.withIdOf members).underId then
          ((place.withIdOf members).virtual, place) :: entries else entries) members := by
  rw [scan]
  rfl

/-- The entry is that of an object in the value that has an id or lies below one, if the value
stands at this place. -/
def Records (place : Place) (v : Json) (e : Reference × Place) : Prop :=
  ∃ path q members, place.Walks v path q (.object members) ∧
    (q.withIdOf members).underId = true ∧ e = ((q.withIdOf members).virtual, q)

theorem records_array {place : Place} {items : List Json} {e : Reference × Place} :
    Records place (.array items) e ↔
      ∃ (i : Nat) (w : Json), items[i]? = some w ∧ Records (place.push (toString i)) w e := by
  constructor
  · rintro ⟨path, q, ms, hwalks, hid, rfl⟩
    cases hwalks with
    | item hi hwalks => exact ⟨_, _, hi, _, q, ms, hwalks, hid, rfl⟩
  · rintro ⟨i, w, hi, path, q, ms, hwalks, hid, rfl⟩
    exact ⟨_, q, ms, .item hi hwalks, hid, rfl⟩

theorem records_object {place : Place} {members : List (String × Json)} {e : Reference × Place} :
    Records place (.object members) e ↔
      (∃ k w, (k, w) ∈ members ∧ Records ((place.withIdOf members).push k) w e) ∨
        (place.withIdOf members).underId = true ∧
          e = ((place.withIdOf members).virtual, place) := by
  constructor
  · rintro ⟨path, q, ms, hwalks, hid, rfl⟩
    cases hwalks with
    | here => exact .inr ⟨hid, rfl⟩
    | member hk hwalks => exact .inl ⟨_, _, hk, _, q, ms, hwalks, hid, rfl⟩
  · rintro (⟨k, w, hk, path, q, ms, hwalks, hid, rfl⟩ | ⟨hid, rfl⟩)
    · exact ⟨_, q, ms, .member hk hwalks, hid, rfl⟩
    · exact ⟨[], place, members, .here place _, hid, rfl⟩

mutual

/-- A scan adds the entries of the objects that have an id or lie below one, and nothing else. -/
theorem scan_spec (place : Place) (entries : List (Reference × Place)) :
    ∀ v : Json, ∃ new, scan place entries v = new ++ entries ∧ ∀ e, e ∈ new ↔ Records place v e
  | .null | .bool _ | .number _ | .string _ => by
    refine ⟨[], by simp [scan], fun e => iff_of_false List.not_mem_nil ?_⟩
    rintro ⟨path, q, ms, hwalks, -⟩
    cases hwalks
  | .array items => by
    obtain ⟨new, hnew, hentries⟩ := scanItems_spec place 0 entries items
    refine ⟨new, by rw [scan, hnew], fun e => ?_⟩
    simp only [hentries, records_array, Nat.zero_add]
  | .object members => by
    obtain ⟨new, hnew, hentries⟩ := scanMembers_spec (place.withIdOf members)
      (if (place.withIdOf members).underId then
        ((place.withIdOf members).virtual, place) :: entries else entries) members
    rw [scan_object, hnew]
    split
    · next hid =>
      refine ⟨new ++ [((place.withIdOf members).virtual, place)], by simp, fun e => ?_⟩
      rw [List.mem_append, List.mem_singleton, hentries, records_object, and_iff_right hid]
    · next hid =>
      refine ⟨new, rfl, fun e => ?_⟩
      rw [hentries, records_object, or_iff_left fun h => hid h.1]

theorem scanItems_spec (place : Place) (index : Nat) (entries : List (Reference × Place)) :
    ∀ items : List Json, ∃ new, scanItems place index entries items = new ++ entries ∧
      ∀ e, e ∈ new ↔
        ∃ i w, items[i]? = some w ∧ Records (place.push (toString (index + i))) w e
  | [] => ⟨[], by simp [scanItems]⟩
  | v :: rest => by
    obtain ⟨new, hnew, hentries⟩ := scan_spec (place.push (toString index)) entries v
    obtain ⟨new', hnew', hentries'⟩ := scanItems_spec place (index + 1) (new ++ entries) rest
    refine ⟨new' ++ new, by rw [scanItems, hnew, hnew', List.append_assoc], fun e => ?_⟩
    rw [List.mem_append, hentries, hentries']
    constructor
    · rintro (⟨i, w, hi, hw⟩ | hv)
      · rw [Nat.add_right_comm, Nat.add_assoc] at hw
        exact ⟨i + 1, w, hi, hw⟩
      · exact ⟨0, v, rfl, hv⟩
    · rintro ⟨i, w, hi, hw⟩
      cases i with
      | zero =>
        obtain rfl := Option.some.inj hi
        exact .inr hw
      | succ i =>
        rw [← Nat.add_assoc, Nat.add_right_comm] at hw
        exact .inl ⟨i, w, hi, hw⟩

theorem scanMembers_spec (place : Place) (entries : List (Reference × Place)) :
    ∀ members : List (String × Json), ∃ new,
      scanMembers place entries members = new ++ entries ∧
        ∀ e, e ∈ new ↔ ∃ k w, (k, w) ∈ members ∧ Records (place.push k) w e
  | [] => ⟨[], by simp [scanMembers]⟩
  | (k, v) :: rest => by
    obtain ⟨new, hnew, hentries⟩ := scan_spec (place.push k) entries v
    obtain ⟨new', hnew', hentries'⟩ := scanMembers_spec place (new ++ entries) rest
    refine ⟨new' ++ new, by rw [scanMembers, hnew, hnew', List.append_assoc], fun e => ?_⟩
    rw [List.mem_append, hentries, hentries']
    constructor
    · rintro (⟨k', w, hmem, hw⟩ | hv)
      · exact ⟨k', w, List.mem_cons_of_mem _ hmem, hw⟩
      · exact ⟨k, v, List.mem_cons_self, hv⟩
    · rintro ⟨k', w, hmem, hw⟩
      rcases List.mem_cons.1 hmem with heq | hmem
      · obtain ⟨rfl, rfl⟩ := Prod.mk.inj heq
        exact .inr hw
      · exact .inl ⟨k', w, hmem, hw⟩

end

/-- The entry is that of an object in the value, if the value stands at this place. -/
def IsEntry (r : Reference) (v : Json) (e : Reference × Place) : Prop :=
  ∃ path members, (path, .object members) ∈ v.nodes ∧
    e.2.canonical = ⟨r.address, r.path ++ path⟩

theorem scan_eq_append (place : Place) (entries : List (Reference × Place)) (v : Json) :
    ∃ new, scan place entries v = new ++ entries ∧ ∀ e ∈ new, IsEntry place.canonical v e := by
  obtain ⟨new, hnew, hentries⟩ := scan_spec place entries v
  refine ⟨new, hnew, fun e he => ?_⟩
  obtain ⟨path, q, members, hwalks, -, rfl⟩ := (hentries e).1 he
  exact ⟨path, members, hwalks.mem_nodes, hwalks.canonical⟩

theorem scan_of_idFree (place : Place) (hplace : place.underId = false)
    (entries : List (Reference × Place)) (v : Json) (h : v.IdFree) :
    scan place entries v = entries := by
  obtain ⟨new, hnew, hentries⟩ := scan_spec place entries v
  have hnone : new = [] := by
    refine List.eq_nil_iff_forall_not_mem.2 fun e he => ?_
    obtain ⟨path, q, members, hwalks, hid, -⟩ := (hentries e).1 he
    rcases Place.underId_withIdOf.1 hid with hq | ⟨id, hid⟩
    · rcases hwalks.belowId hq with hp | ⟨before, _, _, ms, -, hms, id, hid⟩
      · rw [hplace] at hp
        cases hp
      · exact h before ms hms id hid
    · exact h path members hwalks.mem_nodes id hid
  rw [hnew, hnone, List.nil_append]

end Aliases

end JsonTyping
