import JsonTyping.Proofs.RepeatedKeys
import JsonTyping.Proofs.ScannedIds
import JsonTyping.Sorted.Map
import Mathlib.Data.List.Induction

/-!
# Entries of aliases

When documents are added one after another, the first one under each address is scanned. The entries
are then exactly the objects in these documents that have an id or lie below one: an object is
entered under the way its place is spelled (`Json.spelled`), and the entry leads back to it
(`Aliases.entries_exact`).
-/

namespace JsonTyping

/-- A value that a document has: no object in it repeats a key, and all positions in its arrays are
indices. -/
structure Json.IsDocument (v : Json) : Prop where
  noRepeats : v.NoRepeats
  indexed : ∀ path items, (path, .array items) ∈ v.nodes → items.length ≤ Nat.pow 2 64

theorem Json.IsDocument.leadsTo {v w : Json} {step : Step} (h : v.IsDocument)
    (hstep : v.LeadsTo step w) : w.IsDocument where
  noRepeats := by
    cases hstep with
    | item hi =>
      cases h.noRepeats with
      | array hitems => exact hitems _ (List.mem_of_getElem? hi)
    | member hk =>
      cases h.noRepeats with
      | object _ hvalues => exact hvalues _ hk
  indexed path items hitems := h.indexed _ items (mem_nodes_cons.2 ⟨w, hstep, hitems⟩)

/-- In a document, a step is a step of looking up. -/
theorem Json.IsDocument.descend {v w : Json} {step : Step} (h : v.IsDocument)
    (hstep : v.LeadsTo step w) (document : Json) :
    Reference.descend document v step = .ok w := by
  cases hstep with
  | @item items i _ hi =>
    have hlength : items.length ≤ 0xFFFFFFFFFFFFFFFF + 1 := h.indexed [] items (mem_nodes_self _)
    have hlt := (List.getElem?_eq_some_iff.1 hi).1
    have hindex : ¬0xFFFFFFFFFFFFFFFF < i := by omega
    simp only [Reference.descend, Reference.index?_toString_eq, if_neg hindex, hi]
  | @member members k _ hk =>
    cases h.noRepeats with
    | object hkeys => simp only [Reference.descend, lookup_of_mem hkeys hk]

/-- What lies below an id lies below that of the value or below one of the part it is in. -/
theorem Json.IsDocument.belowId_cons {v w : Json} {step : Step} {path : List Step}
    (h : v.IsDocument) (hstep : v.LeadsTo step w) (hbelow : v.BelowId (step :: path)) :
    (∃ members, v = .object members ∧ HasId members) ∨ w.BelowId path := by
  obtain ⟨before, last, after, members, hpath, hmembers, hid⟩ := hbelow
  cases before with
  | nil => exact .inl ⟨members, (eq_of_mem_nodes_nil hmembers).symm, hid⟩
  | cons first before =>
    obtain ⟨rfl, rfl⟩ := List.cons.inj hpath
    obtain ⟨w', hstep', hmembers'⟩ := mem_nodes_cons.1 hmembers
    obtain rfl : w = w' := Except.ok.inj ((h.descend hstep v).symm.trans (h.descend hstep' v))
    exact .inr ⟨before, last, after, members, rfl, hmembers', hid⟩

/-! ### How places are spelled -/

/-- The reference of a value with its id, if the value is an object that has one. -/
def Reference.withIdOf (r : Reference) : Json → Reference
  | .object members =>
    match members.lookup "$id" with
    | some (.string id) => (parse id).resolveAgainst r
    | _ => r
  | _ => r

/-- How a place in a value is spelled when the value stands at the reference: by the steps that lead
to it and the ids that are met on the way, its own one included. -/
def Json.spelled (r : Reference) (v : Json) : List Step → Reference
  | [] => r.withIdOf v
  | .key name :: path =>
    match v.child? name with
    | some w => spelled ((r.withIdOf v).push name) w path
    | none => r
  | _ => r

/-- An object stands at the path that has an id or lies below one. -/
def Json.IsIdentified (v : Json) (path : List Step) : Prop :=
  ∃ members, (path, .object members) ∈ v.nodes ∧ (HasId members ∨ v.BelowId path)

namespace Place

variable {p q : Place} {v u : Json} {path : List Step}

theorem virtual_withIdOf (place : Place) (members : List (String × Json)) :
    (place.withIdOf members).virtual = place.virtual.withIdOf (.object members) := by
  unfold withIdOf withId Reference.withIdOf
  dsimp only
  cases members.lookup "$id" with
  | none => rfl
  | some id => cases id <;> rfl

/-- The place that a value is walked to is spelled as the value's place is. -/
theorem Walks.spelled (h : p.Walks v path q u) (hv : v.IsDocument) :
    v.spelled p.virtual path = q.virtual.withIdOf u := by
  induction h with
  | here p v => rfl
  | item hi _ ih =>
    rw [Json.spelled, Json.child?_item hi]
    exact ih (hv.leadsTo (.item hi))
  | @member p q members k w u path hk _ ih =>
    have hchild : (Json.object members).child? k = some w := by
      cases hv.noRepeats with
      | object hkeys => exact Json.lookup_of_mem hkeys hk
    rw [Json.spelled, hchild, ← virtual_withIdOf]
    exact ih (hv.leadsTo (.member hk))

/-- A value that is walked to is looked up. -/
theorem Walks.lookup (h : p.Walks v path q u) (hv : v.IsDocument) (document : Json) :
    path.foldlM (Reference.descend document) v = .ok u := by
  induction h with
  | here p v => rfl
  | item hi _ ih =>
    rw [List.foldlM_cons, hv.descend (.item hi) document]
    exact ih (hv.leadsTo (.item hi))
  | member hk _ ih =>
    rw [List.foldlM_cons, hv.descend (.member hk) document]
    exact ih (hv.leadsTo (.member hk))

theorem Walks.underId_iff (h : p.Walks v path q u) (hv : v.IsDocument) :
    q.underId = true ↔ p.underId = true ∨ v.BelowId path := by
  refine ⟨h.belowId, ?_⟩
  induction h with
  | here p v =>
    rintro (hp | ⟨before, step, after, ms, hpath, -⟩)
    · exact hp
    · exact absurd hpath.symm (List.append_ne_nil_of_right_ne_nil before (List.cons_ne_nil _ _))
  | item hi _ ih =>
    have hstep := Json.LeadsTo.item hi
    rintro (hp | hbelow)
    · exact ih (hv.leadsTo hstep) (.inl hp)
    · rcases hv.belowId_cons hstep hbelow with ⟨members, heq, -⟩ | hbelow
      · cases heq
      · exact ih (hv.leadsTo hstep) (.inr hbelow)
  | member hk _ ih =>
    have hstep := Json.LeadsTo.member hk
    rintro (hp | hbelow)
    · exact ih (hv.leadsTo hstep) (.inl (underId_withIdOf.2 (.inl hp)))
    · rcases hv.belowId_cons hstep hbelow with ⟨members, heq, hid⟩ | hbelow
      · cases heq
        exact ih (hv.leadsTo hstep) (.inl (underId_withIdOf.2 (.inr hid)))
      · exact ih (hv.leadsTo hstep) (.inr hbelow)

end Place

namespace Aliases

/-- The aliases of documents that are added in turn, each with its address. -/
def ofDocuments (documents : List (String × Json)) : Aliases :=
  documents.foldl (fun aliases d => aliases.add d.2 d.1) .empty

variable {documents : List (String × Json)}

theorem ofDocuments_concat (documents : List (String × Json)) (d : String × Json) :
    ofDocuments (documents ++ [d]) = (ofDocuments documents).add d.2 d.1 := by
  rw [ofDocuments, List.foldl_concat]
  rfl

/-- The first document under an address is the first one before the last document, or the last one
if there is none before. -/
theorem lookup_concat_eq_some {d : String × Json} {address : String} {document : Json} :
    (documents ++ [d]).lookup address = some document ↔
      documents.lookup address = some document ∨
        documents.lookup address = none ∧ address = d.1 ∧ d.2 = document := by
  rw [List.lookup_append, Option.or_eq_some_iff, SortedMap.lookup_cons_eq, List.lookup_nil,
    Option.ite_none_right_eq_some, Option.some.injEq]

theorem mem_scanned_ofDocuments {address : String} :
    address ∈ (ofDocuments documents).scanned ↔
      ∃ document, documents.lookup address = some document := by
  induction documents using List.reverseRecOn with
  | nil => simp [ofDocuments, empty]
  | append_singleton documents d ih =>
    rw [ofDocuments_concat, add]
    split
    · next hscanned =>
      rw [ih]
      constructor
      · rintro ⟨document, hfirst⟩
        exact ⟨document, lookup_concat_eq_some.2 (.inl hfirst)⟩
      · rintro ⟨document, hfirst⟩
        rcases lookup_concat_eq_some.1 hfirst with hfirst | ⟨-, rfl, -⟩
        · exact ⟨document, hfirst⟩
        · exact ih.1 (List.contains_iff_mem.1 hscanned)
    · rw [List.mem_cons, ih]
      constructor
      · rintro (rfl | ⟨document, hfirst⟩)
        · cases hfirst : documents.lookup d.1 with
          | some document => exact ⟨document, lookup_concat_eq_some.2 (.inl hfirst)⟩
          | none => exact ⟨d.2, lookup_concat_eq_some.2 (.inr ⟨hfirst, rfl, rfl⟩)⟩
        · exact ⟨document, lookup_concat_eq_some.2 (.inl hfirst)⟩
      · rintro ⟨document, hfirst⟩
        rcases lookup_concat_eq_some.1 hfirst with hfirst | ⟨-, rfl, -⟩
        · exact .inr ⟨document, hfirst⟩
        · exact .inl rfl

/-- The entries are those of the first document under each address. -/
theorem mem_entries_ofDocuments {e : Reference × Place} :
    e ∈ (ofDocuments documents).entries ↔ ∃ address document,
      documents.lookup address = some document ∧
        Records (.ofReference (.root (some address))) document e := by
  induction documents using List.reverseRecOn with
  | nil => simp [ofDocuments, empty]
  | append_singleton documents d ih =>
    simp only [ofDocuments_concat, add, lookup_concat_eq_some]
    split
    · next hscanned =>
      obtain ⟨old, hold⟩ := mem_scanned_ofDocuments.1 (List.contains_iff_mem.1 hscanned)
      rw [ih]
      constructor
      · rintro ⟨address, document, hfirst, hrecords⟩
        exact ⟨address, document, .inl hfirst, hrecords⟩
      · rintro ⟨address, document, hfirst | ⟨hnone, rfl, -⟩, hrecords⟩
        · exact ⟨address, document, hfirst, hrecords⟩
        · rw [hold] at hnone
          cases hnone
    · next hnew =>
      have hnone : documents.lookup d.1 = none :=
        Option.eq_none_iff_forall_ne_some.2 fun document hdocument =>
          hnew (List.contains_iff_mem.2 (mem_scanned_ofDocuments.2 ⟨document, hdocument⟩))
      obtain ⟨new, hentries, hmem⟩ := scan_spec (.ofReference (.root (some d.1)))
        (ofDocuments documents).entries d.2
      rw [hentries, List.mem_append, hmem, ih]
      constructor
      · rintro (hrecords | ⟨address, document, hfirst, hrecords⟩)
        · exact ⟨d.1, d.2, .inr ⟨hnone, rfl, rfl⟩, hrecords⟩
        · exact ⟨address, document, .inl hfirst, hrecords⟩
      · rintro ⟨address, document, hfirst | ⟨-, rfl, rfl⟩, hrecords⟩
        · exact .inr ⟨address, document, hfirst, hrecords⟩
        · exact .inl hrecords

/-- The entry is that of the object with these members, which stands at the path in the document
under the address and has an id or lies below one. -/
structure IsEntryFor (address : String) (document : Json) (path : List Step)
    (members : List (String × Json)) (r : Reference) (place : Place) : Prop where
  identified : document.IsIdentified path
  canonical : place.canonical = ⟨some address, .root :: path⟩
  object : place.canonical.lookup document = .ok (.object members)
  spelled : document.spelled (.root (some address)) path = r
  source : (∃ id, members.lookup "$id" = some (.string id) ∧
      (Reference.parse id).resolveAgainst place.virtual = r) ∨
    place.virtual = r ∧ place.underId = true

theorem Records.isEntryFor {address : String} {document : Json} {r : Reference} {place : Place}
    (haddress : address ≠ "") (hdocument : document.IsDocument)
    (h : Records (.ofReference (.root (some address))) document (r, place)) :
    ∃ path members, IsEntryFor address document path members r place := by
  obtain ⟨path, q, members, hwalks, hid, heq⟩ := h
  obtain ⟨rfl, rfl⟩ := Prod.mk.inj heq
  have hcanonical : place.canonical = ⟨some address, .root :: path⟩ := by
    rw [hwalks.canonical, Place.ofReference, Reference.root_eq haddress]
    rfl
  have hbelow : place.underId = true ↔ document.BelowId path :=
    (hwalks.underId_iff hdocument).trans (or_iff_right Bool.false_ne_true)
  refine ⟨path, members, ?_, hcanonical, ?_, ?_, ?_⟩
  · refine ⟨members, hwalks.mem_nodes, ?_⟩
    rw [← hbelow, or_comm]
    exact Place.underId_withIdOf.1 hid
  · rw [Reference.lookup, hcanonical, List.foldlM_cons]
    exact hwalks.lookup hdocument document
  · rw [Place.virtual_withIdOf]
    exact hwalks.spelled hdocument
  · by_cases hown : Json.HasId members
    · obtain ⟨id, hlookup⟩ := hown
      rw [Place.withIdOf_of_lookup hlookup]
      exact .inl ⟨id, hlookup, rfl⟩
    · rw [Place.withIdOf_of_idFree (not_exists.1 hown)] at hid ⊢
      exact .inr ⟨rfl, hid⟩

theorem exists_isEntryFor (haddress : ∀ d ∈ documents, d.1 ≠ "")
    (hdocument : ∀ d ∈ documents, d.2.IsDocument) {r : Reference} {place : Place}
    (h : (ofDocuments documents).entries.lookup r = some place) :
    ∃ address document path members, documents.lookup address = some document ∧
      IsEntryFor address document path members r place := by
  obtain ⟨address, document, hfirst, hrecords⟩ := mem_entries_ofDocuments.1 (mem_of_lookup h)
  have hmem := mem_of_lookup hfirst
  obtain ⟨path, members, hentry⟩ := hrecords.isEntryFor (haddress _ hmem) (hdocument _ hmem)
  exact ⟨address, document, path, members, hfirst, hentry⟩

/-- An object that has an id or lies below one has an entry. -/
theorem exists_records {document : Json} {path : List Step} (hdocument : document.IsDocument)
    (hid : document.IsIdentified path) (r : Reference) :
    ∃ place, Records (.ofReference r) document (document.spelled r path, place) := by
  obtain ⟨members, hmembers, hid⟩ := hid
  obtain ⟨q, hwalks⟩ := Place.exists_walks (.ofReference r) hmembers
  refine ⟨q, path, q, members, hwalks, ?_, ?_⟩
  · rw [Place.underId_withIdOf, hwalks.underId_iff hdocument, or_comm]
    exact hid.imp_right .inr
  · rw [Place.virtual_withIdOf, ← hwalks.spelled hdocument]
    rfl

/-- The entries of documents that are added in turn are exact. Each leads to an object of a document
under the address of its canonical reference, the first one there, and comes from the id of that
object or from one above it. Each object that has an id or lies below one has an entry under the way
its place is spelled, and unless another one is spelled alike the entry leads to it. -/
theorem entries_exact {documents : List (String × Json)}
    (haddress : ∀ d ∈ documents, d.1 ≠ "") (hdocument : ∀ d ∈ documents, d.2.IsDocument) :
    (∀ r place, (ofDocuments documents).entries.lookup r = some place →
      ∃ address document path members, documents.lookup address = some document ∧
        place.canonical = ⟨some address, .root :: path⟩ ∧
        place.canonical.lookup document = .ok (.object members) ∧
        ((∃ id, members.lookup "$id" = some (.string id) ∧
            (Reference.parse id).resolveAgainst place.virtual = r) ∨
          place.virtual = r ∧ place.underId = true)) ∧
    ∀ address document path, documents.lookup address = some document →
      document.IsIdentified path →
      ∃ place, (ofDocuments documents).entries.lookup
          (document.spelled (.root (some address)) path) = some place ∧
        ((∀ address' document' path', documents.lookup address' = some document' →
            document'.IsIdentified path' →
            document'.spelled (.root (some address')) path' =
              document.spelled (.root (some address)) path →
            address' = address ∧ path' = path) →
          place.canonical = ⟨some address, .root :: path⟩) := by
  refine ⟨fun r place h => ?_, fun address document path hfirst hid => ?_⟩
  · obtain ⟨address, document, path, members, hfirst, hentry⟩ :=
      exists_isEntryFor haddress hdocument h
    exact ⟨address, document, path, members, hfirst, hentry.canonical, hentry.object, hentry.source⟩
  · obtain ⟨q, hrecords⟩ := exists_records (hdocument _ (mem_of_lookup hfirst)) hid
      (.root (some address))
    obtain ⟨place, h⟩ := exists_lookup_of_mem
      (mem_entries_ofDocuments.2 ⟨address, document, hfirst, hrecords⟩)
    refine ⟨place, h, fun hunique => ?_⟩
    -- The entry may be that of another object, but only of one that is spelled alike.
    obtain ⟨address', document', path', members, hfirst', hentry⟩ :=
      exists_isEntryFor haddress hdocument h
    obtain ⟨rfl, rfl⟩ := hunique address' document' path' hfirst' hentry.identified hentry.spelled
    exact hentry.canonical

/-- A document with an id at its root and one below. -/
def anchored : Json :=
  .object [("$id", .string "#top"),
    ("definitions", .object [("A", .object [("$id", .string "#a")])])]

/-- The inner id names its object in the first document under the address. -/
theorem entries_exact_anchored :
    ∃ place, (ofDocuments [("doc.json", anchored), ("doc.json", .null)]).entries.lookup
        ⟨some "doc.json", [.key "a"]⟩ = some place ∧
      place.canonical = ⟨some "doc.json", [.root, .key "definitions", .key "A"]⟩ := by
  have hanchored : anchored.IsDocument := by
    have hdistinct : anchored.distinct = anchored := rfl
    refine ⟨hdistinct ▸ Json.noRepeats_distinct anchored, fun path items hitems => ?_⟩
    simp [anchored, Json.nodes, Json.nodesOfMembers] at hitems
  have hnull : Json.null.IsDocument :=
    ⟨.null, fun path items hitems => by simp [Json.nodes] at hitems⟩
  have halike : ∀ e ∈ anchored.nodes,
      anchored.spelled (.root (some "doc.json")) e.1 = ⟨some "doc.json", [.key "a"]⟩ →
        e.1 = [.key "definitions", .key "A"] := by decide +kernel
  have hspelled : anchored.spelled (.root (some "doc.json")) [.key "definitions", .key "A"] =
      ⟨some "doc.json", [.key "a"]⟩ := by decide +kernel
  have haddress : ∀ d ∈ [("doc.json", anchored), ("doc.json", Json.null)], d.1 ≠ "" := by
    simp
  have hdocument : ∀ d ∈ [("doc.json", anchored), ("doc.json", Json.null)], d.2.IsDocument := by
    simp [hanchored, hnull]
  have hid : anchored.IsIdentified [.key "definitions", .key "A"] :=
    ⟨[("$id", .string "#a")], by simp [anchored, Json.nodes, Json.nodesOfMembers],
      .inl ⟨"#a", rfl⟩⟩
  obtain ⟨place, hentry, hplace⟩ := (entries_exact haddress hdocument).2 "doc.json" anchored _ rfl
    hid
  refine ⟨place, hspelled ▸ hentry, hplace fun address document path hfirst hid hsame => ?_⟩
  rw [hspelled] at hsame
  rw [SortedMap.lookup_cons_eq, SortedMap.lookup_cons_eq] at hfirst
  split at hfirst
  · next hdoc =>
    obtain rfl := hdoc
    obtain rfl := Option.some.inj hfirst
    obtain ⟨members, hmembers, -⟩ := hid
    exact ⟨rfl, halike _ hmembers hsame⟩
  · cases hfirst

end Aliases

end JsonTyping
