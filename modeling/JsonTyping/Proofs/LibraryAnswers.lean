import JsonTyping.Proofs.Runs
import JsonTyping.Proofs.ScannedIds
import JsonTyping.Schema.Library
import JsonTyping.Sorted.Map

/-!
# What a library answers

A library in use gives the answers of the library it started from (`Library.Continues`). So a
reference is resolved to a place in one of the documents on the shelf (`Library.Finds`), two rounds
of a search are as good as any number (`Library.search_rounds`), and without ids it does not matter
how the library was used before (`Library.resolve_eq_of_idFree`).
-/

namespace JsonTyping

namespace Reference

/-- The reference has only steps that can be written. -/
def IsWritten (r : Reference) : Prop := ∀ step ∈ r.path, step = .root ∨ ∃ name, step = .key name

theorem isWritten_parse (s : String) : (parse s).IsWritten := by
  have hkeys : ∀ rest : List Char, ∀ step ∈ (if rest.isEmpty then [] else
      (Pointer.keys rest).map Step.key), step = .root ∨ ∃ name, step = .key name := by
    intro rest step hstep
    split at hstep
    · cases hstep
    · obtain ⟨name, -, rfl⟩ := List.mem_map.1 hstep
      exact .inr ⟨name, rfl⟩
  have hpath : ∀ fragment : List Char, ∀ step ∈ pathOfChars fragment,
      step = .root ∨ ∃ name, step = .key name := by
    intro fragment step hstep
    unfold pathOfChars at hstep
    dsimp only at hstep
    split at hstep
    · rcases List.mem_cons.1 hstep with rfl | hstep
      · exact .inl rfl
      · exact hkeys _ step hstep
    · exact hkeys _ step hstep
  have hparse : (parse s).path = [.root] ∨ ∃ fragment, (parse s).path = pathOfChars fragment := by
    unfold parse
    by_cases h : (if (s.toList.takeWhile (· != '#')).isEmpty then none
        else some (Address.normalize (String.ofList (s.toList.takeWhile (· != '#'))))).isSome ∧
        ((s.toList.dropWhile (· != '#')).drop 1).isEmpty
    · exact .inl (if_pos h)
    · exact .inr ⟨_, if_neg h⟩
  intro step hstep
  rcases hparse with hroot | ⟨fragment, hfragment⟩
  · rw [hroot] at hstep
    exact .inl (List.mem_singleton.1 hstep)
  · rw [hfragment] at hstep
    exact hpath fragment step hstep

theorem lookup_syntheticStep {r : Reference} {document : Json}
    (h : r.lookup document = .error .syntheticStep) : ¬ r.IsWritten := by
  have hfold : ∀ (path : List Step) (v : Json),
      path.foldlM (descend document) v = .error .syntheticStep →
        ∃ step ∈ path, step ≠ .root ∧ ∀ name, step ≠ .key name := by
    intro path
    induction path with
    | nil =>
      intro v hv
      cases hv
    | cons step path ih =>
      intro v hv
      rw [List.foldlM_cons] at hv
      cases hstep : descend document v step with
      | ok w =>
        rw [hstep] at hv
        obtain ⟨step', hmem, hsynthetic⟩ := ih w hv
        exact ⟨step', List.mem_cons_of_mem _ hmem, hsynthetic⟩
      | error e =>
        rw [hstep] at hv
        obtain rfl : e = .syntheticStep := Except.error.inj hv
        refine ⟨step, List.mem_cons_self, ?_, ?_⟩
        · rintro rfl
          cases hstep
        · rintro name rfl
          cases v with
          | object members =>
            simp only [descend] at hstep
            split at hstep <;> cases hstep
          | array items =>
            simp only [descend] at hstep
            split at hstep
            · cases hstep
            · split at hstep <;> cases hstep
          | _ => cases hstep
  intro hwritten
  obtain ⟨step, hmem, hroot, hkey⟩ := hfold r.path document h
  rcases hwritten step hmem with rfl | ⟨name, rfl⟩
  · exact hroot rfl
  · exact hkey name rfl

end Reference

theorem Json.isKey_of_mem_nodes {v w : Json} {path : List Step} (h : (path, w) ∈ v.nodes) :
    ∀ step ∈ path, ∃ name, step = .key name := by
  induction path generalizing v with
  | nil => exact fun step hstep => absurd hstep List.not_mem_nil
  | cons first path ih =>
    obtain ⟨u, hfirst, hu⟩ := mem_nodes_cons.1 h
    intro step hstep
    rcases List.mem_cons.1 hstep with rfl | hstep
    · cases hfirst with
      | item => exact ⟨_, rfl⟩
      | member => exact ⟨_, rfl⟩
    · exact ih hu step hstep

namespace Library

/-- What the library answers for an address. -/
def fetched (lib : Library) (address : String) : Except Halt (Option Json) :=
  match lib.answers.lookup address with
  | some answer => .ok answer
  | none =>
    match lib.store with
    | none => .error (.schema (.noSchemaStore address))
    | some store => .ok (store.fetch? address)

/-- The documents that were added or answered, and those in a store that keeps its documents. -/
def shelf (lib : Library) : List (String × Json) :=
  (lib.answers.filterMap fun e => e.2.map fun document => (e.1, document)) ++
    match lib.store with
    | some (.memory documents _) => documents
    | _ => []

/-- The library does not read files. -/
def InMemory (lib : Library) : Prop := ∀ files, lib.store ≠ some (.files files)

/-- No document on the shelf has an id. -/
def IdFree (lib : Library) : Prop := ∀ e ∈ lib.shelf, e.2.IdFree

/-- The reference is that of an object in a document on the shelf. -/
def IsObjectPlace (lib : Library) (r : Reference) : Prop :=
  ∃ address document path members, (address, document) ∈ lib.shelf ∧ address ≠ "" ∧
    (path, .object members) ∈ document.nodes ∧ r = ⟨some address, .root :: path⟩

theorem mem_shelf_of_fetched {lib : Library} (hmemory : lib.InMemory) {address : String}
    {document : Json} (h : lib.fetched address = .ok (some document)) :
    (address, document) ∈ lib.shelf := by
  unfold fetched at h
  unfold shelf
  split at h
  · next answer hanswer =>
    obtain rfl := Except.ok.inj h
    refine List.mem_append_left _ (List.mem_filterMap.2 ⟨(address, some document), ?_, rfl⟩)
    exact mem_of_lookup hanswer
  · split at h
    · cases h
    · next store hstore =>
      cases store with
      | files files => exact absurd hstore (hmemory files)
      | memory documents broken =>
        have hfetch := Except.ok.inj h
        rw [Store.fetch?] at hfetch
        split at hfetch
        · cases hfetch
        · rw [hstore]
          exact List.mem_append_right _ (mem_of_lookup hfetch)

/-- The library is the first one after some use: it gives the same answers, has no fewer documents
on its shelf, and knows other spellings only for places in them. -/
structure Continues (start lib : Library) : Prop where
  store : lib.store = start.store
  fetched : ∀ address, lib.fetched address = start.fetched address
  shelf : ∀ e ∈ start.shelf, e ∈ lib.shelf
  aliases : ∀ e ∈ lib.aliases.entries, start.IsObjectPlace e.2.canonical
  plain : start.IdFree → lib.aliases.entries = []

theorem fetch_spec (address : String) (lib : Library) :
    ∃ lib', outcome (fetch address) lib = (lib.fetched address, lib') ∧
      lib'.aliases = lib.aliases ∧ lib'.store = lib.store ∧
      (∀ other, lib'.fetched other = lib.fetched other) ∧ ∀ e ∈ lib.shelf, e ∈ lib'.shelf := by
  unfold fetch fetched
  rw [outcome_bind_of_ok (outcome_get lib)]
  cases hanswer : lib.answers.lookup address with
  | some answer => exact ⟨lib, rfl, rfl, rfl, fun _ => rfl, fun _ he => he⟩
  | none =>
    cases hstore : lib.store with
    | none => exact ⟨lib, rfl, rfl, hstore, fun _ => by rw [hstore], fun _ he => he⟩
    | some store =>
      refine ⟨⟨lib.aliases, (address, store.fetch? address) :: lib.answers, some store,
        address :: lib.asked⟩, rfl, rfl, rfl, fun other => ?_, fun e he => ?_⟩
      · dsimp only
        rw [SortedMap.lookup_cons_eq]
        by_cases hother : other = address
        · subst hother
          rw [if_pos rfl, hanswer]
        · rw [if_neg hother]
      · unfold shelf at he ⊢
        rw [hstore] at he
        rcases List.mem_append.1 he with he | he
        · refine List.mem_append_left _ ?_
          rw [List.filterMap_cons]
          split
          · exact he
          · exact List.mem_cons_of_mem _ he
        · exact List.mem_append_right _ he

theorem Continues.fetch {start lib : Library} (h : Continues start lib) (address : String) :
    ∃ lib', outcome (fetch address) lib = (start.fetched address, lib') ∧ Continues start lib' ∧
      lib'.aliases = lib.aliases := by
  obtain ⟨lib', hrun, haliases, hstore, hfetched, hshelf⟩ := fetch_spec address lib
  refine ⟨lib', by rw [hrun, h.fetched], ⟨hstore.trans h.store, fun other => ?_, fun e he => ?_,
    ?_, ?_⟩, haliases⟩
  · rw [hfetched, h.fetched]
  · exact hshelf e (h.shelf e he)
  · rw [haliases]
    exact h.aliases
  · rw [haliases]
    exact h.plain

/-! ### Where references lead -/

/-- The path is that of the reference, or one that stands for it. -/
def IsPathFor (start : Library) (r : Reference) (path : List Step) : Prop :=
  path = r.path ∨ path = [.root] ∨ ∃ q, start.IsObjectPlace q ∧ q.path = path

end Library

/-- The place is spelled only in one way, and its address is not empty. -/
def Place.IsPlain (p : Place) : Prop :=
  p = .ofReference p.canonical ∧ p.canonical.address ≠ some ""

namespace Library

/-- A place in a document that is answered for its address. -/
structure Finds (start : Library) (base : Place) (r : Reference) (found : Resolved) : Prop where
  document : ∃ address, found.place.canonical.address = some address ∧ address ≠ "" ∧
    start.fetched address = .ok (some found.document)
  path : start.IsPathFor r found.place.canonical.path
  value : ∃ v, found.place.canonical.lookup found.document = .ok v
  plain : start.IdFree → base.IsPlain → found.place.IsPlain

/-- What is wrong is the schema or the documents, or else the reference was not a written one. -/
def HaltsFor (r : Reference) (e : Halt) : Prop :=
  (∃ error, e = .schema error) ∨ ¬ r.IsWritten ∧ ∃ text, e = .misuse (.syntheticStep text)

theorem Continues.isWritten {start : Library} {r : Reference} {path : List Step}
    (h : start.IsPathFor r path) (hr : r.IsWritten) (address : Option String) :
    (Reference.mk address path).IsWritten := by
  rcases h with rfl | rfl | ⟨q, ⟨_, document, keys, members, -, -, hkeys, rfl⟩, rfl⟩
  · exact hr
  · intro step hstep
    exact .inl (List.mem_singleton.1 hstep)
  · intro step hstep
    rcases List.mem_cons.1 hstep with rfl | hstep
    · exact .inl rfl
    · exact .inr (Json.isKey_of_mem_nodes hkeys step hstep)

theorem valueAt_spec (document : Json) (place : Reference) :
    (∃ v, place.lookup document = .ok v ∧ valueAt document place = .ok v) ∨
      ∃ e, valueAt document place = .error e ∧
        ((∃ error, e = .schema error) ∨
          ¬ place.IsWritten ∧ ∃ text, e = .misuse (.syntheticStep text)) := by
  unfold valueAt
  cases h : place.lookup document with
  | ok v => exact .inl ⟨v, rfl, rfl⟩
  | error cause =>
    refine .inr ⟨_, rfl, ?_⟩
    cases cause with
    | syntheticStep => exact .inr ⟨Reference.lookup_syntheticStep h, _, rfl⟩
    | _ => exact .inl ⟨_, rfl⟩

/-- Without an entry, the place in the document at the address seen from the base. -/
def fallback (base : Place) (r : Reference) : Place :=
  let virtual := r.resolveAgainst base.virtual
  ⟨virtual.withAddress (virtual.address.or base.canonical.address), virtual, false⟩

theorem locate_of_nil {aliases : Aliases} (h : aliases.entries = []) (base : Place)
    (r : Reference) : aliases.locate base r = fallback base r := by
  simp only [Aliases.locate, h, List.lookup_nil, fallback]

theorem path_resolveAgainst (r base : Reference) :
    (r.resolveAgainst base).path = r.path ∨ (r.resolveAgainst base).path = [.root] :=
  (ite_eq_or_eq _ _ _).symm

theorem address_fallback (base : Place) (r : Reference) :
    (fallback base r).canonical.address ≠ some "" := by
  intro h
  simp only [fallback, Reference.withAddress, Reference.ofParts] at h
  obtain ⟨-, hempty⟩ := Option.filter_eq_some_iff.1 h
  exact absurd hempty (by decide)

theorem Continues.locate {start lib : Library} (h : Continues start lib) (base : Place)
    (r : Reference) :
    (lib.aliases.locate base r).canonical.address ≠ some "" ∧
      start.IsPathFor r (lib.aliases.locate base r).canonical.path := by
  have hlocate : lib.aliases.locate base r = fallback base r ∨
      ∃ e ∈ lib.aliases.entries, lib.aliases.locate base r = e.2 := by
    unfold Aliases.locate
    dsimp only
    split
    · next place hplace => exact .inr ⟨(_, place), mem_of_lookup hplace, rfl⟩
    · exact .inl rfl
  rcases hlocate with heq | ⟨e, he, heq⟩
  · rw [heq]
    refine ⟨address_fallback base r, ?_⟩
    rcases path_resolveAgainst r base.virtual with hpath | hpath
    · exact .inl hpath
    · exact .inr (.inl hpath)
  · rw [heq]
    obtain ⟨address, document, path, members, hmem, hne, hpath, hcanonical⟩ := h.aliases e he
    rw [hcanonical]
    refine ⟨fun hempty => hne (Option.some.inj hempty), .inr (.inr ⟨_, ?_, rfl⟩)⟩
    exact ⟨address, document, path, members, hmem, hne, hpath, rfl⟩

theorem Continues.scan {start lib : Library} (h : Continues start lib) {address : String}
    {document : Json} (hne : address ≠ "") (hmem : (address, document) ∈ start.shelf) :
    Continues start { lib with aliases := lib.aliases.add document address } := by
  refine ⟨h.store, h.fetched, h.shelf, ?_, fun hfree => ?_⟩
  · intro e he
    dsimp only [Aliases.add] at he
    split at he
    · exact h.aliases e he
    · obtain ⟨new, hnew, hentries⟩ := Aliases.scan_eq_append
        (.ofReference (.root (some address))) lib.aliases.entries document
      dsimp only at he
      rw [hnew] at he
      rcases List.mem_append.1 he with he | he
      · obtain ⟨path, members, hpath, hcanonical⟩ := hentries e he
        refine ⟨address, document, path, members, hmem, hne, hpath, ?_⟩
        rw [hcanonical]
        simp only [Place.ofReference, Reference.root_eq hne, List.singleton_append]
      · exact h.aliases e he
  · dsimp only [Aliases.add]
    split
    · exact h.plain hfree
    · dsimp only
      rw [Aliases.scan_of_idFree _ rfl _ _ (hfree _ hmem), h.plain hfree]

/-! ### Searching -/

theorem search_succ (fetchBase lookupBase : Place) (r : Reference) (rounds : Nat) (lib : Library) :
    outcome (search fetchBase lookupBase r (rounds + 1)) lib =
      match (lib.aliases.locate fetchBase r).canonical.address with
      | none => (.error (.schema (.noAddress r)), lib)
      | some address =>
        match outcome (fetch address) lib with
        | (.error e, lib) => (.error e, lib)
        | (.ok none, lib) => (.ok none, lib)
        | (.ok (some document), lib) =>
          if lib.aliases.scanned.contains address then
            let found := lib.aliases.locate lookupBase r
            let place := { found with canonical := found.canonical.withAddress (some address) }
            match valueAt document place.canonical with
            | .ok _ => (.ok (some ⟨document, place⟩), lib)
            | .error e => (.error e, lib)
          else
            outcome (search fetchBase lookupBase r rounds)
              { lib with aliases := lib.aliases.add document address } := by
  rw [search, outcome_bind_of_ok (outcome_get lib)]
  dsimp only
  cases (lib.aliases.locate fetchBase r).canonical.address with
  | none => rfl
  | some address =>
    dsimp only
    rw [outcome_bind]
    rcases outcome (fetch address) lib with ⟨answer, lib'⟩
    cases answer with
    | error e => rfl
    | ok answer =>
      cases answer with
      | none => rfl
      | some document =>
        dsimp only
        rw [outcome_bind_of_ok (outcome_get lib')]
        split
        · rw [outcome_bind_of_ok (outcome_get lib'), outcome_bind]
          cases valueAt document _ with
          | ok v => rfl
          | error e => rfl
        · rw [outcome_bind_of_ok (outcome_modify _ lib')]

theorem withAddress_eq {p : Reference} {address : String} (hne : address ≠ "") :
    p.withAddress (some address) = ⟨some address, p.path⟩ := by
  simp [Reference.withAddress, Reference.ofParts, Option.filter, hne]

/-- Seen from a plain place, the fallback is plain if it has an address at all. -/
theorem isPlain_fallback {base : Place} (hbase : base.IsPlain) {r : Reference} {address : String}
    (h : (fallback base r).canonical.address = some address) :
    (fallback base r).IsPlain ∧ (fallback base r).canonical.withAddress (some address) =
      (fallback base r).canonical := by
  have hne : address ≠ "" := by
    rintro rfl
    exact address_fallback base r h
  have hvirtual : (r.resolveAgainst base.virtual).address = some address := by
    have hfilter := Option.filter_eq_some_iff.1
      (show ((r.resolveAgainst base.virtual).address.or base.canonical.address).filter
        (!·.isEmpty) = some address from h)
    cases haddress : (r.resolveAgainst base.virtual).address with
    | some own =>
      rw [haddress, Option.some_or] at hfilter
      exact hfilter.1
    | none =>
      have hnone : base.canonical.address = none := by
        rw [hbase.1] at haddress
        simp only [Reference.resolveAgainst, Reference.resolveAgainstWith,
          Place.ofReference] at haddress
        split at haddress
        · exact haddress
        · cases haddress
        · cases haddress
      rw [haddress, hnone] at hfilter
      cases hfilter.1
  have hcanonical : (fallback base r).canonical = r.resolveAgainst base.virtual := by
    simp only [fallback, hvirtual, Option.some_or, withAddress_eq hne]
    rw [← hvirtual]
  refine ⟨⟨?_, address_fallback base r⟩, ?_⟩
  · have hplace : fallback base r =
        ⟨(fallback base r).canonical, r.resolveAgainst base.virtual, false⟩ := rfl
    rw [hplace, hcanonical]
    rfl
  · rw [withAddress_eq hne, hcanonical, ← hvirtual]

theorem alternateBase_of_isPlain {base : Place} (h : base.IsPlain) : alternateBase base = base := by
  obtain ⟨hbase, hne⟩ := h
  obtain ⟨canonical, virtual, underId⟩ := base
  obtain rfl : virtual = canonical := congrArg Place.virtual hbase
  obtain ⟨address, path⟩ := virtual
  cases address with
  | none => rfl
  | some address =>
    have hfull : address ≠ "" := fun hempty => hne (congrArg some hempty)
    simp only [alternateBase, withAddress_eq hfull]

/-- What a search may end with. -/
def SearchEnds (start : Library) (base : Place) (r : Reference) :
    Except Halt (Option Resolved) → Prop
  | .ok none => True
  | .ok (some found) => Finds start base r found
  | .error e => HaltsFor r e

theorem Continues.found {start lib : Library} (h : Continues start lib)
    {fetchBase lookupBase : Place} (hbase : lookupBase.IsPlain → fetchBase = lookupBase)
    {r : Reference} {address : String} {document : Json}
    (haddress : (lib.aliases.locate fetchBase r).canonical.address = some address)
    (hdocument : start.fetched address = .ok (some document)) {place : Place}
    (hplace : place = { lib.aliases.locate lookupBase r with
      canonical := (lib.aliases.locate lookupBase r).canonical.withAddress (some address) }) :
    (∃ v, valueAt document place.canonical = .ok v ∧ Finds start lookupBase r ⟨document, place⟩) ∨
      ∃ e, valueAt document place.canonical = .error e ∧ HaltsFor r e := by
  have hne : address ≠ "" := by
    rintro rfl
    exact (h.locate fetchBase r).1 haddress
  obtain ⟨-, hpath⟩ := h.locate lookupBase r
  have hcanonical : place.canonical =
      ⟨some address, (lib.aliases.locate lookupBase r).canonical.path⟩ := by
    rw [hplace]
    exact withAddress_eq hne
  rcases valueAt_spec document place.canonical with ⟨v, hlookup, hvalue⟩ | ⟨e, hvalue, he⟩
  · refine .inl ⟨v, hvalue, ⟨⟨address, by rw [hcanonical], hne, hdocument⟩, ?_, ⟨v, hlookup⟩,
      fun hfree hplain => ?_⟩⟩
    · rw [hcanonical]
      exact hpath
    · obtain rfl := hbase hplain
      have hlocate := locate_of_nil (h.plain hfree) fetchBase r
      rw [hlocate] at haddress hplace
      obtain ⟨hfallback, hsame⟩ := isPlain_fallback hplain haddress
      rw [hsame] at hplace
      exact hplace ▸ hfallback
  · refine .inr ⟨e, hvalue, ?_⟩
    rcases he with hschema | ⟨hwritten, htext⟩
    · exact .inl hschema
    · refine .inr ⟨fun hr => hwritten ?_, htext⟩
      rw [hcanonical]
      exact Continues.isWritten hpath hr (some address)

theorem Continues.search {start lib : Library} (hmemory : start.InMemory)
    (h : Continues start lib) {fetchBase lookupBase : Place}
    (hbase : lookupBase.IsPlain → fetchBase = lookupBase) (r : Reference) (rounds : Nat) :
    ∃ result lib', outcome (search fetchBase lookupBase r rounds) lib = (result, lib') ∧
      Continues start lib' ∧ SearchEnds start lookupBase r result := by
  -- A round answers or scans a document, after which the library still gives the same answers.
  induction rounds generalizing lib with
  | zero => exact ⟨.ok none, lib, rfl, h, trivial⟩
  | succ rounds ih =>
    rw [search_succ]
    cases haddress : (lib.aliases.locate fetchBase r).canonical.address with
    | none => exact ⟨_, lib, rfl, h, .inl ⟨_, rfl⟩⟩
    | some address =>
      obtain ⟨lib', hrun, h', haliases⟩ := h.fetch address
      rw [← haliases] at haddress
      dsimp only
      rw [hrun]
      cases hfetched : start.fetched address with
      | error e =>
        refine ⟨_, lib', rfl, h', .inl ?_⟩
        unfold Library.fetched at hfetched
        split at hfetched
        · cases hfetched
        · split at hfetched
          · exact ⟨_, (Except.error.inj hfetched).symm⟩
          · cases hfetched
      | ok answer =>
        cases answer with
        | none => exact ⟨.ok none, lib', rfl, h', trivial⟩
        | some document =>
          dsimp only
          split
          · rcases h'.found hbase haddress hfetched rfl with ⟨v, hvalue, hfinds⟩ | ⟨e, hvalue, he⟩
            · rw [hvalue]
              exact ⟨_, lib', rfl, h', hfinds⟩
            · rw [hvalue]
              exact ⟨_, lib', rfl, h', he⟩
          · have hne : address ≠ "" := by
              rintro rfl
              exact (h'.locate fetchBase r).1 haddress
            exact ih (h'.scan hne (mem_shelf_of_fetched hmemory hfetched))

/-- A reference is resolved to a place in a document, or something is wrong with the documents. -/
theorem Continues.resolve {start lib : Library} (hmemory : start.InMemory)
    (h : Continues start lib) (base : Place) (r : Reference) :
    ∃ result lib', outcome (resolve base r) lib = (result, lib') ∧ Continues start lib' ∧
      match result with
      | .ok found => Finds start base r found
      | .error e => HaltsFor r e := by
  obtain ⟨result, lib', hrun, h', hends⟩ := h.search hmemory (fun _ => rfl) r 2
  unfold Library.resolve
  rw [outcome_bind, hrun]
  cases result with
  | error e => exact ⟨_, lib', rfl, h', hends⟩
  | ok found =>
    cases found with
    | some found => exact ⟨_, lib', rfl, h', hends⟩
    | none =>
      obtain ⟨result, lib'', hrun', h'', hends'⟩ :=
        h'.search hmemory (fun hplain => alternateBase_of_isPlain hplain) r 2
      dsimp only
      rw [outcome_bind, hrun']
      cases result with
      | error e => exact ⟨_, lib'', rfl, h'', hends'⟩
      | ok found =>
        cases found with
        | some found => exact ⟨_, lib'', rfl, h'', hends'⟩
        | none => exact ⟨_, lib'', rfl, h'', .inl ⟨_, rfl⟩⟩

/-- Scanning the document at the address of a place leaves the place at this address. -/
theorem address_locate_add {aliases : Aliases} {base : Place} {r : Reference}
    {address other : String} (document : Json)
    (h : (aliases.locate base r).canonical.address = some address)
    (hadd : ((aliases.add document address).locate base r).canonical.address = some other) :
    other = address := by
  unfold Aliases.add at hadd
  split at hadd
  · rw [h] at hadd
    exact (Option.some.inj hadd).symm
  · obtain ⟨new, hnew, hentries⟩ := Aliases.scan_eq_append
      (.ofReference (.root (some address))) aliases.entries document
    rw [hnew] at hadd
    unfold Aliases.locate at hadd
    dsimp only at hadd
    rw [List.lookup_append] at hadd
    cases hplace : new.lookup (r.resolveAgainst base.virtual) with
    | none =>
      rw [hplace, Option.none_or] at hadd
      exact Option.some.inj (hadd.symm.trans h)
    | some place =>
      rw [hplace] at hadd
      obtain ⟨path, members, -, hcanonical⟩ := hentries _ (mem_of_lookup hplace)
      have hroot : (some address).filter (!·.isEmpty) = some other := by
        rw [← hadd]
        exact (congrArg Reference.address hcanonical).symm
      exact (Option.some.inj (Option.filter_eq_some_iff.1 hroot).1).symm

theorem contains_scanned_add (aliases : Aliases) (document : Json) (address : String) :
    (aliases.add document address).scanned.contains address = true := by
  unfold Aliases.add
  split
  · assumption
  · simp only [List.contains_cons, BEq.rfl, Bool.true_or]

/-- When the document that is searched has been scanned, one round is enough. -/
theorem search_of_scanned {fetchBase : Place} {r : Reference} {lib : Library}
    (h : ∀ address, (lib.aliases.locate fetchBase r).canonical.address = some address →
      lib.aliases.scanned.contains address = true) (lookupBase : Place) (rounds : Nat) :
    outcome (search fetchBase lookupBase r (rounds + 1)) lib =
      outcome (search fetchBase lookupBase r 1) lib := by
  rw [search_succ, search_succ]
  cases haddress : (lib.aliases.locate fetchBase r).canonical.address with
  | none => rfl
  | some address =>
    obtain ⟨lib', hrun, haliases, -⟩ := fetch_spec address lib
    have hscanned : lib'.aliases.scanned.contains address = true := by
      rw [haliases]
      exact h address haddress
    dsimp only
    rw [hrun]
    cases lib.fetched address with
    | error e => rfl
    | ok answer =>
      cases answer with
      | none => rfl
      | some document => simp only [hscanned, if_true]

/-- Two rounds of a search find what any number of further rounds would find, whatever the library
was used for before. -/
theorem search_rounds (fetchBase lookupBase : Place) (r : Reference) (rounds : Nat)
    (lib : Library) :
    outcome (search fetchBase lookupBase r (rounds + 2)) lib =
      outcome (search fetchBase lookupBase r 2) lib := by
  rw [search_succ, search_succ]
  cases haddress : (lib.aliases.locate fetchBase r).canonical.address with
  | none => rfl
  | some address =>
    obtain ⟨lib', hrun, haliases, -⟩ := fetch_spec address lib
    dsimp only
    rw [hrun]
    cases lib.fetched address with
    | error e => rfl
    | ok answer =>
      cases answer with
      | none => rfl
      | some document =>
        rw [← haliases] at haddress
        dsimp only
        split
        · rfl
        · refine search_of_scanned (fun other hother => ?_) lookupBase rounds
          rw [address_locate_add document haddress hother]
          exact contains_scanned_add lib'.aliases document address

/-! ### Libraries without ids -/

/-- Where a search ends when there are no ids. -/
def searchWithoutIds (start : Library) (fetchBase lookupBase : Place) (r : Reference) :
    Except Halt (Option Resolved) :=
  match (fallback fetchBase r).canonical.address with
  | none => .error (.schema (.noAddress r))
  | some address =>
    match start.fetched address with
    | .error e => .error e
    | .ok none => .ok none
    | .ok (some document) =>
      let found := fallback lookupBase r
      let place := { found with canonical := found.canonical.withAddress (some address) }
      match valueAt document place.canonical with
      | .ok _ => .ok (some ⟨document, place⟩)
      | .error e => .error e

/-- One round of a search on a library that has scanned the document, if there is one. -/
theorem Continues.search_of_scanned {start lib : Library} (hfree : start.IdFree)
    (h : Continues start lib) {fetchBase : Place} {r : Reference}
    (hscanned : ∀ address, (fallback fetchBase r).canonical.address = some address →
      (∃ document, start.fetched address = .ok (some document)) →
        lib.aliases.scanned.contains address = true) (lookupBase : Place) (rounds : Nat) :
    ∃ lib', outcome (Library.search fetchBase lookupBase r (rounds + 1)) lib =
      (searchWithoutIds start fetchBase lookupBase r, lib') ∧ Continues start lib' := by
  rw [search_succ, locate_of_nil (h.plain hfree)]
  unfold searchWithoutIds
  cases haddress : (fallback fetchBase r).canonical.address with
  | none => exact ⟨lib, rfl, h⟩
  | some address =>
    obtain ⟨lib', hrun, h', haliases⟩ := h.fetch address
    dsimp only
    rw [hrun]
    cases hfetched : start.fetched address with
    | error e => exact ⟨lib', rfl, h'⟩
    | ok answer =>
      cases answer with
      | none => exact ⟨lib', rfl, h'⟩
      | some document =>
        have hcontains : lib'.aliases.scanned.contains address = true := by
          rw [haliases]
          exact hscanned address haddress ⟨document, hfetched⟩
        dsimp only
        rw [if_pos hcontains, locate_of_nil (h'.plain hfree)]
        cases valueAt document _ with
        | ok v => exact ⟨lib', rfl, h'⟩
        | error e => exact ⟨lib', rfl, h'⟩

theorem Continues.search_of_idFree {start lib : Library} (hmemory : start.InMemory)
    (hfree : start.IdFree) (h : Continues start lib) (fetchBase lookupBase : Place)
    (r : Reference) :
    ∃ lib', outcome (Library.search fetchBase lookupBase r 2) lib =
      (searchWithoutIds start fetchBase lookupBase r, lib') ∧ Continues start lib' := by
  -- If the document was not scanned yet, the first of the two rounds only scans it.
  by_cases hscanned : ∀ address, (fallback fetchBase r).canonical.address = some address →
      (∃ document, start.fetched address = .ok (some document)) →
        lib.aliases.scanned.contains address = true
  · exact h.search_of_scanned hfree hscanned lookupBase 1
  · simp only [not_forall] at hscanned
    obtain ⟨address, haddress, ⟨document, hdocument⟩, hcontains⟩ := hscanned
    obtain ⟨lib', hrun, h', haliases⟩ := h.fetch address
    have hne : address ≠ "" := by
      rintro rfl
      exact address_fallback fetchBase r haddress
    have hcontains' : ¬ lib'.aliases.scanned.contains address = true := by
      rw [haliases]
      exact hcontains
    rw [search_succ, locate_of_nil (h.plain hfree), haddress]
    dsimp only
    rw [hrun, hdocument]
    dsimp only
    rw [if_neg hcontains']
    have h'' := h'.scan hne (mem_shelf_of_fetched hmemory hdocument)
    refine h''.search_of_scanned hfree (fun other hother _ => ?_) lookupBase 0
    obtain rfl : address = other := Option.some.inj (haddress.symm.trans hother)
    exact contains_scanned_add lib'.aliases document address

/-- Without ids a reference is resolved in the same way however the library was used. -/
theorem resolve_eq_of_idFree {start lib lib' : Library} (hmemory : start.InMemory)
    (hfree : start.IdFree) (h : Continues start lib) (h' : Continues start lib') (base : Place)
    (r : Reference) : (outcome (resolve base r) lib).1 = (outcome (resolve base r) lib').1 := by
  have hresolve : ∀ lib, Continues start lib → (outcome (resolve base r) lib).1 =
      match searchWithoutIds start base base r with
      | .error e => .error e
      | .ok (some found) => .ok found
      | .ok none =>
        match searchWithoutIds start (alternateBase base) base r with
        | .error e => .error e
        | .ok (some found) => .ok found
        | .ok none => .error (.schema (.refNotFound base.virtual r)) := by
    intro lib h
    obtain ⟨lib₁, hrun, h₁⟩ := h.search_of_idFree hmemory hfree base base r
    unfold Library.resolve
    rw [outcome_bind, hrun]
    cases searchWithoutIds start base base r with
    | error e => rfl
    | ok found =>
      cases found with
      | some found => rfl
      | none =>
        obtain ⟨lib₂, hrun', -⟩ := h₁.search_of_idFree hmemory hfree (alternateBase base) base r
        dsimp only
        rw [outcome_bind, hrun']
        cases searchWithoutIds start (alternateBase base) base r with
        | error e => rfl
        | ok found =>
          cases found with
          | some found => rfl
          | none => rfl
  rw [hresolve lib h, hresolve lib' h']

/-! ### Libraries at work -/

/-- The libraries that come about: documents are added and references resolved, in any order. -/
inductive Reached : Library → Prop
  | inline : Reached (ofStore none)
  | memory (documents : List (String × Json)) (broken : List String) :
      Reached (ofStore (some (.memory documents broken)))
  | addDocument {lib : Library} (h : Reached lib) (address : String) (document : Json) :
      Reached (lib.addDocument address document)
  | resolve {lib : Library} (h : Reached lib) (base : Place) (r : Reference) :
      Reached (outcome (resolve base r) lib).2

/-- The second library is the first one after some references were resolved. -/
inductive Uses (lib : Library) : Library → Prop
  | refl : Uses lib lib
  | resolve {lib' : Library} (h : Uses lib lib') (base : Place) (r : Reference) :
      Uses lib (outcome (Library.resolve base r) lib').2

theorem Uses.trans {lib lib' lib'' : Library} (h : Uses lib lib') (h' : Uses lib' lib'') :
    Uses lib lib'' := by
  induction h' with
  | refl => exact h
  | resolve _ base r ih => exact .resolve ih base r

theorem Reached.uses {lib lib' : Library} (h : Reached lib) (h' : Uses lib lib') :
    Reached lib' := by
  induction h' with
  | refl => exact h
  | resolve _ base r ih => exact .resolve ih base r

theorem IsObjectPlace.mono {start lib : Library} (h : ∀ e ∈ start.shelf, e ∈ lib.shelf)
    {r : Reference} (hr : start.IsObjectPlace r) : lib.IsObjectPlace r := by
  obtain ⟨address, document, path, members, hmem, hrest⟩ := hr
  exact ⟨address, document, path, members, h _ hmem, hrest⟩

theorem Continues.self {start lib : Library} (h : Continues start lib) : Continues lib lib where
  store := rfl
  fetched _ := rfl
  shelf _ he := he
  aliases e he := (h.aliases e he).mono h.shelf
  plain hfree := h.plain fun e he => hfree e (h.shelf e he)

theorem Continues.inMemory {start lib : Library} (h : Continues start lib)
    (hmemory : start.InMemory) : lib.InMemory := by
  intro files
  rw [h.store]
  exact hmemory files

/-- What was found counts as found also after some use. -/
theorem Continues.finds {start lib : Library} (h : Continues start lib) {base : Place}
    {r : Reference} {found : Resolved} (hfound : Finds start base r found) :
    Finds lib base r found where
  document := by
    obtain ⟨address, haddress, hne, hdocument⟩ := hfound.document
    exact ⟨address, haddress, hne, (h.fetched address).trans hdocument⟩
  path := by
    rcases hfound.path with hpath | hpath | ⟨q, hq, hpath⟩
    · exact .inl hpath
    · exact .inr (.inl hpath)
    · exact .inr (.inr ⟨q, hq.mono h.shelf, hpath⟩)
  value := hfound.value
  plain hfree := hfound.plain fun e he => hfree e (h.shelf e he)

theorem shelf_addDocument (lib : Library) (address : String) (document : Json) :
    (lib.addDocument address document).shelf =
      (Address.normalize address, document) :: lib.shelf :=
  rfl

theorem Reached.inMemory {lib : Library} (h : Reached lib) : lib.InMemory ∧ Continues lib lib := by
  induction h with
  | inline => exact ⟨nofun, ⟨rfl, fun _ => rfl, fun _ he => he, nofun, fun _ => rfl⟩⟩
  | memory documents broken =>
    exact ⟨nofun, ⟨rfl, fun _ => rfl, fun _ he => he, nofun, fun _ => rfl⟩⟩
  | addDocument _ address document ih =>
    obtain ⟨hmemory, h⟩ := ih
    refine ⟨hmemory, ⟨rfl, fun _ => rfl, fun _ he => he, fun e he => ?_, fun hfree => ?_⟩⟩
    · refine (h.aliases e he).mono fun e he => ?_
      rw [shelf_addDocument]
      exact List.mem_cons_of_mem _ he
    · refine h.plain fun e he => hfree e ?_
      rw [shelf_addDocument]
      exact List.mem_cons_of_mem _ he
  | resolve _ base r ih =>
    obtain ⟨hmemory, h⟩ := ih
    obtain ⟨result, lib', hrun, h', -⟩ := h.resolve hmemory base r
    rw [hrun]
    exact ⟨h'.inMemory hmemory, h'.self⟩

end Library

end JsonTyping
