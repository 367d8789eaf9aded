import JsonTyping.Proofs.LibraryAnswers

/-!
# Libraries in use

What holds of every library, whatever its store is and whatever the documents are. A relation that
holds of the steps of a search holds of all use of a library (`Library.Uses.related`). Three such
relations: an address that was answered keeps its answer and is not asked for again
(`Library.Remembers`), places are known by other spellings only if their references can be written
(`Library.Spells`), and only if their documents were answered (`Library.Covers`). So a reference
that can be written is resolved to a place whose reference can be written, or something is wrong
with the documents (`Library.Spells.resolve`), and one into a document that was answered is resolved
without the store (`Library.Covers.resolveTopLevel`).
-/

namespace JsonTyping

namespace Reference

theorem IsWritten.withAddress {r : Reference} (h : r.IsWritten) (address : Option String) :
    (r.withAddress address).IsWritten :=
  h

theorem IsWritten.resolveAgainst {r : Reference} (h : r.IsWritten) (base : Reference) :
    (r.resolveAgainst base).IsWritten := by
  intro step hstep
  rcases Library.path_resolveAgainst r base with hpath | hpath
  · exact h step (hpath ▸ hstep)
  · rw [hpath] at hstep
    exact .inl (List.mem_singleton.1 hstep)

end Reference

namespace Library

section Steps

variable {R : Library → Library → Prop} (hrefl : ∀ lib, R lib lib)
  (htrans : ∀ {lib lib' lib''}, R lib lib' → R lib' lib'' → R lib lib'')
  (hfetch : ∀ address lib, R lib (outcome (fetch address) lib).2)
  (hscan : ∀ {lib lib' : Library} {address : String} {document : Json},
    outcome (fetch address) lib = (.ok (some document), lib') →
      R lib' { lib' with aliases := lib'.aliases.add document address })

include hrefl htrans hfetch hscan

theorem related_search (fetchBase lookupBase : Place) (r : Reference) (rounds : Nat)
    (lib : Library) : R lib (outcome (search fetchBase lookupBase r rounds) lib).2 := by
  induction rounds generalizing lib with
  | zero => exact hrefl lib
  | succ rounds ih =>
    rw [search_succ]
    cases (lib.aliases.locate fetchBase r).canonical.address with
    | none => exact hrefl lib
    | some address =>
      have hfetched := hfetch address lib
      dsimp only
      rcases hrun : outcome (fetch address) lib with ⟨e | _ | document, lib'⟩ <;>
        rw [hrun] at hfetched
      · exact hfetched
      · exact hfetched
      · dsimp only
        split
        · split <;> exact hfetched
        · exact htrans hfetched (htrans (hscan hrun) (ih _))

theorem related_resolve (base : Place) (r : Reference) (lib : Library) :
    R lib (outcome (resolve base r) lib).2 := by
  have hsearch := related_search hrefl htrans hfetch hscan
  have hfirst := hsearch base base r 2 lib
  unfold resolve
  rw [outcome_bind]
  rcases hrun : outcome (search base base r 2) lib with ⟨e | _ | found, lib'⟩ <;>
    rw [hrun] at hfirst
  · exact hfirst
  · have hsecond := hsearch (alternateBase base) base r 2 lib'
    dsimp only
    rw [outcome_bind]
    rcases hrun' : outcome (search (alternateBase base) base r 2) lib' with
      ⟨e | _ | found, lib''⟩ <;>
    · rw [hrun'] at hsecond
      exact htrans hfirst hsecond
  · exact hfirst

/-- A relation that holds of every step holds of all use. -/
theorem Uses.related {lib lib' : Library} (h : Uses lib lib') : R lib lib' := by
  induction h with
  | refl => exact hrefl lib
  | resolve _ base r ih => exact htrans ih (related_resolve hrefl htrans hfetch hscan base r _)

end Steps

/-- The second library gives the answers of the first one, and did not ask for them again. -/
structure Remembers (lib lib' : Library) : Prop where
  answers : ∀ address answer, lib.answers.lookup address = some answer →
    lib'.answers.lookup address = some answer
  asked : ∃ new, lib'.asked = new ++ lib.asked ∧
    ∀ address ∈ new, lib.answers.lookup address = none

theorem Remembers.refl (lib : Library) : Remembers lib lib := ⟨fun _ _ h => h, [], rfl, nofun⟩

theorem Remembers.trans {lib lib' lib'' : Library} (h : Remembers lib lib')
    (h' : Remembers lib' lib'') : Remembers lib lib'' := by
  obtain ⟨new, hasked, hnew⟩ := h.asked
  obtain ⟨new', hasked', hnew'⟩ := h'.asked
  refine ⟨fun address answer ha => h'.answers address answer (h.answers address answer ha),
    new' ++ new, ?_, fun address haddress => ?_⟩
  · rw [hasked', hasked, List.append_assoc]
  · rcases List.mem_append.1 haddress with hmem | hmem
    · cases hanswer : lib.answers.lookup address with
      | none => rfl
      | some answer => exact absurd ((hnew' address hmem).symm.trans (h.answers _ _ hanswer)) nofun
    · exact hnew address hmem

theorem remembers_fetch (address : String) (lib : Library) :
    Remembers lib (outcome (fetch address) lib).2 := by
  unfold fetch
  rw [outcome_bind_of_ok (outcome_get lib)]
  cases hanswer : lib.answers.lookup address with
  | some answer => exact .refl lib
  | none =>
    cases hstore : lib.store with
    | none => exact .refl lib
    | some store =>
      refine ⟨fun other answer hother => ?_, [address], rfl, fun other hmem => ?_⟩
      · have hne : other ≠ address := by
          rintro rfl
          cases hanswer.symm.trans hother
        change ((address, store.fetch? address) :: lib.answers).lookup other = some answer
        rw [SortedMap.lookup_cons_eq, if_neg hne, hother]
      · obtain rfl := List.mem_singleton.1 hmem
        exact hanswer

theorem Uses.remembers {lib lib' : Library} (h : Uses lib lib') : Remembers lib lib' :=
  h.related .refl .trans remembers_fetch fun _ => ⟨fun _ _ h => h, [], rfl, nofun⟩

/-- Every place that is known by another spelling has a reference that can be written. -/
def Spells (lib : Library) : Prop := ∀ e ∈ lib.aliases.entries, e.2.canonical.IsWritten

theorem spells_ofStore (store : Option Store) : Spells (ofStore store) := nofun

theorem Spells.addDocument {lib : Library} (h : lib.Spells) (address : String) (document : Json) :
    (lib.addDocument address document).Spells :=
  h

theorem Spells.scan {lib : Library} (h : lib.Spells) (document : Json) (address : String) :
    Spells { lib with aliases := lib.aliases.add document address } := by
  intro e he
  dsimp only [Aliases.add] at he
  split at he
  · exact h e he
  · obtain ⟨new, hnew, hentries⟩ := Aliases.scan_eq_append
      (.ofReference (.root (some address))) lib.aliases.entries document
    dsimp only at he
    rw [hnew] at he
    rcases List.mem_append.1 he with he | he
    · obtain ⟨path, members, hpath, hcanonical⟩ := hentries e he
      rw [hcanonical]
      intro step hstep
      have hstep' : step ∈ Step.root :: path := hstep
      rcases List.mem_cons.1 hstep' with rfl | hmem
      · exact .inl rfl
      · exact .inr (Json.isKey_of_mem_nodes hpath step hmem)
    · exact h e he

theorem spells_fetch (address : String) (lib : Library) (h : lib.Spells) :
    (outcome (fetch address) lib).2.Spells := by
  obtain ⟨lib', hrun, haliases, -⟩ := fetch_spec address lib
  rw [hrun]
  exact fun e he => h e (haliases ▸ he)

theorem Uses.spells {lib lib' : Library} (h : Uses lib lib') (hlib : lib.Spells) : lib'.Spells :=
  h.related (R := fun lib lib' => lib.Spells → lib'.Spells) (fun _ h => h)
    (fun h h' hlib => h' (h hlib)) spells_fetch (fun _ h => h.scan _ _) hlib

theorem Spells.locate {lib : Library} (h : lib.Spells) (base : Place) {r : Reference}
    (hr : r.IsWritten) : (lib.aliases.locate base r).canonical.IsWritten := by
  unfold Aliases.locate
  dsimp only
  split
  · next place hplace => exact h (_, place) (mem_of_lookup hplace)
  · exact (hr.resolveAgainst base.virtual).withAddress _

/-- What a search for a reference that can be written ends with. -/
def Settles : Except Halt (Option Resolved) → Prop
  | .ok none => True
  | .ok (some found) => found.place.canonical.IsWritten
  | .error e => ∃ error, e = .schema error

theorem schema_of_fetch {address : String} {lib lib' : Library} {e : Halt}
    (h : outcome (fetch address) lib = (.error e, lib')) : ∃ error, e = .schema error := by
  obtain ⟨lib'', hrun, -⟩ := fetch_spec address lib
  have hfetched : lib.fetched address = .error e := congrArg Prod.fst (hrun.symm.trans h)
  unfold fetched at hfetched
  split at hfetched
  · cases hfetched
  · split at hfetched
    · exact ⟨_, (Except.error.inj hfetched).symm⟩
    · cases hfetched

theorem schema_of_valueAt {document : Json} {place : Reference} (hplace : place.IsWritten)
    {e : Halt} (h : valueAt document place = .error e) : ∃ error, e = .schema error := by
  rcases valueAt_spec document place with ⟨v, -, hvalue⟩ | ⟨e', hvalue, he⟩
  · cases hvalue.symm.trans h
  · obtain rfl := Except.error.inj (hvalue.symm.trans h)
    exact he.resolve_right fun hnot => hnot.1 hplace

theorem Spells.search {lib : Library} (h : lib.Spells) (fetchBase lookupBase : Place)
    {r : Reference} (hr : r.IsWritten) (rounds : Nat) :
    Settles (outcome (search fetchBase lookupBase r rounds) lib).1 := by
  induction rounds generalizing lib with
  | zero => trivial
  | succ rounds ih =>
    rw [search_succ]
    cases (lib.aliases.locate fetchBase r).canonical.address with
    | none => exact ⟨_, rfl⟩
    | some address =>
      dsimp only
      have h' := spells_fetch address lib h
      rcases hrun : outcome (fetch address) lib with ⟨e | _ | document, lib'⟩
      · exact schema_of_fetch hrun
      · trivial
      · rw [hrun] at h'
        dsimp only
        split
        · have hplace := (h'.locate lookupBase hr).withAddress (some address)
          split
          · exact hplace
          · next e hvalue => exact schema_of_valueAt hplace hvalue
        · exact ih (h'.scan document address)

/-- Whatever the store and the documents are, a reference that can be written is resolved to a place
whose reference can be written, or something is wrong with the documents. -/
theorem Spells.resolve {lib : Library} (h : lib.Spells) (base : Place) {r : Reference}
    (hr : r.IsWritten) :
    match (outcome (resolve base r) lib).1 with
    | .ok found => found.place.canonical.IsWritten
    | .error e => ∃ error, e = .schema error := by
  have hfirst := h.search base base hr 2
  have hspells := related_search (R := fun lib lib' => lib.Spells → lib'.Spells) (fun _ h => h)
    (fun h h' hlib => h' (h hlib)) spells_fetch (fun _ h => h.scan _ _) base base r 2 lib h
  unfold Library.resolve
  rw [outcome_bind]
  rcases hrun : outcome (Library.search base base r 2) lib with ⟨e | _ | found, lib'⟩ <;>
    rw [hrun] at hfirst hspells
  · exact hfirst
  · have hsecond := Spells.search hspells (alternateBase base) base hr 2
    dsimp only
    rw [outcome_bind]
    rcases hrun' : outcome (Library.search (alternateBase base) base r 2) lib' with
      ⟨e | _ | found, lib''⟩ <;> rw [hrun'] at hsecond
    · exact hsecond
    · exact ⟨_, rfl⟩
    · exact hsecond
  · exact hfirst

theorem Uses.continues {lib lib' : Library} (hmemory : lib.InMemory) (hself : Continues lib lib)
    (h : Uses lib lib') : Continues lib lib' := by
  induction h with
  | refl => exact hself
  | resolve _ base r ih =>
    obtain ⟨result, lib'', hrun, h'', -⟩ := ih.resolve hmemory base r
    rw [hrun]
    exact h''

/-- Without ids, use does not change where references lead. -/
theorem Uses.resolve_eq {lib lib' : Library} (hmemory : lib.InMemory) (hself : Continues lib lib)
    (hfree : lib.IdFree) (h : Uses lib lib') (base : Place) (r : Reference) :
    (outcome (Library.resolve base r) lib').1 = (outcome (Library.resolve base r) lib).1 :=
  resolve_eq_of_idFree hmemory hfree (h.continues hmemory hself) hself base r

/-! ### Nothing to ask for -/

def IsAnswered (lib : Library) (address : String) : Prop :=
  ∃ answer, lib.answers.lookup address = some answer

/-- Every place that is known by another spelling is in a document that was answered. -/
def Covers (lib : Library) : Prop :=
  ∀ e ∈ lib.aliases.entries, ∀ address, e.2.canonical.address = some address →
    lib.IsAnswered address

theorem covers_ofStore (store : Option Store) : Covers (ofStore store) := nofun

theorem lookup_addDocument (lib : Library) (address : String) (document : Json) :
    (lib.addDocument address document).answers.lookup (Address.normalize address) =
      some (some document) :=
  List.lookup_cons_self

theorem IsAnswered.addDocument {lib : Library} {address : String} (h : lib.IsAnswered address)
    (other : String) (document : Json) : (lib.addDocument other document).IsAnswered address := by
  obtain ⟨answer, hanswer⟩ := h
  by_cases heq : address = Address.normalize other
  · subst heq
    exact ⟨_, lookup_addDocument lib other document⟩
  · refine ⟨answer, ?_⟩
    rw [Library.addDocument, SortedMap.lookup_cons_eq, if_neg heq]
    exact hanswer

theorem Covers.addDocument {lib : Library} (h : lib.Covers) (address : String) (document : Json) :
    (lib.addDocument address document).Covers :=
  fun e he other hother => (h e he other hother).addDocument address document

theorem Remembers.isAnswered {lib lib' : Library} (h : Remembers lib lib') {address : String}
    (ha : lib.IsAnswered address) : lib'.IsAnswered address := by
  obtain ⟨answer, hanswer⟩ := ha
  exact ⟨answer, h.answers address answer hanswer⟩

theorem covers_fetch (address : String) (lib : Library) (h : lib.Covers) :
    (outcome (fetch address) lib).2.Covers := by
  have hremembers := remembers_fetch address lib
  obtain ⟨lib', hrun, haliases, -⟩ := fetch_spec address lib
  rw [hrun] at hremembers ⊢
  intro e he other hother
  rw [haliases] at he
  exact hremembers.isAnswered (h e he other hother)

/-- A document that is scanned gives spellings to its own places. -/
theorem Covers.scan {lib : Library} (h : lib.Covers) (document : Json) {address : String}
    (ha : lib.IsAnswered address) :
    Covers { lib with aliases := lib.aliases.add document address } := by
  intro e he other hother
  dsimp only [Aliases.add] at he
  split at he
  · exact h e he other hother
  · obtain ⟨new, hnew, hentries⟩ := Aliases.scan_eq_append
      (.ofReference (.root (some address))) lib.aliases.entries document
    dsimp only at he
    rw [hnew] at he
    rcases List.mem_append.1 he with he | he
    · obtain ⟨path, members, -, hcanonical⟩ := hentries e he
      rw [hcanonical] at hother
      have hfilter : (some address).filter (!·.isEmpty) = some other := hother
      obtain rfl : address = other := Option.some.inj (Option.filter_eq_some_iff.1 hfilter).1
      exact ha
    · exact h e he other hother

/-- An address that is answered is not asked for. -/
theorem fetch_of_lookup {lib : Library} {address : String} {answer : Option Json}
    (h : lib.answers.lookup address = some answer) :
    outcome (fetch address) lib = (.ok answer, lib) := by
  unfold fetch
  rw [outcome_bind_of_ok (outcome_get lib), h]
  rfl

theorem isAnswered_of_fetch {lib lib' : Library} {address : String} {answer : Option Json}
    (h : outcome (fetch address) lib = (.ok answer, lib')) : lib'.IsAnswered address := by
  cases hanswer : lib.answers.lookup address with
  | some answer' =>
    have hrun := (fetch_of_lookup hanswer).symm.trans h
    obtain rfl : lib = lib' := congrArg Prod.snd hrun
    exact ⟨answer', hanswer⟩
  | none =>
    unfold fetch at h
    rw [outcome_bind_of_ok (outcome_get lib), hanswer] at h
    cases hstore : lib.store with
    | none =>
      rw [hstore] at h
      cases congrArg Prod.fst h
    | some store =>
      rw [hstore] at h
      obtain rfl := congrArg Prod.snd h
      exact ⟨_, List.lookup_cons_self⟩

theorem Uses.covers {lib lib' : Library} (h : Uses lib lib') (hlib : lib.Covers) : lib'.Covers :=
  h.related (R := fun lib lib' => lib.Covers → lib'.Covers) (fun _ h => h)
    (fun h h' hlib => h' (h hlib)) covers_fetch
    (fun hrun h => h.scan _ (isAnswered_of_fetch hrun)) hlib

/-- The run got to know other spellings. It did not ask the store, nor did it miss one. -/
structure AsksNothing {α : Type} (lib : Library) (run : Except Halt α × Library) : Prop where
  covers : run.2.Covers
  answers : run.2.answers = lib.answers
  asked : run.2.asked = lib.asked
  missed : ∀ address, run.1 ≠ .error (.schema (.noSchemaStore address))

theorem valueAt_ne_noSchemaStore (document : Json) (place : Reference) (address : String) :
    valueAt document place ≠ .error (.schema (.noSchemaStore address)) := by
  unfold valueAt
  split
  · exact nofun
  · next cause _ => cases cause <;> exact nofun

/-- A search that begins at an address that is answered asks for nothing: wherever it goes, it is in
a document that was answered. -/
theorem Covers.search {lib : Library} (h : lib.Covers) {fetchBase : Place} {r : Reference}
    (hr : ∀ address, (fallback fetchBase r).canonical.address = some address →
      lib.IsAnswered address) (lookupBase : Place) (rounds : Nat) :
    AsksNothing lib (outcome (search fetchBase lookupBase r rounds) lib) := by
  induction rounds generalizing lib with
  | zero => exact ⟨h, rfl, rfl, nofun⟩
  | succ rounds ih =>
    have hanswered : ∀ address,
        (lib.aliases.locate fetchBase r).canonical.address = some address →
          lib.IsAnswered address := by
      intro address haddress
      unfold Aliases.locate at haddress
      dsimp only at haddress
      split at haddress
      · next place hplace => exact h _ (mem_of_lookup hplace) address haddress
      · exact hr address haddress
    rw [search_succ]
    cases haddress : (lib.aliases.locate fetchBase r).canonical.address with
    | none => exact ⟨h, rfl, rfl, nofun⟩
    | some address =>
      obtain ⟨answer, hanswer⟩ := hanswered address haddress
      dsimp only
      rw [fetch_of_lookup hanswer]
      cases answer with
      | none => exact ⟨h, rfl, rfl, nofun⟩
      | some document =>
        dsimp only
        split
        · split
          · exact ⟨h, rfl, rfl, nofun⟩
          · next e hvalue =>
            refine ⟨h, rfl, rfl, fun other hother => ?_⟩
            rw [Except.error.inj hother] at hvalue
            exact valueAt_ne_noSchemaStore _ _ other hvalue
        · have hrest := ih (h.scan document ⟨_, hanswer⟩) hr
          exact ⟨hrest.covers, hrest.answers, hrest.asked, hrest.missed⟩

/-- A top-level reference into a document that was answered is resolved without the store. -/
theorem Covers.resolveTopLevel {lib : Library} (h : lib.Covers) {r : Reference}
    (hr : ∀ address, r.address = some address → lib.IsAnswered address) :
    AsksNothing lib (outcome (resolveTopLevel r) lib) := by
  have hempty : ∀ address, (fallback .empty r).canonical.address = some address →
      lib.IsAnswered address := by
    intro address haddress
    have hfilter : ((r.resolveAgainst Place.empty.virtual).address.or none).filter
        (!·.isEmpty) = some address := haddress
    have hown : (r.resolveAgainst Place.empty.virtual).address = r.address := by
      rcases r with ⟨_ | own, path⟩ <;> rfl
    rw [hown, Option.or_none] at hfilter
    exact hr address (Option.filter_eq_some_iff.1 hfilter).1
  have hfirst := h.search hempty .empty 2
  have halternate : alternateBase .empty = .empty := rfl
  unfold Library.resolveTopLevel resolve
  rw [outcome_bind, halternate]
  rcases hrun : outcome (Library.search .empty .empty r 2) lib with ⟨e | _ | found, lib'⟩ <;>
    rw [hrun] at hfirst
  · exact ⟨hfirst.covers, hfirst.answers, hfirst.asked, fun address haddress =>
      hfirst.missed address (congrArg Except.error (Except.error.inj haddress))⟩
  · have hsecond := hfirst.covers.search (fun address haddress => by
      rw [IsAnswered, hfirst.answers]
      exact hempty address haddress) .empty 2
    have hanswers := hsecond.answers.trans hfirst.answers
    have hasked := hsecond.asked.trans hfirst.asked
    dsimp only
    rw [outcome_bind]
    rcases hrun' : outcome (Library.search .empty .empty r 2) lib' with
      ⟨e | _ | found, lib''⟩ <;> rw [hrun'] at hsecond hanswers hasked
    · exact ⟨hsecond.covers, hanswers, hasked, fun address haddress =>
        hsecond.missed address (congrArg Except.error (Except.error.inj haddress))⟩
    · exact ⟨hsecond.covers, hanswers, hasked, nofun⟩
    · exact ⟨hsecond.covers, hanswers, hasked, nofun⟩
  · exact ⟨hfirst.covers, hfirst.answers, hfirst.asked, nofun⟩

end Library

end JsonTyping
