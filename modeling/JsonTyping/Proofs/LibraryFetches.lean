import JsonTyping.Proofs.LibraryUses

/-!
# How often documents are fetched

`Library.SearchRun` says how a search ends when nothing bounds its rounds, and which answers it used
on the way; `Library.ResolveRun` says so of a call. No search needs more than two rounds, as
SPEC_FULL.md §4.4 says (`Library.SearchRun.rounds_le`), so the bound that searches have is never
what ends them (`Library.searchRun_search`). Over all calls the store is asked at most once for an
address, and never for that of a document given in advance, and no two answers used for an address
differ (`Library.fetches_bounded`). The store may change from one call to the next.
-/

namespace JsonTyping.Library

/-- What was answered for addresses, in the order of the fetches. -/
abbrev Answers := List (String × Option Json)

/-- What a search ends with in a document that was scanned before. -/
def foundIn (address : String) (document : Json) (found : Place) :
    Except Halt (Option Resolved) :=
  let place := { found with canonical := found.canonical.withAddress (some address) }
  match valueAt document place.canonical with
  | .ok _ => .ok (some ⟨document, place⟩)
  | .error e => .error e

/-- How a search ends: after how many rounds, with which answers used in them. Every round but the
last one scans a document. -/
inductive SearchRun (fetchBase lookupBase : Place) (r : Reference) :
    Nat → Answers → Library → Except Halt (Option Resolved) × Library → Prop
  | noAddress {lib : Library} (h : (lib.aliases.locate fetchBase r).canonical.address = none) :
    SearchRun fetchBase lookupBase r 1 [] lib (.error (.schema (.noAddress r)), lib)
  | noStore {lib lib' : Library} {address : String} {e : Halt}
    (h : (lib.aliases.locate fetchBase r).canonical.address = some address)
    (hfetch : outcome (fetch address) lib = (.error e, lib')) :
    SearchRun fetchBase lookupBase r 1 [] lib (.error e, lib')
  | absent {lib lib' : Library} {address : String}
    (h : (lib.aliases.locate fetchBase r).canonical.address = some address)
    (hfetch : outcome (fetch address) lib = (.ok none, lib')) :
    SearchRun fetchBase lookupBase r 1 [(address, none)] lib (.ok none, lib')
  | present {lib lib' : Library} {address : String} {document : Json}
    (h : (lib.aliases.locate fetchBase r).canonical.address = some address)
    (hfetch : outcome (fetch address) lib = (.ok (some document), lib'))
    (hscanned : lib'.aliases.scanned.contains address = true) :
    SearchRun fetchBase lookupBase r 1 [(address, some document)] lib
      (foundIn address document (lib'.aliases.locate lookupBase r), lib')
  | again {lib lib' : Library} {address : String} {document : Json} {rounds : Nat}
    {used : Answers} {ending : Except Halt (Option Resolved) × Library}
    (h : (lib.aliases.locate fetchBase r).canonical.address = some address)
    (hfetch : outcome (fetch address) lib = (.ok (some document), lib'))
    (hscanned : lib'.aliases.scanned.contains address = false)
    (hrest : SearchRun fetchBase lookupBase r rounds used
      { lib' with aliases := lib'.aliases.add document address } ending) :
    SearchRun fetchBase lookupBase r (rounds + 1) ((address, some document) :: used) lib ending

section Searches

variable {fetchBase lookupBase : Place} {r : Reference} {rounds : Nat} {used : Answers}
  {lib : Library} {ending : Except Halt (Option Resolved) × Library}

/-- A search that may make that many rounds, or more, ends like that. -/
theorem SearchRun.search_eq (h : SearchRun fetchBase lookupBase r rounds used lib ending)
    (more : Nat) : outcome (search fetchBase lookupBase r (rounds + more)) lib = ending := by
  induction h with
  | noAddress h => rw [Nat.add_comm, search_succ, h]
  | noStore h hfetch =>
    rw [Nat.add_comm, search_succ, h]
    dsimp only
    rw [hfetch]
  | absent h hfetch =>
    rw [Nat.add_comm, search_succ, h]
    dsimp only
    rw [hfetch]
  | present h hfetch hscanned =>
    rw [Nat.add_comm, search_succ, h]
    dsimp only
    rw [hfetch]
    dsimp only
    rw [if_pos hscanned]
    dsimp only [foundIn]
    cases valueAt _ _ <;> rfl
  | again h hfetch hscanned _ ih =>
    rw [Nat.add_right_comm, search_succ, h]
    dsimp only
    rw [hfetch]
    dsimp only
    rw [hscanned, if_neg Bool.false_ne_true, ih]

/-- When the document that is searched was scanned before, the first round is the last one. -/
theorem SearchRun.rounds_eq_one (h : SearchRun fetchBase lookupBase r rounds used lib ending)
    (hscanned : ∀ address, (lib.aliases.locate fetchBase r).canonical.address = some address →
      lib.aliases.scanned.contains address = true) : rounds = 1 := by
  cases h with
  | @again _ lib' address _ _ _ _ haddress hfetch hnew _ =>
    obtain ⟨lib'', hrun, haliases, -⟩ := fetch_spec address lib
    obtain rfl : lib'' = lib' := congrArg Prod.snd (hrun.symm.trans hfetch)
    rw [haliases, hscanned address haddress] at hnew
    cases hnew
  | _ => rfl

/-- After a scan the place that is searched is in the scanned document, wherever it was before. -/
theorem SearchRun.rounds_le (h : SearchRun fetchBase lookupBase r rounds used lib ending) :
    rounds ≤ 2 := by
  cases h with
  | @again _ lib' address document _ _ _ haddress hfetch hnew hrest =>
    obtain ⟨lib'', hrun, haliases, -⟩ := fetch_spec address lib
    obtain rfl : lib'' = lib' := congrArg Prod.snd (hrun.symm.trans hfetch)
    rw [← haliases] at haddress
    have hone := hrest.rounds_eq_one fun other hother => by
      rw [address_locate_add document haddress hother]
      exact contains_scanned_add lib''.aliases document address
    exact Nat.le_of_eq (congrArg Nat.succ hone)
  | _ => exact Nat.le_succ 1

/-- A search ends in one round, or scans a document first. -/
theorem exists_searchRun_or_again (fetchBase lookupBase : Place) (r : Reference)
    (lib : Library) :
    (∃ used ending, SearchRun fetchBase lookupBase r 1 used lib ending) ∨
      ∃ address document lib',
        (lib.aliases.locate fetchBase r).canonical.address = some address ∧
        outcome (fetch address) lib = (.ok (some document), lib') ∧
        lib'.aliases.scanned.contains address = false := by
  cases haddress : (lib.aliases.locate fetchBase r).canonical.address with
  | none => exact .inl ⟨_, _, .noAddress haddress⟩
  | some address =>
    rcases hfetch : outcome (fetch address) lib with ⟨e | _ | document, lib'⟩
    · exact .inl ⟨_, _, .noStore haddress hfetch⟩
    · exact .inl ⟨_, _, .absent haddress hfetch⟩
    · cases hscanned : lib'.aliases.scanned.contains address with
      | true => exact .inl ⟨_, _, .present haddress hfetch hscanned⟩
      | false => exact .inr ⟨address, document, lib', rfl, hfetch, hscanned⟩

theorem exists_searchRun (fetchBase lookupBase : Place) (r : Reference) (lib : Library) :
    ∃ rounds used ending, SearchRun fetchBase lookupBase r rounds used lib ending := by
  rcases exists_searchRun_or_again fetchBase lookupBase r lib with
    ⟨used, ending, h⟩ | ⟨address, document, lib', haddress, hfetch, hscanned⟩
  · exact ⟨1, used, ending, h⟩
  · obtain ⟨lib'', hrun, haliases, -⟩ := fetch_spec address lib
    obtain rfl : lib'' = lib' := congrArg Prod.snd (hrun.symm.trans hfetch)
    rcases exists_searchRun_or_again fetchBase lookupBase r
        { lib'' with aliases := lib''.aliases.add document address } with
      ⟨used, ending, h⟩ | ⟨other, document', lib₂, hother, hfetch', hscanned'⟩
    · exact ⟨2, _, ending, .again haddress hfetch hscanned h⟩
    · obtain ⟨lib₃, hrun', haliases', -⟩ := fetch_spec other
        { lib'' with aliases := lib''.aliases.add document address }
      obtain rfl : lib₃ = lib₂ := congrArg Prod.snd (hrun'.symm.trans hfetch')
      have hlocated := haddress
      rw [← haliases] at hlocated
      rw [haliases', address_locate_add document hlocated hother] at hscanned'
      cases hscanned'.symm.trans (contains_scanned_add lib''.aliases document address)

/-- However a search ends without a bound, it ends like that with a bound of two rounds. -/
theorem SearchRun.eq_search (h : SearchRun fetchBase lookupBase r rounds used lib ending) :
    ending = outcome (search fetchBase lookupBase r 2) lib := by
  rw [← h.search_eq (2 - rounds), Nat.add_sub_cancel' h.rounds_le]

theorem searchRun_search (fetchBase lookupBase : Place) (r : Reference) (lib : Library) :
    ∃ rounds used, SearchRun fetchBase lookupBase r rounds used lib
      (outcome (search fetchBase lookupBase r 2) lib) := by
  obtain ⟨rounds, used, ending, h⟩ := exists_searchRun fetchBase lookupBase r lib
  exact ⟨rounds, used, h.eq_search ▸ h⟩

end Searches

/-! ### Calls -/

/-- The answer of a search, if it has one; without any the next search begins. -/
def settled? : Except Halt (Option Resolved) → Option (Except Halt Resolved)
  | .ok (some found) => some (.ok found)
  | .ok none => none
  | .error e => some (.error e)

/-- How a call ends, and with which answers used in it. -/
inductive ResolveRun (base : Place) (r : Reference) :
    Answers → Library → Except Halt Resolved × Library → Prop
  | direct {lib lib' : Library} {rounds : Nat} {used : Answers}
    {ending : Except Halt (Option Resolved)} {result : Except Halt Resolved}
    (h : SearchRun base base r rounds used lib (ending, lib'))
    (hsettled : settled? ending = some result) : ResolveRun base r used lib (result, lib')
  | alternate {lib lib' lib'' : Library} {rounds rounds' : Nat} {used used' : Answers}
    {ending : Except Halt (Option Resolved)}
    (h : SearchRun base base r rounds used lib (.ok none, lib'))
    (h' : SearchRun (alternateBase base) base r rounds' used' lib' (ending, lib'')) :
    ResolveRun base r (used ++ used') lib
      ((settled? ending).getD (.error (.schema (.refNotFound base.virtual r))), lib'')

/-- A call ends as it does when nothing bounds its searches. -/
theorem resolveRun_resolve (base : Place) (r : Reference) (lib : Library) :
    ∃ used, ResolveRun base r used lib (outcome (resolve base r) lib) := by
  obtain ⟨rounds, used, h⟩ := searchRun_search base base r lib
  unfold resolve
  rw [outcome_bind]
  rcases hrun : outcome (search base base r 2) lib with ⟨e | _ | found, lib'⟩ <;> rw [hrun] at h
  · exact ⟨used, .direct h rfl⟩
  · obtain ⟨rounds', used', h'⟩ := searchRun_search (alternateBase base) base r lib'
    dsimp only
    rw [outcome_bind]
    rcases hrun' : outcome (search (alternateBase base) base r 2) lib' with
      ⟨e | _ | found, lib''⟩ <;> rw [hrun'] at h'
    · exact ⟨used ++ used', .alternate h h'⟩
    · exact ⟨used ++ used', .alternate h h'⟩
    · exact ⟨used ++ used', .alternate h h'⟩
  · exact ⟨used, .direct h rfl⟩

/-- However a call ends without bounds, it ends like that. -/
theorem ResolveRun.eq_resolve {base : Place} {r : Reference} {used : Answers} {lib : Library}
    {ending : Except Halt Resolved × Library} (h : ResolveRun base r used lib ending) :
    ending = outcome (resolve base r) lib := by
  unfold resolve
  cases h with
  | @direct _ _ _ _ ending _ hsearch hsettled =>
    rw [outcome_bind, ← hsearch.eq_search]
    rcases ending with e | _ | found
    · exact congrArg (·, _) (Option.some.inj hsettled).symm
    · cases hsettled
    · exact congrArg (·, _) (Option.some.inj hsettled).symm
  | @alternate _ _ _ _ _ _ _ ending hsearch hsearch' =>
    rw [outcome_bind, ← hsearch.eq_search]
    dsimp only
    rw [outcome_bind, ← hsearch'.eq_search]
    rcases ending with e | _ | found <;> rfl

/-- A library that was given documents in advance. -/
def stocked (store : Option Store) (documents : List (String × Json)) : Library :=
  documents.foldl (fun lib e => lib.addDocument e.1 e.2) (ofStore store)

/-- A library that was given documents in advance, after some calls, and the answers that were used
in all of them. What the store answers may change from call to call. -/
inductive Served (documents : List (String × Json)) : Answers → Library → Prop
  | start (store : Option Store) : Served documents [] (stocked store documents)
  | restock {used : Answers} {lib : Library} (h : Served documents used lib)
    (store : Option Store) : Served documents used { lib with store := store }
  | resolve {used new : Answers} {lib lib' : Library} {base : Place} {r : Reference}
    {result : Except Halt Resolved} (h : Served documents used lib)
    (hrun : ResolveRun base r new lib (result, lib')) : Served documents (used ++ new) lib'

/-- What was used is on record, the store was asked for no address twice, and it was asked only for
addresses that were not answered. -/
structure Ledger (documents : List (String × Json)) (used : Answers) (lib : Library) : Prop where
  used : ∀ e ∈ used, lib.answers.lookup e.1 = some e.2
  nodup : lib.asked.Nodup
  asked : ∀ address ∈ lib.asked, lib.IsAnswered address
  given : ∀ e ∈ documents, lib.IsAnswered (Address.normalize e.1) ∧
    Address.normalize e.1 ∉ lib.asked

variable {documents : List (String × Json)} {used : Answers} {lib lib' : Library}

theorem ledger_addDocuments (documents : List (String × Json)) {given : List (String × Json)}
    (h : Ledger given [] lib) (hasked : lib.asked = []) :
    Ledger (given ++ documents) []
      (documents.foldl (fun lib e => lib.addDocument e.1 e.2) lib) := by
  induction documents generalizing given lib with
  | nil =>
    rw [List.append_nil]
    exact h
  | cons e documents ih =>
    rw [List.append_cons, List.foldl_cons]
    have hnone : ∀ address, address ∉ (lib.addDocument e.1 e.2).asked := fun address =>
      hasked ▸ List.not_mem_nil
    refine ih ⟨nofun, h.nodup, fun address ha => absurd ha (hnone address), fun e' he' => ?_⟩ hasked
    refine ⟨?_, hnone _⟩
    rcases List.mem_append.1 he' with he' | he'
    · exact (h.given e' he').1.addDocument e.1 e.2
    · obtain rfl := List.mem_singleton.1 he'
      exact ⟨_, lookup_addDocument lib e'.1 e'.2⟩

theorem ledger_stocked (store : Option Store) (documents : List (String × Json)) :
    Ledger documents [] (stocked store documents) := by
  have hnothing : Ledger [] [] (ofStore store) := ⟨nofun, .nil, nofun, nofun⟩
  exact ledger_addDocuments documents hnothing rfl

/-- The store is asked for an address that is not answered, and then it is. -/
theorem Ledger.fetch (h : Ledger documents used lib) {address : String} {answer : Option Json}
    (hfetch : outcome (fetch address) lib = (.ok answer, lib')) :
    Ledger documents (used ++ [(address, answer)]) lib' := by
  have hremembers := remembers_fetch address lib
  rw [hfetch] at hremembers
  have hanswered := isAnswered_of_fetch hfetch
  have hused : lib'.answers.lookup address = some answer → ∀ e ∈ used ++ [(address, answer)],
      lib'.answers.lookup e.1 = some e.2 := by
    intro hanswer e he
    rcases List.mem_append.1 he with he | he
    · exact hremembers.answers _ _ (h.used e he)
    · obtain rfl := List.mem_singleton.1 he
      exact hanswer
  have hbefore : ∀ other, lib.IsAnswered other → lib'.IsAnswered other := fun other =>
    hremembers.isAnswered
  cases hlookup : lib.answers.lookup address with
  | some answer' =>
    obtain ⟨hanswer, rfl⟩ := Prod.mk.inj ((fetch_of_lookup hlookup).symm.trans hfetch)
    obtain rfl := Except.ok.inj hanswer
    exact ⟨hused hlookup, h.nodup, h.asked, h.given⟩
  | none =>
    have hnew : address ∉ lib.asked := fun ha => by
      obtain ⟨answer', hanswer⟩ := h.asked address ha
      cases hlookup.symm.trans hanswer
    unfold Library.fetch at hfetch
    rw [outcome_bind_of_ok (outcome_get lib), hlookup] at hfetch
    cases hstore : lib.store with
    | none =>
      rw [hstore] at hfetch
      cases congrArg Prod.fst hfetch
    | some store =>
      rw [hstore] at hfetch
      obtain ⟨hanswer, rfl⟩ := Prod.mk.inj hfetch
      obtain rfl : store.fetch? address = answer := Except.ok.inj hanswer
      refine ⟨hused List.lookup_cons_self, List.nodup_cons.2 ⟨hnew, h.nodup⟩, fun other ha => ?_,
        fun e he => ⟨hbefore _ (h.given e he).1, fun ha => ?_⟩⟩
      · rcases List.mem_cons.1 ha with rfl | ha
        · exact hanswered
        · exact hbefore other (h.asked other ha)
      · rcases List.mem_cons.1 ha with heq | ha
        · obtain ⟨answer', hanswer'⟩ := (h.given e he).1
          rw [heq] at hanswer'
          cases hlookup.symm.trans hanswer'
        · exact (h.given e he).2 ha

/-- Without a store nothing is answered anew. -/
theorem eq_of_fetch_error {address : String} {e : Halt}
    (hfetch : outcome (fetch address) lib = (.error e, lib')) : lib' = lib := by
  cases hlookup : lib.answers.lookup address with
  | some answer => cases congrArg Prod.fst ((fetch_of_lookup hlookup).symm.trans hfetch)
  | none =>
    unfold Library.fetch at hfetch
    rw [outcome_bind_of_ok (outcome_get lib), hlookup] at hfetch
    cases hstore : lib.store with
    | none =>
      rw [hstore] at hfetch
      exact (congrArg Prod.snd hfetch).symm
    | some store =>
      rw [hstore] at hfetch
      cases congrArg Prod.fst hfetch

theorem Ledger.search {fetchBase lookupBase : Place} {r : Reference} {rounds : Nat}
    {new : Answers} {ending : Except Halt (Option Resolved) × Library}
    (h : Ledger documents used lib)
    (hrun : SearchRun fetchBase lookupBase r rounds new lib ending) :
    Ledger documents (used ++ new) ending.2 := by
  induction hrun generalizing used with
  | noAddress => exact (List.append_nil used).symm ▸ h
  | noStore _ hfetch => exact eq_of_fetch_error hfetch ▸ (List.append_nil used).symm ▸ h
  | absent _ hfetch => exact h.fetch hfetch
  | present _ hfetch => exact h.fetch hfetch
  | again _ hfetch _ _ ih =>
    have hscanned := h.fetch hfetch
    have hrest := ih ⟨hscanned.used, hscanned.nodup, hscanned.asked, hscanned.given⟩
    rwa [List.append_assoc] at hrest

theorem Ledger.resolve {base : Place} {r : Reference} {new : Answers}
    {ending : Except Halt Resolved × Library} (h : Ledger documents used lib)
    (hrun : ResolveRun base r new lib ending) : Ledger documents (used ++ new) ending.2 := by
  cases hrun with
  | direct hsearch _ => exact h.search hsearch
  | alternate hsearch hsearch' =>
    rw [← List.append_assoc]
    exact (h.search hsearch).search hsearch'

theorem Served.ledger (h : Served documents used lib) : Ledger documents used lib := by
  induction h with
  | start store => exact ledger_stocked store documents
  | restock _ store ih => exact ⟨ih.used, ih.nodup, ih.asked, ih.given⟩
  | resolve _ hrun ih => exact ih.resolve hrun

/-- Whatever is asked of a library, and however its store answers: a search makes two rounds at
most, the store is asked at most once for an address and never for that of a document given in
advance, and an address has the same answer whenever it is used. -/
theorem fetches_bounded (h : Served documents used lib) :
    (∀ lib' base r ending,
      (∃ new, ResolveRun base r new lib' ending) ↔ ending = outcome (resolve base r) lib') ∧
      (∀ lib' fetchBase lookupBase r rounds new ending,
        SearchRun fetchBase lookupBase r rounds new lib' ending → rounds ≤ 2) ∧
      lib.asked.Nodup ∧ (∀ e ∈ documents, Address.normalize e.1 ∉ lib.asked) ∧
      ∀ e ∈ used, ∀ e' ∈ used, e.1 = e'.1 → e.2 = e'.2 := by
  have hledger := h.ledger
  refine ⟨fun lib' base r ending => ⟨?_, ?_⟩, fun _ _ _ _ _ _ _ hrun => hrun.rounds_le,
    hledger.nodup, fun e he => (hledger.given e he).2, fun e he e' he' heq => ?_⟩
  · rintro ⟨new, hrun⟩
    exact hrun.eq_resolve
  · rintro rfl
    exact resolveRun_resolve base r lib'
  · have hanswer := hledger.used e he
    rw [heq, hledger.used e' he'] at hanswer
    exact (Option.some.inj hanswer).symm

/-- A store with one document that can be read and one that cannot. -/
def partlyBroken : Store :=
  .memory [("a.json", .object [("t", .object [("$id", .string "t.json")])])] ["b.json"]

/-- The second document cannot be read when it is first asked for. Later the store has it, but the
library goes on without it, and it does not ask for the document that it was given. -/
theorem fetches_bounded_restocked :
    ∃ used lib, Served [("in.json", .bool true)] used lib ∧ lib.asked = ["b.json", "a.json"] ∧
      lib.asked.Nodup ∧ Address.normalize "in.json" ∉ lib.asked ∧
      ∀ e ∈ used, ∀ e' ∈ used, e.1 = e'.1 → e.2 = e'.2 := by
  have hcall : ∀ {used : Answers} {lib : Library} (address : String),
      Served [("in.json", .bool true)] used lib → ∃ used, Served [("in.json", .bool true)] used
        (outcome (resolveTopLevel (.root (some address))) lib).2 := by
    intro used lib address h
    obtain ⟨new, hrun⟩ := resolveRun_resolve .empty (.root (some address)) lib
    exact ⟨_, h.resolve hrun⟩
  obtain ⟨_, ha⟩ := hcall "a.json" (.start (some partlyBroken))
  obtain ⟨_, ht⟩ := hcall "t.json" ha
  obtain ⟨_, hb⟩ := hcall "b.json" ht
  obtain ⟨_, hb'⟩ := hcall "b.json" (hb.restock (some (.memory [("b.json", .bool true)] [])))
  obtain ⟨used, hin⟩ := hcall "in.json" hb'
  obtain ⟨-, -, hnodup, hgiven, hsame⟩ := fetches_bounded hin
  exact ⟨used, _, hin, by decide +kernel, hnodup, hgiven _ List.mem_cons_self, hsame⟩

end JsonTyping.Library
