import JsonTyping.Proofs.LibraryUses

/-!
# Places that references lead to

A search takes the address of a place from one base and the path from another
(`Library.search_found`). A reference whose virtual reference is recorded leads to the recorded
place. One that is not recorded leads to its own path in the document at its address, and only where
there is no such document the alternate base is asked for another address
(`Library.resolve_place`).
-/

namespace JsonTyping

namespace Library

/-- Every recorded place is in a document that was answered, under an address that is not empty. -/
def Holds (lib : Library) : Prop :=
  ∀ v place, lib.aliases.entries.lookup v = some place →
    ∀ address, place.canonical.address = some address →
      address ≠ "" ∧ ∃ document, lib.answers.lookup address = some (some document)

theorem holds_of_empty {lib : Library} (h : lib.aliases = .empty) : lib.Holds := by
  intro v place hplace
  rw [h] at hplace
  cases hplace

theorem holds_fetch (address : String) (lib : Library) (h : lib.Holds) :
    (outcome (fetch address) lib).2.Holds := by
  have hremembers := remembers_fetch address lib
  obtain ⟨lib', hrun, haliases, -⟩ := fetch_spec address lib
  rw [hrun] at hremembers ⊢
  intro v place hplace other hother
  rw [haliases] at hplace
  obtain ⟨hne, document, hdocument⟩ := h v place hplace other hother
  exact ⟨hne, document, hremembers.answers other _ hdocument⟩

theorem lookup_of_fetch {lib lib' : Library} {address : String} {answer : Option Json}
    (h : outcome (fetch address) lib = (.ok answer, lib')) :
    lib'.answers.lookup address = some answer := by
  obtain ⟨answer', hanswer⟩ := isAnswered_of_fetch h
  obtain ⟨lib'', hrun, -, -, hfetched, -⟩ := fetch_spec address lib
  have hfirst : lib.fetched address = .ok answer := congrArg Prod.fst (hrun.symm.trans h)
  obtain rfl : lib'' = lib' := congrArg Prod.snd (hrun.symm.trans h)
  have hlast := (hfetched address).trans hfirst
  rw [fetched, hanswer] at hlast
  rw [hanswer, Except.ok.inj hlast]

/-- What is recorded after a scan was recorded before, or is in the scanned document. -/
theorem lookup_add {aliases : Aliases} {document : Json} {address : String} {v : Reference}
    {place : Place} (h : (aliases.add document address).entries.lookup v = some place) :
    aliases.entries.lookup v = some place ∨
      place.canonical.address = (some address).filter (!·.isEmpty) := by
  unfold Aliases.add at h
  split at h
  · exact .inl h
  · obtain ⟨new, hnew, hentries⟩ := Aliases.scan_eq_append
      (.ofReference (.root (some address))) aliases.entries document
    dsimp only at h
    rw [hnew, List.lookup_append] at h
    cases hfirst : new.lookup v with
    | none =>
      rw [hfirst, Option.none_or] at h
      exact .inl h
    | some place' =>
      rw [hfirst, Option.some_or] at h
      obtain rfl := Option.some.inj h
      obtain ⟨path, members, -, hcanonical⟩ := hentries _ (mem_of_lookup hfirst)
      exact .inr (congrArg Reference.address hcanonical)

theorem eq_of_filter {address other : String}
    (h : (some address).filter (!·.isEmpty) = some other) : address = other ∧ other ≠ "" := by
  obtain ⟨hsame, hnonempty⟩ := Option.filter_eq_some_iff.1 h
  obtain rfl := Option.some.inj hsame
  refine ⟨rfl, ?_⟩
  rintro rfl
  exact absurd hnonempty (by decide)

theorem Holds.scan {lib : Library} (h : lib.Holds) {document : Json} {address : String}
    (ha : lib.answers.lookup address = some (some document)) :
    Holds { lib with aliases := lib.aliases.add document address } := by
  intro v place hplace other hother
  rcases lookup_add hplace with hold | hnew
  · exact h v place hold other hother
  · obtain ⟨rfl, hne⟩ := eq_of_filter (hnew.symm.trans hother)
    exact ⟨hne, document, ha⟩

theorem Uses.holds {lib lib' : Library} (h : Uses lib lib') (hlib : lib.Holds) : lib'.Holds :=
  h.related (R := fun lib lib' => lib.Holds → lib'.Holds) (fun _ h => h)
    (fun h h' hlib => h' (h hlib)) holds_fetch (fun hrun h => h.scan (lookup_of_fetch hrun)) hlib

theorem Holds.search {lib lib' : Library} (h : lib.Holds) {fetchBase lookupBase : Place}
    {r : Reference} {rounds : Nat} {answer : Except Halt (Option Resolved)}
    (hrun : outcome (search fetchBase lookupBase r rounds) lib = (answer, lib')) : lib'.Holds := by
  have hrelated := related_search (R := fun lib lib' => lib.Holds → lib'.Holds) (fun _ h => h)
    (fun h h' hlib => h' (h hlib)) holds_fetch (fun hrun h => h.scan (lookup_of_fetch hrun))
    fetchBase lookupBase r rounds lib h
  rwa [hrun] at hrelated

theorem Holds.fetched {lib : Library} (h : lib.Holds) {v : Reference} {place : Place}
    (hplace : lib.aliases.entries.lookup v = some place) {address : String}
    (haddress : place.canonical.address = some address) :
    ∃ document, lib.fetched address = .ok (some document) := by
  obtain ⟨-, document, hdocument⟩ := h v place hplace address haddress
  exact ⟨document, by rw [Library.fetched, hdocument]⟩

/-! ### What a search finds -/

theorem locate_of_lookup {aliases : Aliases} {base : Place} {r : Reference} {place : Place}
    (h : aliases.entries.lookup (r.resolveAgainst base.virtual) = some place) :
    aliases.locate base r = place := by
  simp only [Aliases.locate, h]

theorem locate_of_none {aliases : Aliases} {base : Place} {r : Reference}
    (h : aliases.entries.lookup (r.resolveAgainst base.virtual) = none) :
    aliases.locate base r = fallback base r := by
  simp only [Aliases.locate, h, fallback]

/-- What is found is the path that the lookup base sees, in the document at the address that the
fetch base sees. -/
structure Pairs (fetchBase lookupBase : Place) (r : Reference) (lib : Library) (address : String)
    (found : Resolved) : Prop where
  located : (lib.aliases.locate fetchBase r).canonical.address = some address
  document : lib.fetched address = .ok (some found.document)
  canonical : found.place.canonical =
    (lib.aliases.locate lookupBase r).canonical.withAddress (some address)
  value : ∃ v, found.place.canonical.lookup found.document = .ok v

section Search

variable {fetchBase lookupBase : Place} {r : Reference} {rounds : Nat} {lib lib' : Library}

/-- A round of a search that ends well misses the document, or finds the place in it, or scans the
document and goes on. -/
theorem search_cases {answer : Option Resolved}
    (hrun : outcome (search fetchBase lookupBase r (rounds + 1)) lib = (.ok answer, lib')) :
    ∃ address lib₁, (lib.aliases.locate fetchBase r).canonical.address = some address ∧
      lib₁.aliases = lib.aliases ∧ (∀ other, lib₁.fetched other = lib.fetched other) ∧
      ((lib.fetched address = .ok none ∧ answer = none ∧ lib₁ = lib') ∨
        ∃ document, lib.fetched address = .ok (some document) ∧
          ((∃ found, answer = some found ∧ lib₁ = lib' ∧
              Pairs fetchBase lookupBase r lib' address found) ∨
            lib.aliases.scanned.contains address = false ∧
              outcome (search fetchBase lookupBase r rounds)
                  { lib₁ with aliases := lib.aliases.add document address } =
                (.ok answer, lib'))) := by
  rw [search_succ] at hrun
  cases haddress : (lib.aliases.locate fetchBase r).canonical.address with
  | none =>
    rw [haddress] at hrun
    cases hrun
  | some address =>
    obtain ⟨lib₁, hfetch, haliases, -, hfetched, -⟩ := fetch_spec address lib
    rw [haddress] at hrun
    dsimp only at hrun
    rw [hfetch] at hrun
    refine ⟨address, lib₁, rfl, haliases, hfetched, ?_⟩
    cases hanswer : lib.fetched address with
    | error e =>
      rw [hanswer] at hrun
      cases hrun
    | ok fetched =>
      rw [hanswer] at hrun
      cases fetched with
      | none =>
        cases hrun
        exact .inl ⟨rfl, rfl, rfl⟩
      | some document =>
        refine .inr ⟨document, rfl, ?_⟩
        dsimp only at hrun
        rw [haliases] at hrun
        split at hrun
        · rcases valueAt_spec document ((lib.aliases.locate lookupBase r).canonical.withAddress
            (some address)) with ⟨v, hlookup, hvalue⟩ | ⟨e, hvalue, -⟩ <;> rw [hvalue] at hrun
          · cases hrun
            have hlocated : (lib'.aliases.locate fetchBase r).canonical.address = some address := by
              rw [haliases, haddress]
            have hdocument : lib'.fetched address = .ok (some document) :=
              (hfetched address).trans hanswer
            exact .inl ⟨_, rfl, rfl, hlocated, hdocument, by rw [haliases], v, hlookup⟩
          · cases hrun
        · next hscanned => exact .inr ⟨Bool.not_eq_true _ ▸ hscanned, hrun⟩

/-- A search that finds something has scanned no document but the one that it found. -/
theorem search_found {found : Resolved}
    (hrun : outcome (search fetchBase lookupBase r rounds) lib = (.ok (some found), lib')) :
    ∃ address, (lib.aliases.locate fetchBase r).canonical.address = some address ∧
      Pairs fetchBase lookupBase r lib' address found ∧
      (∀ other, lib'.fetched other = lib.fetched other) ∧
      ∀ v place, lib'.aliases.entries.lookup v = some place →
        lib.aliases.entries.lookup v = some place ∨
          place.canonical.address = (some address).filter (!·.isEmpty) := by
  induction rounds generalizing lib with
  | zero => cases hrun
  | succ rounds ih =>
    obtain ⟨address, lib₁, haddress, haliases, hfetched, ⟨-, hnone, -⟩ | ⟨document, -, hround⟩⟩ :=
      search_cases hrun
    · cases hnone
    rcases hround with ⟨found', hfound, rfl, hpairs⟩ | ⟨-, hrest⟩
    · obtain rfl := Option.some.inj hfound
      refine ⟨address, haddress, hpairs, hfetched, fun v place hplace => .inl ?_⟩
      rwa [haliases] at hplace
    · obtain ⟨other, hother, hpairs, hkept, hentries⟩ := ih hrest
      obtain rfl : other = address := address_locate_add document haddress hother
      refine ⟨other, haddress, hpairs, fun next => (hkept next).trans (hfetched next), ?_⟩
      intro v place hplace
      rcases hentries v place hplace with hold | hnew
      · exact lookup_add hold
      · exact .inr hnew

/-- A search that finds nothing has missed the document at its address. -/
theorem search_missed
    (hrun : outcome (search fetchBase lookupBase r 2) lib = (.ok none, lib')) :
    ∃ address, (lib.aliases.locate fetchBase r).canonical.address = some address ∧
      lib.fetched address = .ok none ∧ lib'.aliases = lib.aliases ∧
      ∀ other, lib'.fetched other = lib.fetched other := by
  obtain ⟨address, lib₁, haddress, haliases, hfetched, ⟨hnone, -, rfl⟩ | ⟨document, hdocument,
    ⟨_, hfound, -⟩ | ⟨-, hrest⟩⟩⟩ := search_cases hrun
  · exact ⟨address, haddress, hnone, haliases, hfetched⟩
  · cases hfound
  · -- A document that is there is scanned in the first round and found in the second.
    exfalso
    obtain ⟨other, lib₂, hother, -, -, ⟨hmissed, -⟩ | ⟨_, -, ⟨_, hfound, -⟩ | ⟨hscanned, -⟩⟩⟩ :=
      search_cases hrest
    · obtain rfl : other = address := address_locate_add document haddress hother
      cases (hmissed.symm.trans (hfetched other)).trans hdocument
    · cases hfound
    · obtain rfl : other = address := address_locate_add document haddress hother
      cases hscanned.symm.trans (contains_scanned_add lib.aliases document other)

end Search

/-! ### What a reference leads to -/

theorem withAddress_self {p : Reference} {address : String} (hne : address ≠ "")
    (h : p.address = some address) : p.withAddress (some address) = p := by
  rw [withAddress_eq hne, ← h]

section Resolve

variable {start lib lib' : Library} {base : Place} {r : Reference} {found : Resolved}

theorem resolve_cases (hrun : outcome (resolve base r) lib = (.ok found, lib')) :
    outcome (search base base r 2) lib = (.ok (some found), lib') ∨
      ∃ lib₁, outcome (search base base r 2) lib = (.ok none, lib₁) ∧
        outcome (search (alternateBase base) base r 2) lib₁ = (.ok (some found), lib') := by
  unfold resolve at hrun
  rw [outcome_bind] at hrun
  rcases hfirst : outcome (search base base r 2) lib with ⟨e | _ | found₁, lib₁⟩ <;>
    rw [hfirst] at hrun
  · cases hrun
  · dsimp only at hrun
    rw [outcome_bind] at hrun
    rcases hsecond : outcome (search (alternateBase base) base r 2) lib₁
      with ⟨e | _ | found₂, lib₂⟩ <;> rw [hsecond] at hrun
    · cases hrun
    · cases hrun
    · cases hrun
      exact .inr ⟨lib₁, rfl, hsecond⟩
  · cases hrun
    exact .inl rfl

/-- The place that is recorded for a virtual reference. -/
def recorded? (lib : Library) (v : Reference) : Option Place := lib.aliases.entries.lookup v

/-- A place that is recorded when it is found is the one that is found. -/
theorem Pairs.eq_recorded {fetchBase : Place} {address : String} {place : Place}
    (h : Pairs fetchBase base r lib address found)
    (hplace : lib.recorded? (r.resolveAgainst base.virtual) = some place)
    (hne : address ≠ "") (haddress : place.canonical.address = some address) :
    found.place.canonical = place.canonical := by
  rw [h.canonical, locate_of_lookup hplace, withAddress_self hne haddress]

/-- Else its own path is found, in the document at the address that the fetch base sees. -/
theorem Pairs.eq_own {fetchBase : Place} {address : String}
    (h : Pairs fetchBase base r lib address found)
    (hnone : lib.recorded? (r.resolveAgainst base.virtual) = none) (hne : address ≠ "") :
    found.place.canonical = (r.resolveAgainst base.virtual).withAddress (some address) := by
  rw [h.canonical, locate_of_none hnone, withAddress_eq hne, withAddress_eq hne]
  rfl

theorem Pairs.address {fetchBase lookupBase : Place} {address : String} (hne : address ≠ "")
    (h : Pairs fetchBase lookupBase r lib address found) :
    found.place.canonical.address = some address := by
  rw [h.canonical, withAddress_eq hne]

theorem Pairs.ne_empty {fetchBase lookupBase : Place} {address : String} (hlib : lib.Holds)
    (h : Pairs fetchBase lookupBase r lib address found) : address ≠ "" := by
  have hlocated := h.located
  cases hplace : lib.aliases.entries.lookup (r.resolveAgainst fetchBase.virtual) with
  | some place =>
    rw [locate_of_lookup hplace] at hlocated
    exact (hlib _ _ hplace address hlocated).1
  | none =>
    rw [locate_of_none hplace] at hlocated
    rintro rfl
    exact address_fallback fetchBase r hlocated

/-- A reference that misses its document is not recorded. -/
theorem Holds.recorded?_of_missed (hlib : lib.Holds) {address : String}
    (haddress : (lib.aliases.locate base r).canonical.address = some address)
    (hmissed : lib.fetched address = .ok none) :
    lib.recorded? (r.resolveAgainst base.virtual) = none := by
  cases hplace : lib.recorded? (r.resolveAgainst base.virtual) with
  | none => rfl
  | some place =>
    rw [locate_of_lookup hplace] at haddress
    obtain ⟨document, hdocument⟩ := hlib.fetched hplace haddress
    cases hmissed.symm.trans hdocument

/-- What is found is a path of a document that was fetched. If the virtual reference is recorded by
then, it is the recorded place. Otherwise it is always the reference's own path in the fetched
document: the one at the address that the base sees, and only if there is no document there the one
at the address that the alternate base sees, be it that of a recorded place or not. -/
theorem resolve_place (hstart : start.aliases = .empty) (h : start.Uses lib)
    (hrun : outcome (resolve base r) lib = (.ok found, lib')) :
    ∃ address, found.place.canonical.address = some address ∧
      lib'.fetched address = .ok (some found.document) ∧
      (∃ v, found.place.canonical.lookup found.document = .ok v) ∧
      ((∃ place, lib'.recorded? (r.resolveAgainst base.virtual) = some place ∧
          found.place.canonical = place.canonical) ∨
        lib'.recorded? (r.resolveAgainst base.virtual) = none ∧
          found.place.canonical = (r.resolveAgainst base.virtual).withAddress (some address) ∧
          ((fallback base r).canonical.address = some address ∨
            (∃ missing, (fallback base r).canonical.address = some missing ∧
              lib'.fetched missing = .ok none) ∧
            (lib'.aliases.locate (alternateBase base) r).canonical.address = some address)) := by
  have hlib : lib.Holds := h.holds (holds_of_empty hstart)
  rcases resolve_cases hrun with hfound | ⟨lib₁, hmissed, hfound⟩
  · obtain ⟨address, -, hpairs, -, -⟩ := search_found hfound
    have hne := hpairs.ne_empty (hlib.search hfound)
    have hlocated := hpairs.located
    refine ⟨address, hpairs.address hne, hpairs.document, hpairs.value, ?_⟩
    cases hplace : lib'.recorded? (r.resolveAgainst base.virtual) with
    | some place =>
      rw [locate_of_lookup hplace] at hlocated
      exact .inl ⟨place, rfl, hpairs.eq_recorded hplace hne hlocated⟩
    | none =>
      rw [locate_of_none hplace] at hlocated
      exact .inr ⟨rfl, hpairs.eq_own hplace hne, .inl hlocated⟩
  · obtain ⟨missing, hmissing, hnothing, haliases, hkept⟩ := search_missed hmissed
    obtain ⟨address, -, hpairs, hkept', hentries⟩ := search_found hfound
    have hne := hpairs.ne_empty ((hlib.search hmissed).search hfound)
    have hunrecorded := hlib.recorded?_of_missed hmissing hnothing
    refine ⟨address, hpairs.address hne, hpairs.document, hpairs.value, ?_⟩
    cases hplace : lib'.recorded? (r.resolveAgainst base.virtual) with
    | some place =>
      -- It was not recorded before, so it comes from the document that was found.
      have hold : lib₁.recorded? (r.resolveAgainst base.virtual) ≠ some place := by
        rw [recorded?, haliases]
        intro hold
        cases hunrecorded.symm.trans hold
      have haddress := (hentries _ place hplace).resolve_left hold
      have hfilter : (some address).filter (!·.isEmpty) = some address := by
        simp [Option.filter, hne]
      rw [hfilter] at haddress
      exact .inl ⟨place, rfl, hpairs.eq_recorded hplace hne haddress⟩
    | none =>
      rw [locate_of_none hunrecorded] at hmissing
      refine .inr ⟨rfl, hpairs.eq_own hplace hne, .inr ⟨⟨missing, hmissing, ?_⟩, hpairs.located⟩⟩
      rw [hkept', hkept, hnothing]

end Resolve

/-- A library of documents after it resolved the reference to the root of one. -/
def afterTopLevel (documents : List (String × Json)) (uri : String) : Library :=
  (outcome (resolveTopLevel (.parse uri)) (ofStore (some (.memory documents [])))).2

/-- A document with another one embedded that has an id of its own. -/
def embedding (own : List (String × Json)) (others : List (String × Json)) : Json :=
  .object (own ++ [("x", .object []), ("definitions", .object
    (("a", .object [("$id", .string "v.json")]) :: others))])

/-- The place of the embedded document. -/
def embedded : Place := ⟨.parse "c.json#/definitions/a", .parse "v.json", true⟩

/-- The embedded document is nowhere else, so the reference leads into the one around it. -/
theorem resolve_place_embedded :
    let lib := afterTopLevel [("c.json", embedding [] [])] "c.json"
    ∃ found lib', outcome (resolve embedded (.parse "#/x")) lib = (.ok found, lib') ∧
      found.place.canonical = .parse "c.json#/x" := by
  intro lib
  have huses : (ofStore (some (.memory [("c.json", embedding [] [])] []))).Uses lib :=
    .resolve .refl .empty _
  have hok : (outcome (resolve embedded (.parse "#/x")) lib).1.isOk = true := by decide +kernel
  have hmissed : ((outcome (resolve embedded (.parse "#/x")) lib).2.fetched
      "v.json").toOption.map Option.isNone = some true := by decide +kernel
  have hnone : (outcome (resolve embedded (.parse "#/x")) lib).2.recorded?
      ((Reference.parse "#/x").resolveAgainst embedded.virtual) = none := by decide +kernel
  have hsees : ((outcome (resolve embedded (.parse "#/x")) lib).2.aliases.locate
      (alternateBase embedded) (.parse "#/x")).canonical.address = some "c.json" := by
    decide +kernel
  rcases hrun : outcome (resolve embedded (.parse "#/x")) lib with ⟨e | found, lib'⟩ <;>
    rw [hrun] at hok hmissed hnone hsees
  · cases hok
  · obtain ⟨address, -, hdocument, -, hplace⟩ := resolve_place rfl huses hrun
    refine ⟨found, lib', rfl, ?_⟩
    rcases hplace with ⟨place, hrecorded, -⟩ | ⟨-, hown, hbase | ⟨-, halternate⟩⟩
    · cases hnone.symm.trans hrecorded
    · have hfallback : (fallback embedded (.parse "#/x")).canonical.address = some "v.json" := by
        decide +kernel
      obtain rfl := Option.some.inj (hfallback.symm.trans hbase)
      rw [hdocument] at hmissed
      cases hmissed
    · obtain rfl := Option.some.inj (hsees.symm.trans halternate)
      rw [hown]
      decide +kernel

/-- A reference can lead to a place other than the recorded ones, although one is recorded for what
the alternate base sees. In the first library the embedded document is in the store as well, so the
alternate base is not asked. In the second one it is asked for the address alone. -/
theorem resolve_passesRecorded :
    let store := [("c.json", embedding [("$id", .string "c.json")] []), ("v.json", embedding [] [])]
    let mixed := [("c.json", embedding []
      [("b", .object [("$id", .string "c.json"), ("x", .object [])])])]
    let run (documents : List (String × Json)) :=
      outcome (resolve embedded (.parse "#/x")) (afterTopLevel documents "c.json")
    let virtual := (Reference.parse "#/x").resolveAgainst embedded.virtual
    let alternate := (Reference.parse "#/x").resolveAgainst (alternateBase embedded).virtual
    ((run store).1.toOption.map (·.place.canonical) = some (.parse "v.json#/x") ∧
      (run store).2.recorded? virtual = none ∧
      ((run store).2.recorded? alternate).map (·.canonical) = some (.parse "c.json#/x")) ∧
    (run mixed).1.toOption.map (·.place.canonical) = some (.parse "c.json#/x") ∧
      (run mixed).2.recorded? virtual = none ∧
      ((run mixed).2.recorded? alternate).map (·.canonical) =
        some (.parse "c.json#/definitions/b/x") := by
  decide +kernel

end Library

end JsonTyping
