import JsonTyping.Proofs.AddressPaths
import JsonTyping.Proofs.UrlTexts
import JsonTyping.Schema.Reference
import JsonTyping.Schema.Store

/-!
# Canonical addresses

A reference that was read, and resolved against others that were, has no address or one that
normalizing leaves alone, so that a store files a document under the address itself. This holds for
every library of URLs that reads URLs back as it wrote them (`UrlLibrary.Documented`), but for two
exceptions (`Address.Loose`). A path such as `.` can fold to nothing, which is kept as an empty
address, and a folded path can read as a URL.
-/

namespace JsonTyping

/-- What a library of URLs is documented to do. -/
structure UrlLibrary.Documented (urls : UrlLibrary) : Prop where
  /-- A URL is read from the text that it is written as. -/
  parse?_text : ∀ u, urls.parse? (urls.text u) = some u
  /-- A URL without its fragment has none to be taken away. -/
  withoutFragment_idem : ∀ u,
    urls.withoutFragment (urls.withoutFragment u) = urls.withoutFragment u
  /-- A text without a scheme is no URL of its own. -/
  parse?_empty : urls.parse? "" = none

namespace Url

/-- The URL has no fragment and is read from its text. -/
def ReadsBack (u : Url) : Prop := u.fragment = none ∧ parse? u.text = some u

instance (u : Url) : Decidable u.ReadsBack := inferInstanceAs (Decidable (_ ∧ _))

def readBack? (u : Url) : Option { u : Url // u.ReadsBack } :=
  if h : u.withoutFragment.ReadsBack then some ⟨u.withoutFragment, h⟩ else none

def parseSteady? (s : String) : Option { u : Url // u.ReadsBack } := (parse? s).bind readBack?

def joinSteady? (base : { u : Url // u.ReadsBack }) (s : String) :
    Option { u : Url // u.ReadsBack } := (base.1.join? s).bind readBack?

/-- The URLs of the program's own reader that are read back. -/
def steadyLibrary : UrlLibrary where
  Url := { u : Url // u.ReadsBack }
  parse? := parseSteady?
  join? := joinSteady?
  withoutFragment u := u
  text u := u.1.text

theorem bind_readBack? {result : Option Url} {u : Url} (h : result = some u)
    (hback : u.ReadsBack) : result.bind readBack? = some ⟨u, hback⟩ := by
  have hself : u.withoutFragment = u := by
    rw [withoutFragment, ← hback.1]
  have hkept : u.withoutFragment.ReadsBack := by
    rw [hself]
    exact hback
  rw [h, Option.bind_some, readBack?, dif_pos hkept]
  congr 1
  exact Subtype.ext hself

theorem parseSteady?_text (u : { u : Url // u.ReadsBack }) : parseSteady? u.1.text = some u := by
  obtain ⟨u, hback⟩ := u
  have hread := hback.2
  unfold parseSteady?
  generalize parse? u.text = result at hread ⊢
  exact bind_readBack? hread hback

theorem steadyLibrary_documented : steadyLibrary.Documented := by
  unfold steadyLibrary
  constructor
  · dsimp only
    exact parseSteady?_text
  · exact fun _ => rfl
  · dsimp only
    decide +kernel

theorem readBack?_of_regular {u : Url} (h : u.WellFormed)
    (hregular : ¬ u.withoutFragment.Irregular) :
    ∃ v, u.readBack? = some v ∧ v.1 = u.withoutFragment := by
  have hback : u.withoutFragment.ReadsBack :=
    ⟨rfl, parse?_text (h.withFragment none) hregular rfl⟩
  exact ⟨⟨_, hback⟩, dif_pos hback, rfl⟩

/-- No URL is lost but irregular ones. -/
theorem parseSteady?_of_regular {s : String} {u : Url} (hhash : '#' ∉ s.toList)
    (h : parse? s = some u) (hregular : ¬ u.withoutFragment.Irregular) :
    ∃ v, parseSteady? s = some v ∧ v.1 = u.withoutFragment := by
  rw [parseSteady?, h, Option.bind_some]
  exact readBack?_of_regular (wellFormed_parse? hhash h) hregular

theorem joinSteady?_of_regular {base : { u : Url // u.ReadsBack }} {s : String} {u : Url}
    (hbase : WellFormed base.1) (hhash : '#' ∉ s.toList) (h : base.1.join? s = some u)
    (hregular : ¬ u.withoutFragment.Irregular) :
    ∃ v, joinSteady? base s = some v ∧ v.1 = u.withoutFragment := by
  rw [joinSteady?, h, Option.bind_some]
  exact readBack?_of_regular (wellFormed_join? hbase hhash h) hregular

end Url

variable {urls : UrlLibrary}

namespace Address

variable {address : String}

/-- An address that is its own normal form. -/
def IsCanonical (urls : UrlLibrary) (address : String) : Prop :=
  address ≠ "" ∧ normalizeWith urls address = address

/-- What normalizing can leave that is no canonical address. -/
inductive Loose (urls : UrlLibrary) (address : String) : Prop
  | empty (h : address = "")
  /-- A folded path reads as a URL of another spelling. -/
  | readsAsUrl (u : urls.Url) (hpath : normalizePath address = address)
      (hurl : urls.parse? address = some u)
      (hother : urls.text (urls.withoutFragment u) ≠ address)

theorem Loose.not_isCanonical (h : Loose urls address) : ¬ IsCanonical urls address := by
  rintro ⟨hne, hself⟩
  cases h with
  | empty hempty => exact hne hempty
  | readsAsUrl u _ hurl hother => exact hother ((normalizeWith_of_url hurl).symm.trans hself)

/-- A folded path is canonical unless nothing is left of it or it reads as another URL. -/
theorem normalizePath_canonical (urls : UrlLibrary) (path : String) :
    IsCanonical urls (normalizePath path) ∨ Loose urls (normalizePath path) := by
  have hidem := normalizePath_idem path
  by_cases hempty : normalizePath path = ""
  · exact .inr (.empty hempty)
  cases hurl : urls.parse? (normalizePath path) with
  | none => exact .inl ⟨hempty, (normalizeWith_of_path hurl).trans hidem⟩
  | some u =>
    by_cases hself : urls.text (urls.withoutFragment u) = normalizePath path
    · exact .inl ⟨hempty, (normalizeWith_of_url hurl).trans hself⟩
    · exact .inr (.readsAsUrl u hidem hurl hself)

section Documented

variable (hurls : urls.Documented)
include hurls

theorem urlText_canonical (u : urls.Url) :
    IsCanonical urls (urls.text (urls.withoutFragment u)) := by
  have hread := hurls.parse?_text (urls.withoutFragment u)
  refine ⟨fun hempty => ?_, ?_⟩
  · rw [hempty, hurls.parse?_empty] at hread
    cases hread
  · rw [normalizeWith_of_url hread, hurls.withoutFragment_idem]

theorem normalizeWith_canonical (s : String) :
    IsCanonical urls (normalizeWith urls s) ∨ Loose urls (normalizeWith urls s) := by
  cases hurl : urls.parse? s with
  | some u =>
    rw [normalizeWith_of_url hurl]
    exact .inl (urlText_canonical hurls u)
  | none =>
    rw [normalizeWith_of_path hurl]
    exact normalizePath_canonical urls s

/-- An address joined to any other is canonical, or a loose path. -/
theorem joinWith_canonical (address base : String) :
    IsCanonical urls (joinWith urls address base) ∨ Loose urls (joinWith urls address base) := by
  unfold joinWith
  split
  · exact normalizeWith_canonical hurls address
  · split
    · rename_i u _
      exact .inl (urlText_canonical hurls u)
    · split
      · exact normalizePath_canonical urls address
      · have hpath : normalizePath (String.ofList (directory base.toList ++ address.toList)) =
            String.ofList (normalizePathChars (directory base.toList ++ address.toList)) := by
          rw [normalizePath, String.toList_ofList]
        rw [← hpath]
        exact normalizePath_canonical urls _

end Documented

end Address

namespace Reference

/-- The references that come of reading, and of resolving what was read against others. -/
inductive Obtained (urls : UrlLibrary) : Reference → Prop
  | read (s : String) : Obtained urls (parseWith urls s)
  | seen (s : String) {base : Reference} (hbase : Obtained urls base) :
    Obtained urls ((parseWith urls s).resolveAgainstWith urls base)

theorem address_parseWith {s address : String} (h : (parseWith urls s).address = some address) :
    ∃ before, address = Address.normalizeWith urls before := by
  unfold parseWith at h
  dsimp only at h
  split at h
  · cases h
  · exact ⟨_, (Option.some.inj h).symm⟩

theorem Obtained.address_cases (hurls : urls.Documented) {r : Reference} (h : Obtained urls r)
    {address : String} (haddress : r.address = some address) :
    Address.IsCanonical urls address ∨ Address.Loose urls address := by
  induction h generalizing address with
  | read s =>
    obtain ⟨before, rfl⟩ := address_parseWith haddress
    exact Address.normalizeWith_canonical hurls before
  | @seen s base hbase ih =>
    unfold resolveAgainstWith at haddress
    dsimp only at haddress
    split at haddress
    · exact ih haddress
    · rename_i own hown _
      obtain rfl := Option.some.inj haddress
      obtain ⟨before, rfl⟩ := address_parseWith hown
      exact Address.normalizeWith_canonical hurls before
    · rename_i own other hown hother
      obtain rfl := Option.some.inj haddress
      exact Address.joinWith_canonical hurls own other

/-- The address of a reference is its own normal form, and that under which a store files a
document, unless it is empty or a folded path that reads as a URL of another spelling. -/
theorem Obtained.address_canonical (hurls : urls.Documented) {r : Reference} (h : Obtained urls r)
    {address : String} (haddress : r.address = some address) :
    (Address.IsCanonical urls address ↔ ¬ Address.Loose urls address) ∧
      (¬ Address.Loose urls address → ∀ (documents : List (String × Json)) (document : Json),
        Store.addDocumentWith urls documents address document =
          (address, document) :: documents) := by
  have hcases := h.address_cases hurls haddress
  refine ⟨⟨fun hcanonical hloose => hloose.not_isCanonical hcanonical, hcases.resolve_right⟩, ?_⟩
  intro hloose documents document
  rw [Store.addDocumentWith, (hcases.resolve_right hloose).2]

theorem Obtained.address_canonical_seen :
    let urls := Url.steadyLibrary
    let r := (parseWith urls "b.json#/x").resolveAgainstWith urls
      (parseWith urls "http://Example.com/a/./c.json")
    urls.Documented ∧ Obtained urls r ∧ r.address = some "http://example.com/a/b.json" ∧
      Address.IsCanonical urls "http://example.com/a/b.json" ∧
      ∀ (documents : List (String × Json)) (document : Json),
        Store.addDocumentWith urls documents "http://example.com/a/b.json" document =
          ("http://example.com/a/b.json", document) :: documents := by
  intro urls r
  have hurls : urls.Documented := Url.steadyLibrary_documented
  have h : Obtained urls r := .seen "b.json#/x" (.read "http://Example.com/a/./c.json")
  have haddress : r.address = some "http://example.com/a/b.json" := by decide +kernel
  have hcanonical : Address.IsCanonical urls "http://example.com/a/b.json" :=
    ⟨by decide, by decide +kernel⟩
  obtain ⟨hiff, hstore⟩ := h.address_canonical hurls haddress
  exact ⟨hurls, h, haddress, hcanonical, hstore (hiff.1 hcanonical)⟩

/-- A path that folds to nothing is an empty address. A folded path can read as a URL, and a store
files it under the address of this URL. -/
theorem address_loose :
    (parse ".#/a").address = some "" ∧
    (parse "a/..").address = some "" ∧
    (parse "./http://Example.com/x").address = some "http:/Example.com/x" ∧
    Address.normalize "http:/Example.com/x" = "http://example.com/x" ∧
    ∀ (documents : List (String × Json)) (document : Json),
      Store.addDocument documents "http:/Example.com/x" document =
        ("http://example.com/x", document) :: documents := by
  have hurl : Address.normalize "http:/Example.com/x" = "http://example.com/x" := by
    decide +kernel
  refine ⟨by decide +kernel, by decide +kernel, by decide +kernel, hurl, ?_⟩
  intro documents document
  exact congrArg (fun own => (own, document) :: documents) hurl

end Reference

end JsonTyping
