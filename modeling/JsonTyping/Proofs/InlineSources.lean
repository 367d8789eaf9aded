import JsonTyping.Proofs.AddressPaths
import JsonTyping.Proofs.BatchSafety

/-!
# Documents that come with their source

A document that comes with its source is served under the address of the first reference. The
reference itself counts from the root of this document, so its address is seen from itself. URLs and
absolute paths stay what they are then, and so do paths with as many directories that climb as that
descend: the reference leads to the document, without the store. A path with any other directories
leads elsewhere (`Batch.addSource_inline`, `Batch.inlineSource_asksElsewhere`).
-/

namespace JsonTyping

namespace Reference

/-- What is written before the path of a reference. -/
def addressText (s : String) : String := String.ofList (s.toList.takeWhile (· != '#'))

theorem address_parse {s address : String} (h : (parse s).address = some address) :
    address = Address.normalize (addressText s) := by
  unfold parse parseWith at h
  dsimp only at h
  split at h
  · cases h
  · exact (Option.some.inj h).symm

/-- The reference as it is seen from the root of the document at its own address. -/
def fromItself (r : Reference) : Reference := r.resolveAgainst (.root r.address)

theorem address_fromItself {r : Reference} {address : String} (h : r.address = some address) :
    r.fromItself.address = some (Address.join address address) := by
  unfold fromItself resolveAgainst resolveAgainstWith
  rw [h]
  by_cases hempty : address = ""
  · -- From an empty address nothing counts, but it is the same address joined to itself.
    have hjoin : Address.join "" "" = "" := by decide +kernel
    rw [hempty, hjoin]
    rfl
  · have hroot : (root (some address)).address = some address := by
      have hnonempty : (!address.isEmpty) = true := by simpa using hempty
      exact (Option.filter_eq_some_iff (p := fun own : String => !own.isEmpty)).2
        ⟨rfl, hnonempty⟩
    rw [hroot]
    rfl

/-- Seen from its document, a reference that is written with a path as its address leads there if
the path is normalized to a URL or an absolute path, or to one with as many directories that climb
as that descend, and else it leads elsewhere. -/
theorem address_fromItself_iff {s address : String} (h : (parse s).address = some address)
    (hpath : Url.parse? (addressText s) = none) :
    (parse s).fromItself.address = some (Address.normalize address) ↔
      Address.IsAbsolute address ∨
        let above := Address.directories address.toList
        2 * above.count Address.up = above.length := by
  rw [address_fromItself h, Option.some_inj, address_parse h]
  exact Address.join_normalize_self hpath

end Reference

namespace Batch

theorem exists_urisOf {s : Source} {uris : List String} (h : urisOf s = some uris) :
    ∃ first rest, uris = first :: rest := by
  rcases s with ⟨name, _ | ⟨first, rest⟩, schema⟩
  · cases name with
    | none => cases h
    | some name => exact ⟨_, _, (Option.some.inj h).symm⟩
  · exact ⟨first, rest, (Option.some.inj h).symm⟩

theorem address_of_documentOf {first text address : String} {document : Json}
    (h : documentOf first text = .ok (address, document)) :
    (Reference.parse first).address = some address := by
  unfold documentOf at h
  cases hread : (Json.readPlaced text).mapError Json.PlacedError.message with
  | error message =>
    rw [hread] at h
    cases h
  | ok read =>
    rw [hread] at h
    cases haddress : (Reference.parse first).address with
    | none =>
      rw [haddress] at h
      cases h
    | some own =>
      rw [haddress] at h
      exact congrArg (some ·.1) (Except.ok.inj h)

/-- What an accepted source with a document adds. -/
theorem addSource_of_document {b b' : Batch} {s : Source} {text : String}
    (htext : s.schema = some text) (hrun : b.addSource s = (b', .ok ())) :
    ∃ first rest address document, urisOf s = some (first :: rest) ∧
      documentOf first text = .ok (address, document) ∧
      b' = { b with
        library := b.library.addDocument address document
        pending := b.pending ++ (first :: rest).map
          (topLevelOf (s.nameAmong (first :: rest)) (some (.root (some address)))) } := by
  obtain ⟨-, hnone⟩ | ⟨uris, text', message, -, -, -, hunread⟩ |
    ⟨uris, b₁, root, huris, hserves, hadds⟩ := addSource_cases b s
  · cases congrArg Prod.snd (hnone.symm.trans hrun)
  · cases congrArg Prod.snd (hunread.symm.trans hrun)
  · obtain ⟨first, rest, rfl⟩ := exists_urisOf huris
    have hresult := hadds.symm.trans hrun
    obtain hall | ⟨before, uri, after, -, -, hrefused⟩ :=
      addUris_cases (s.nameAmong (first :: rest)) root (first :: rest) b₁
    · rw [hall] at hresult
      cases hserves with
      | nothing htext' => cases htext'.symm.trans htext
      | @document text' address document htext' hdocument =>
        obtain rfl := Option.some.inj (htext'.symm.trans htext)
        exact ⟨first, rest, address, document, huris, hdocument,
          (congrArg Prod.fst hresult).symm⟩
    · rw [hrefused] at hresult
      cases congrArg Prod.snd hresult

theorem Serves.covers {b b' : Batch} {s : Source} {uris : List String} {root : Option Reference}
    (h : Serves b s uris b' root) (hb : b.library.Covers) : b'.library.Covers := by
  cases h with
  | nothing _ => exact hb
  | document _ _ => exact hb.addDocument _ _

theorem Reached.covers {b : Batch} (h : b.Reached) : b.library.Covers := by
  induction h with
  | ofStore store => exact Library.covers_ofStore store
  | @addSource b hb s ih =>
    obtain ⟨-, hnone⟩ | ⟨uris, text, message, -, -, -, hunread⟩ |
      ⟨uris, b₁, root, -, hserves, hadds⟩ := addSource_cases b s
    · rw [hnone]
      exact ih
    · rw [hunread]
      exact ih
    · rw [hadds, library_addUris]
      exact hserves.covers ih
  | convert hb graph ih => exact (hb.sane.convert rfl).later.uses.covers ih

/-- The document of a source that is accepted is served under the address of the first reference.
The first reference has this address if it is a URL or an absolute path, and if it is written as a
path, then only if it is normalized to one or half of its directories climb. If the reference has
this address, it is resolved without the store, whatever was converted before. -/
theorem addSource_inline {b b' : Batch} (hb : b.Reached) {s : Source} {text : String}
    (htext : s.schema = some text) (hrun : b.addSource s = (b', .ok ())) :
    ∃ first rest address document top r others,
      urisOf s = some (first :: rest) ∧ documentOf first text = .ok (address, document) ∧
        b'.library = b.library.addDocument address document ∧
        b'.pending = b.pending ++ (top, r) :: others ∧
        (Address.IsAbsolute address → r.address = some (Address.normalize address)) ∧
        (Url.parse? (Reference.addressText first) = none →
          (r.address = some (Address.normalize address) ↔ Address.IsAbsolute address ∨
            let above := Address.directories address.toList
            2 * above.count Address.up = above.length)) ∧
        (r.address = some (Address.normalize address) → ∀ lib, b'.library.Uses lib →
          lib.AsksNothing (outcome (Library.resolveTopLevel r) lib)) := by
  have hcovers : b'.library.Covers := by
    have hreached := (hb.addSource s).covers
    rwa [hrun] at hreached
  obtain ⟨first, rest, address, document, huris, hdocument, rfl⟩ :=
    addSource_of_document htext hrun
  have haddress := address_of_documentOf hdocument
  let top := topLevelOf (s.nameAmong (first :: rest)) (some (.root (some address)))
  have hfirst : top first = ((top first).1, (Reference.parse first).fromItself) := by
    rw [Reference.fromItself, haddress]
    rfl
  refine ⟨first, rest, address, document, (top first).1, (Reference.parse first).fromItself,
    rest.map top, huris, hdocument, rfl, ?_, fun habsolute => ?_,
    Reference.address_fromItself_iff haddress, fun hr lib hlib => ?_⟩
  · rw [← hfirst]
    rfl
  · rw [Reference.address_fromItself haddress, Address.join_self_of_isAbsolute habsolute]
  · refine (hlib.covers hcovers).resolveTopLevel fun other hother => ?_
    obtain rfl := Option.some.inj (hr.symm.trans hother)
    exact hlib.remembers.isAnswered ⟨_, Library.lookup_addDocument _ _ _⟩

/-- The text of a document that comes with a source. -/
def stringText : String := "\x7b\"type\":\"string\"\x7d"

theorem addSource_inline_climbing :
    ∃ b r, (ofStore none).addSource ⟨none, ["../types/a.json"], some stringText⟩ = (b, .ok ()) ∧
      b.pending = [("a", r)] ∧ r.address = some "../types/a.json" ∧
      b.library.AsksNothing (outcome (Library.resolveTopLevel r) b.library) := by
  have hresult : ((ofStore none).addSource ⟨none, ["../types/a.json"], some stringText⟩).2 =
      .ok () := by decide +kernel
  have hrun := Prod.snd_eq_iff.1 hresult
  obtain ⟨first, rest, address, document, top, r, others, huris, hdocument, -, hpending, -, hself,
    hasks⟩ := addSource_inline (.ofStore none) rfl hrun
  obtain ⟨rfl, rfl⟩ := List.cons.inj (Option.some.inj huris)
  obtain rfl : "../types/a.json" = address := by
    have haddress := address_of_documentOf hdocument
    exact Option.some.inj (.trans (by decide +kernel) haddress)
  have hr : r.address = some "../types/a.json" := by
    refine ((hself (by decide +kernel)).2 (.inr (by decide +kernel))).trans ?_
    decide +kernel
  have hadded : ((ofStore none).addSource
      ⟨none, ["../types/a.json"], some stringText⟩).1.pending.map Prod.fst = ["a"] := by
    decide +kernel
  rw [hpending] at hadded
  obtain ⟨rfl, hothers⟩ := List.cons.inj hadded
  obtain rfl := List.map_eq_nil_iff.1 hothers
  refine ⟨_, r, hrun, hpending, hr, hasks ?_ _ .refl⟩
  rw [hr]
  decide +kernel

/-- From a directory that descends, the reference leads below it instead of to the document that was
served, and the store is asked for a document there. -/
theorem inlineSource_asksElsewhere :
    let accepted := (ofStore none).addSource ⟨none, ["dir/a.json"], some stringText⟩
    accepted.2 = .ok () ∧
      accepted.1.library.answers.map Prod.fst = ["dir/a.json"] ∧
      accepted.1.pending = [("a", ⟨some "dir/dir/a.json", [.root]⟩)] ∧
      (accepted.1.convert .empty).2.2.map (fun report => report.converted) =
        .error (.schema (.noSchemaStore "dir/dir/a.json")) := by
  decide +kernel

end Batch

end JsonTyping
