import JsonTyping.Proofs.BatchOrder

/-!
# Refused sources

A source is refused for its document, for want of a reference, or for a top-level reference whose
name is taken. The first two are found before anything is added. The last is not: the document of
the source is served by then, and the references before the one whose name is taken are pending
(`Batch.addSource_of_error`). So a refused source can replace the document of an accepted one
(`Batch.refusedSource_replacesDocument`).
-/

namespace JsonTyping

namespace Source

/-- How messages call a source. -/
def label (s : Source) : String := (s.name.or s.uris.head?).getD ""

/-- The name of a source names its reference if there is only one. -/
def nameAmong (s : Source) (uris : List String) : Option String :=
  if uris.length = 1 then s.name else none

end Source

namespace Batch

/-- The top-level reference of a URI that counts from `root`, after its name. -/
def topLevelOf (name : Option String) (root : Option Reference) (uri : String) :
    String × Reference :=
  let r := match root with
    | some root => (Reference.parse uri).resolveAgainst root
    | none => .parse uri
  (name.getD r.name, r)

def definedTwice (top : String) : String := "top-level `" ++ top ++ "` is defined twice"

theorem addUris_cons (name : Option String) (root : Option Reference) (b : Batch) (uri : String)
    (rest : List String) :
    addUris name root b (uri :: rest) =
      if (topLevelOf name root uri).1 ∈ b.pending.map Prod.fst then
        (b, .error (definedTwice (topLevelOf name root uri).1))
      else
        addUris name root { b with pending := b.pending ++ [topLevelOf name root uri] } rest := by
  have hany : b.pending.any (·.1 == (topLevelOf name root uri).1) = true ↔
      (topLevelOf name root uri).1 ∈ b.pending.map Prod.fst := by
    rw [List.any_eq_true, List.mem_map]
    simp only [beq_iff_eq]
  cases root <;>
  · rw [addUris]
    exact if_congr hany rfl rfl

/-- All references are added, or those before the first one whose name is taken. -/
theorem addUris_cases (name : Option String) (root : Option Reference) (uris : List String) :
    ∀ b : Batch,
      addUris name root b uris =
          ({ b with pending := b.pending ++ uris.map (topLevelOf name root) }, .ok ()) ∨
        ∃ before uri after, uris = before ++ uri :: after ∧
          (topLevelOf name root uri).1 ∈
            (b.pending ++ before.map (topLevelOf name root)).map Prod.fst ∧
          addUris name root b uris =
            ({ b with pending := b.pending ++ before.map (topLevelOf name root) },
              .error (definedTwice (topLevelOf name root uri).1)) := by
  induction uris with
  | nil =>
    intro b
    left
    rw [List.map_nil, List.append_nil]
    rfl
  | cons uri uris ih =>
    intro b
    rw [addUris_cons]
    by_cases htaken : (topLevelOf name root uri).1 ∈ b.pending.map Prod.fst
    · right
      refine ⟨[], uri, uris, rfl, ?_, ?_⟩
      · rwa [List.map_nil, List.append_nil]
      · rw [if_pos htaken, List.map_nil, List.append_nil]
    · rw [if_neg htaken]
      obtain hall | ⟨before, uri', after, rfl, htaken', hrefused⟩ :=
        ih { b with pending := b.pending ++ [topLevelOf name root uri] }
      · left
        simp only [hall, List.map_cons, List.append_assoc, List.singleton_append]
      · right
        refine ⟨uri :: before, uri', after, rfl, ?_, ?_⟩
        · simpa only [List.map_cons, List.append_assoc, List.singleton_append] using htaken'
        · simp only [hrefused, List.map_cons, List.append_assoc, List.singleton_append]

/-- `Serves b s uris b' root`: the batch `b'` serves the document of the source on top of what `b`
serves, and references count from `root`. -/
inductive Serves (b : Batch) (s : Source) (uris : List String) :
    Batch → Option Reference → Prop
  | nothing (htext : s.schema = none) : Serves b s uris b none
  | document {text address : String} {document : Json} (htext : s.schema = some text)
      (hdocument : documentOf (uris.headD "") text = .ok (address, document)) :
      Serves b s uris { b with library := b.library.addDocument address document }
        (some (.root (some address)))

theorem Serves.pending {b b' : Batch} {s : Source} {uris : List String} {root : Option Reference}
    (h : Serves b s uris b' root) : b'.pending = b.pending := by
  cases h <;> rfl

/-- A source without references, one with a text that is no document to serve, and any other one. -/
theorem addSource_cases (b : Batch) (s : Source) :
    (urisOf s = none ∧ b.addSource s =
        (b, .error (.invalidSource s.label "a source needs a name or at least one URI"))) ∨
      (∃ uris text message, urisOf s = some uris ∧ s.schema = some text ∧
        documentOf (uris.headD "") text = .error message ∧
        b.addSource s = (b, .error (.invalidSource s.label message))) ∨
      ∃ uris b₁ root, urisOf s = some uris ∧ Serves b s uris b₁ root ∧
        b.addSource s = ((addUris (s.nameAmong uris) root b₁ uris).1,
          (addUris (s.nameAmong uris) root b₁ uris).2.mapError (.invalidSource s.label)) := by
  cases huris : urisOf s with
  | none =>
    left
    refine ⟨rfl, ?_⟩
    rw [addSource, huris]
    rfl
  | some uris =>
    right
    cases htext : s.schema with
    | none =>
      right
      refine ⟨uris, b, none, rfl, .nothing htext, ?_⟩
      simp only [addSource, huris, htext, Source.nameAmong, Source.label]
    | some text =>
      cases hdocument : documentOf (uris.headD "") text with
      | error message =>
        left
        refine ⟨uris, text, message, rfl, rfl, hdocument, ?_⟩
        simp only [addSource, huris, htext, hdocument, Source.label]
        rfl
      | ok served =>
        obtain ⟨address, document⟩ := served
        right
        refine ⟨uris, _, _, rfl, .document htext hdocument, ?_⟩
        simp only [addSource, huris, htext, hdocument, Source.nameAmong, Source.label]

theorem library_addUris (name : Option String) (root : Option Reference) (uris : List String)
    (b : Batch) : (addUris name root b uris).1.library = b.library := by
  obtain hall | ⟨before, uri, after, -, -, hrefused⟩ := addUris_cases name root uris b
  · rw [hall]
  · rw [hrefused]

/-- A source without a document leaves the library as it is. -/
theorem library_addSource (b : Batch) {s : Source} (htext : s.schema = none) :
    (b.addSource s).1.library = b.library := by
  obtain ⟨-, hnone⟩ | ⟨uris, text, message, -, htext', -, -⟩ |
    ⟨uris, b₁, root, -, hserves, hadds⟩ := addSource_cases b s
  · rw [hnone]
  · cases htext.symm.trans htext'
  · rw [hadds, library_addUris]
    cases hserves with
    | nothing _ => rfl
    | document htext' _ => cases htext.symm.trans htext'

/-- A source with several references, or none, has those of its list. -/
theorem length_urisOf {s : Source} {uris : List String} (h : urisOf s = some uris)
    (hone : s.uris.length ≤ 1) : uris.length ≤ 1 := by
  unfold urisOf at h
  split at h
  · obtain rfl := Option.some.inj h
    exact Nat.le_refl 1
  · cases h
  · obtain rfl := Option.some.inj h
    exact hone

/-- A source that is refused changes nothing, except where the name of one of its references is
taken: then its document is served and the references before that one are pending. So one that has
at most one reference leaves the pending references as they were, and everything else as well if it
has no document. -/
theorem addSource_of_error {b b' : Batch} {s : Source} {error : SchemaError}
    (hrun : b.addSource s = (b', .error error)) :
    (b' = b ∨ ∃ before uri after b₁ root,
      urisOf s = some (before ++ uri :: after) ∧ Serves b s (before ++ uri :: after) b₁ root ∧
        let top := topLevelOf (s.nameAmong (before ++ uri :: after)) root
        b' = { b₁ with pending := b.pending ++ before.map top } ∧
          (top uri).1 ∈ b'.pending.map Prod.fst ∧
          error = .invalidSource s.label (definedTwice (top uri).1)) ∧
      (s.uris.length ≤ 1 → b'.pending = b.pending ∧ (s.schema = none → b' = b)) := by
  obtain ⟨-, hnone⟩ | ⟨uris, text, message, -, -, -, hunread⟩ |
    ⟨uris, b₁, root, huris, hserves, hadds⟩ := addSource_cases b s
  · obtain rfl : b = b' := congrArg Prod.fst (hnone.symm.trans hrun)
    exact ⟨.inl rfl, fun _ => ⟨rfl, fun _ => rfl⟩⟩
  · obtain rfl : b = b' := congrArg Prod.fst (hunread.symm.trans hrun)
    exact ⟨.inl rfl, fun _ => ⟨rfl, fun _ => rfl⟩⟩
  · have hresult := hadds.symm.trans hrun
    obtain hall | ⟨before, uri, after, rfl, htaken, hrefused⟩ :=
      addUris_cases (s.nameAmong uris) root uris b₁
    · rw [hall] at hresult
      cases congrArg Prod.snd hresult
    · rw [hrefused, hserves.pending] at hresult
      rw [hserves.pending] at htaken
      obtain rfl := congrArg Prod.fst hresult
      refine ⟨.inr ⟨before, uri, after, b₁, root, huris, hserves, rfl, htaken, ?_⟩, ?_⟩
      · exact (Except.error.inj (congrArg Prod.snd hresult)).symm
      · intro hone
        -- With one reference only, it is the one refused and none comes before it.
        have hlength := length_urisOf huris hone
        rw [List.length_append, List.length_cons] at hlength
        obtain rfl : before = [] := List.eq_nil_of_length_eq_zero (by omega)
        have hpending : b.pending ++ [].map (topLevelOf (s.nameAmong ([] ++ uri :: after)) root) =
            b.pending := List.append_nil b.pending
        refine ⟨hpending, fun htext => ?_⟩
        cases hserves with
        | nothing _ => exact congrArg (fun pending => { b with pending }) hpending
        | document htext' _ => exact absurd (htext.symm.trans htext') nofun

/-- A batch with one accepted source, which brings its document along. -/
def namedBatch : Batch :=
  ((ofStore none).addSource ⟨some "A", [], some "\x7b\"type\":\"string\"\x7d"⟩).1

theorem addSource_of_error_named :
    ∃ b error, namedBatch.addSource ⟨some "A", ["other.json"], none⟩ = (b, .error error) ∧
      error.message = "invalid schema source `A`: top-level `A` is defined twice" ∧
      b = namedBatch := by
  have hmessage : (namedBatch.addSource ⟨some "A", ["other.json"], none⟩).2 =
      .error (.invalidSource "A" "top-level `A` is defined twice") := by decide +kernel
  have hrun := Prod.snd_eq_iff.1 hmessage
  exact ⟨_, _, hrun, by decide +kernel, ((addSource_of_error hrun).2 (by decide)).2 rfl⟩

/-- A second source with a name that is taken is refused, yet its document takes the place of the
one that was accepted under that name, and the reference that was accepted fails. Likewise the
references before the refused one stay pending. -/
theorem refusedSource_replacesDocument :
    let second := namedBatch.addSource ⟨some "A", [], some "\x7b\"type\":\"text\"\x7d"⟩
    let third := namedBatch.addSource ⟨none, ["A#/definitions/B", "A#/definitions/A"], none⟩
    let outcome (b : Batch) :=
      (b.convert .empty).2.2.map fun report => (report.converted, report.failed)
    (second.2 = .error (.invalidSource "A" "top-level `A` is defined twice") ∧
      outcome namedBatch = .ok ([("A", 0)], []) ∧
      outcome second.1 =
        .ok ([], [("A", .schema (.unknownTypeName (.parse "A#/") "text"))])) ∧
      third.2 = .error
        (.invalidSource "A#/definitions/B" "top-level `A` is defined twice") ∧
      third.1.pending.map Prod.fst = ["A", "B"] := by
  decide +kernel

end Batch

end JsonTyping
