import JsonTyping.Proofs.BatchRecords

/-!
# Names of top levels

A top level gives its name to the type of the place that its reference leads to, provided that the
place has no type when its turn comes (`Batch.convert_names`). A place that was converted before,
for a reference to it or as a part of another schema, keeps the attributes that it has, so there the
name is missing (`Batch.convert_names_order`).
-/

namespace JsonTyping

open Conversion

namespace Batch

/-- Every converted top level was resolved in its turn, after the references before it. If an object
schema is found at a place without a type, the type of the top level is given its name; if the place
has a type already, this turn changes nothing about it. -/
theorem convert_names {b b' : Batch} {graph graph' : Graph} {report : Report}
    (hlib : b.library.Holds) (hrun : b.convert graph = (b', graph', .ok report)) {name : String}
    {t : NodeId} (ht : (name, t) ∈ report.converted) :
    ∃ before r after b₁ graph₁ report₁ found,
      b.pending = before ++ (name, r) :: after ∧
      convertAll { b with pending := [] } graph .empty before = (b₁, graph₁, .ok report₁) ∧
      (outcome (Library.resolveTopLevel r) b₁.library).1 = .ok found ∧
      b'.types.lookup found.place.canonical = some t ∧
      (b₁.types.lookup found.place.canonical = none →
        (∃ members, found.value = .ok (.object members)) →
          name ∈ (graph'.attributes t).names.given) ∧
      ∀ u, b₁.types.lookup found.place.canonical = some u → u = t ∧
        (outcome (convertTopLevel b.annotators name r) (b₁.conversion graph₁)).2.graph =
          graph₁ := by
  obtain hnone | ⟨before, r, after, b₁, graph₁, report₁, s, hpending, hbefore, hturn, hafter⟩ :=
    exists_run_of_converted (b := { b with pending := [] }) hlib .refl hrun ht
  · cases hnone
  have huses : b.library.Uses b₁.library :=
    (progress_convertAll (b := { b with pending := [] }) hlib .refl hbefore).retains.uses
  obtain ⟨-, -, found, v, hfound, hv, harrives⟩ :=
    (records_convertTopLevel (s := b₁.conversion graph₁) b.annotators hlib name r).ok huses hturn
  refine ⟨before, r, after, b₁, graph₁, report₁, found, hpending, hbefore, hfound,
    hafter.lookup _ _ harrives.lookup, fun hnone hobject => ?_, fun u hu => ?_⟩
  · obtain ⟨members, hmembers⟩ := hobject
    obtain rfl := Except.ok.inj (hv.symm.trans hmembers)
    have hnamed := harrives.attributes hnone ⟨members, rfl⟩
    have hkept := hafter.gains.attributes t
    exact (hkept.trans hnamed).given (SortedSet.mem_singleton.2 rfl)
  · rw [hturn]
    exact harrives.known u hu

/-- A document that is a reference to another one, which is an object schema. -/
def referringBatch (uris : List String) : Batch :=
  let documents : List (String × Json) :=
    [("a.json", .object [("$ref", .string "b.json")]),
      ("b.json", .object [("type", .string "object")])]
  uris.foldl (fun b uri => (b.addSource (ofUri uri)).1) (ofStore (some (.memory documents [])))

/-- The reference that is converted last finds a type for its target, and nothing else. -/
theorem convert_names_referring :
    ∃ b' graph' report, (referringBatch ["b.json", "a.json"]).convert .empty =
        (b', graph', .ok report) ∧ ("a", 4) ∈ report.converted ∧
      ∃ before r after b₁ graph₁ report₁ found,
        (referringBatch ["b.json", "a.json"]).pending = before ++ ("a", r) :: after ∧
        convertAll { referringBatch ["b.json", "a.json"] with pending := [] } .empty .empty before =
          (b₁, graph₁, .ok report₁) ∧
        (outcome (Library.resolveTopLevel r) b₁.library).1 = .ok found ∧
        b'.types.lookup found.place.canonical = some 4 ∧
        (b₁.types.lookup found.place.canonical = none →
          (∃ members, found.value = .ok (.object members)) →
            "a" ∈ (graph'.attributes 4).names.given) ∧
        ∀ u, b₁.types.lookup found.place.canonical = some u → u = 4 ∧
          (outcome (convertTopLevel Annotator.builtin "a" r)
            (b₁.conversion graph₁)).2.graph = graph₁ := by
  have hreport : ((referringBatch ["b.json", "a.json"]).convert .empty).2.2.map Report.converted =
      .ok [("b", 0), ("a", 4)] := by decide +kernel
  rcases hrun : (referringBatch ["b.json", "a.json"]).convert .empty with ⟨b', graph', e | report⟩
  · rw [hrun] at hreport
    cases hreport
  · rw [hrun] at hreport
    have ht : ("a", 4) ∈ report.converted := by
      rw [Except.ok.inj hreport]
      exact List.mem_cons_of_mem _ List.mem_cons_self
    exact ⟨b', graph', report, rfl, ht, convert_names (Library.holds_of_empty rfl) hrun ht⟩

/-- Of two documents one of which refers to the other, the latter is given its name only if its turn
comes first. -/
theorem convert_names_order :
    let first := (referringBatch ["b.json", "a.json"]).convert .empty
    let last := (referringBatch ["a.json", "b.json"]).convert .empty
    (first.2.2.map Report.converted = .ok [("b", 0), ("a", 4)] ∧
      "b" ∈ (first.2.1.attributes 0).names.given.toList) ∧
    last.2.2.map Report.converted = .ok [("a", 0), ("b", 1)] ∧
      "b" ∉ (last.2.1.attributes 1).names.given.toList := by
  decide +kernel

end Batch

end JsonTyping
