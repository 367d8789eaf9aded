import JsonTyping.Proofs.EventStreams
import JsonTyping.Proofs.RepeatedKeys

/-!
# Texts and documents

A text may be recorded as it is read, or its document may be. Both fail for the same texts, and the
document leaves the recorder as a text without the repeated members does
(`Recorder.addText_agrees`). For a text that repeats no key it makes no difference at all which of
the two is observed.
-/

namespace JsonTyping

namespace Json

/-- A text has a document if it has a value, and that is the value without repeated members. -/
theorem readDocument_eq_ok {text : String} {document : Json}
    (h : readDocument text = .ok document) :
    ∃ v, read text = .ok v ∧ document = v.distinct := by
  rw [readDocument] at h
  cases hread : read text with
  | error e =>
    rw [hread] at h
    cases h
  | ok v =>
    rw [hread] at h
    exact ⟨v, rfl, (Except.ok.inj h).symm⟩

theorem readDocument_eq_error {text : String} {e : ReadError} :
    readDocument text = .error e ↔ read text = .error e := by
  rw [readDocument]
  cases read text with
  | error e' => exact ⟨fun h => congrArg _ (Except.error.inj h), fun h => by rw [h]; rfl⟩
  | ok v => exact ⟨nofun, nofun⟩

end Json

namespace Recorder

variable {r : Recorder}

theorem Idle.addText_of_read (hidle : r.Idle) {text : String} {v : Json}
    (h : Json.read text = .ok v) :
    ∃ r' root, r.addDocument v = .ok (r', root) ∧ r.addText text = .ok (r', .ok root) := by
  obtain ⟨r', root, hadd, -⟩ := hidle.addDocument v
  exact ⟨r', root, hadd, (r.addText_of_read h).trans (by rw [hadd]; rfl)⟩

theorem Idle.addText_eq_error (hidle : r.Idle) (text : String) (e : Json.ReadError) :
    (∃ r', r.addText text = .ok (r', .error e)) ↔ Json.readDocument text = .error e := by
  rw [Json.readDocument_eq_error]
  constructor
  · rintro ⟨r', hadd⟩
    cases hread : Json.read text with
    | error e' =>
      obtain ⟨r₁, hrefused, -⟩ := hidle.addText_of_fault hread
      rw [hadd] at hrefused
      cases hrefused
      rfl
    | ok v =>
      obtain ⟨r₁, root, -, htaken⟩ := hidle.addText_of_read hread
      rw [hadd] at htaken
      cases htaken
  · intro hread
    obtain ⟨r', hadd, -⟩ := hidle.addText_of_fault hread
    exact ⟨r', hadd⟩

/-- A text is refused exactly if it has no document. The document of a text is what is left of its
value without repeated members, and adding it does what any text does that has this value. If the
text repeats no key, it may be observed itself: the collection is the same. -/
theorem addText_agrees (hidle : r.Idle) (text : String) :
    (∀ e, (∃ r', r.addText text = .ok (r', .error e)) ↔ Json.readDocument text = .error e) ∧
    ∀ document, Json.readDocument text = .ok document →
      ∃ v, Json.read text = .ok v ∧ v.WithoutRepeats document ∧
        (∀ text' w, Json.read text' = .ok w → v.WithoutRepeats w →
          ∃ r' root, r.addDocument document = .ok (r', root) ∧
            r.addText text' = .ok (r', .ok root)) ∧
        (v.NoRepeats → ∀ roots, ∃ c : Collection,
          Collection.observeDocument ⟨r, roots⟩ document = .ok c ∧
            Collection.observeText ⟨r, roots⟩ text = .ok (c, .ok ())) := by
  refine ⟨hidle.addText_eq_error text, fun document hdocument => ?_⟩
  obtain ⟨v, hread, rfl⟩ := Json.readDocument_eq_ok hdocument
  refine ⟨v, hread, (Json.withoutRepeats_iff v _).2 rfl, fun text' w hread' hw => ?_,
    fun hv roots => ?_⟩
  · obtain rfl := (Json.withoutRepeats_iff v w).1 hw
    exact hidle.addText_of_read hread'
  · obtain ⟨r', root, hadd, htaken⟩ := hidle.addText_of_read hread
    refine ⟨⟨r', roots ++ [root]⟩, ?_, ?_⟩
    · simp only [Collection.observeDocument, hv.distinct_eq, hadd]
      rfl
    · simp only [Collection.observeText, htaken]
      rfl

/-- The key `a` is repeated: with the value it had last, the text is recorded as the document. -/
theorem addText_agrees_repeating :
    (Recorder.empty {}).Idle ∧
      Json.readDocument "\x7b\"a\":1,\"b\":null,\"a\":[]\x7d" =
        .ok (.object [("a", .array []), ("b", .null)]) ∧
      ∃ r' root,
        (Recorder.empty {}).addDocument (.object [("a", .array []), ("b", .null)]) =
          .ok (r', root) ∧
        (Recorder.empty {}).addText "\x7b\"a\":[],\"b\":null\x7d" = .ok (r', .ok root) := by
  have hidle : (Recorder.empty {}).Idle := ⟨rfl, rfl⟩
  have hread : Json.read "\x7b\"a\":1,\"b\":null,\"a\":[]\x7d" =
      .ok (.object [("a", .number (.integer 1)), ("b", .null), ("a", .array [])]) :=
    Json.read_eq_ok_iff.2 (by decide +kernel)
  have hdocument : Json.readDocument "\x7b\"a\":1,\"b\":null,\"a\":[]\x7d" =
      .ok (.object [("a", .array []), ("b", .null)]) := by
    rw [Json.readDocument, hread]
    rfl
  have hwithout : Json.read "\x7b\"a\":[],\"b\":null\x7d" =
      .ok (.object [("a", .array []), ("b", .null)]) :=
    Json.read_eq_ok_iff.2 (by decide +kernel)
  obtain ⟨v, -, hv, hall, -⟩ := (addText_agrees hidle _).2 _ hdocument
  exact ⟨hidle, hdocument, hall _ _ hwithout hv⟩

end Recorder

end JsonTyping
