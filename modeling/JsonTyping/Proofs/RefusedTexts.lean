import JsonTyping.Proofs.EventStreams
import JsonTyping.Proofs.SampleOrder

/-!
# Texts that are refused

A text that is not JSON is no sample, but what was recorded in front of its fault stays in the
table, so a collection that met such texts numbers its rows and texts differently. That shows
nowhere: collections that keep the same values are solved with the same outcome and the same graph
(`Collection.Keeps.solve_eq`). So the refused texts of a run may be left out
(`Collection.observeAll_of_refused`).
-/

namespace JsonTyping

/-- A sample as it is given. -/
inductive Sample where
  | text (s : String)
  | document (v : Json)

/-- What the caller is told: an error for a text that is not JSON. -/
def Sample.answer : Sample → Except Json.ReadError Unit
  | .text s => (Json.read s).map fun _ => ()
  | .document _ => .ok ()

def Sample.value? : Sample → Option Json
  | .text s => (Json.read s).toOption
  | .document v => some v

namespace Collection

def observe (c : Collection) : Sample → Except Misuse (Collection × Except Json.ReadError Unit)
  | .text s => c.observeText s
  | .document v => do return (← c.observeDocument v, .ok ())

/-- Observes samples one after the other, with the answer to each. -/
def observeAll (c : Collection) :
    List Sample → Except Misuse (Collection × List (Except Json.ReadError Unit))
  | [] => return (c, [])
  | s :: rest => do
    let (c, answer) ← c.observe s
    let (c, answers) ← c.observeAll rest
    return (c, answer :: answers)

/-- Collections that keep the same values are solved alike, wherever their tables keep them. -/
theorem Keeps.solve_eq {settings : Settings} {values : List Json} {c d : Collection}
    (hc : Keeps settings values c) (hd : Keeps settings values d) (graph : Graph) (name : String) :
    c.solve graph name = d.solve graph name := by
  have hdepth : ∀ {e : Collection}, Keeps settings values e →
      ∀ x ∈ values.map (fun v => (⟨false, v⟩ : Sighting)),
        x.value.depth < e.recorder.table.rows + 1 := by
    intro e he x hx
    obtain ⟨v, hv, rfl⟩ := List.mem_map.1 hx
    exact Nat.lt_succ_of_le (he.depth v hv)
  have hsame : Alike settings.inferEnums Sighting.Reordered
      (values.map fun v => (⟨false, v⟩ : Sighting)) (values.map fun v => ⟨false, v⟩) :=
    Shuffled.alike (.of_forall₂ (List.forall₂_same.2 fun x _ => ⟨rfl, .same x.value⟩))
  have htype := Inference.ofSightings_eq settings hsame (hdepth hc) (hdepth hd) (.givenName name)
  have hempty : c.roots.isEmpty = d.roots.isEmpty := by
    rw [Table.isEmpty_eq_of_forall₂ hc.roots, Table.isEmpty_eq_of_forall₂ hd.roots]
  simp only [solve, hempty, hc.typeOf_eq, hd.typeOf_eq, htype]

/-- A sample is observed with an answer that depends on nothing else. -/
theorem Observed.observe {settings : Settings} {values : List Json} {c : Collection}
    (h : Observed settings values c) (s : Sample) :
    ∃ c', c.observe s = .ok (c', s.answer) ∧
      Observed settings (values ++ s.value?.toList) c' := by
  cases s with
  | document v =>
    obtain ⟨c', hobserve, -⟩ := h.keeps.observeDocument v
    exact ⟨c', by simp only [Collection.observe, hobserve]; rfl, h.document hobserve⟩
  | text s =>
    cases hread : Json.read s with
    | ok v =>
      obtain ⟨r, root, hadd, -⟩ := h.keeps.idle.addDocument v
      have hobserve : c.observeText s = .ok (⟨r, c.roots ++ [root]⟩, .ok ()) := by
        rw [Collection.observeText, c.recorder.addText_of_read hread, hadd]
        rfl
      refine ⟨⟨r, c.roots ++ [root]⟩, ?_, ?_⟩
      · rw [Sample.answer, hread]
        exact hobserve
      · rw [Sample.value?, hread]
        exact h.text hobserve hread
    | error e =>
      obtain ⟨r, hadd, -⟩ := h.keeps.idle.addText_of_fault hread
      have hobserve : c.observeText s = .ok (⟨r, c.roots⟩, .error e) := by
        rw [Collection.observeText, hadd]
        rfl
      refine ⟨⟨r, c.roots⟩, ?_, ?_⟩
      · rw [Sample.answer, hread]
        exact hobserve
      · rw [Sample.value?, hread]
        exact (List.append_nil values).symm ▸ h.refused hobserve

theorem Observed.observeAll {settings : Settings} (samples : List Sample) {values : List Json}
    {c : Collection} (h : Observed settings values c) :
    ∃ c', c.observeAll samples = .ok (c', samples.map Sample.answer) ∧
      Observed settings (values ++ samples.filterMap Sample.value?) c' := by
  induction samples generalizing values c with
  | nil => exact ⟨c, rfl, (List.append_nil values).symm ▸ h⟩
  | cons s rest ih =>
    obtain ⟨c₁, hfirst, h₁⟩ := h.observe s
    obtain ⟨c', hrest, h'⟩ := ih h₁
    refine ⟨c', ?_, ?_⟩
    · simp only [Collection.observeAll, hfirst, ok_bind, hrest]
      rfl
    · have hvalues : (s :: rest).filterMap Sample.value? =
          s.value?.toList ++ rest.filterMap Sample.value? := by
        cases hv : s.value? <;> simp [hv]
      rw [hvalues, ← List.append_assoc]
      exact h'

theorem isOk_answer (s : Sample) : s.answer.isOk = s.value?.isSome := by
  cases s with
  | document v => rfl
  | text s =>
    rw [Sample.answer, Sample.value?]
    cases Json.read s <;> rfl

theorem filterMap_value? (samples : List Sample) :
    (samples.filter (·.answer.isOk)).filterMap Sample.value? =
      samples.filterMap Sample.value? := by
  rw [List.filterMap_filter]
  refine List.filterMap_congr fun s _ => ?_
  rw [isOk_answer]
  cases hv : s.value? <;> rfl

/-- Refused texts leave no trace: without them every sample is taken, there are as many, and the
outcome of solving and the graph are the same. -/
theorem observeAll_of_refused (settings : Settings) (samples : List Sample) :
    ∃ c c' answers,
      (Collection.empty settings).observeAll samples = .ok (c, samples.map Sample.answer) ∧
      (Collection.empty settings).observeAll (samples.filter (·.answer.isOk)) =
        .ok (c', answers) ∧
      (∀ answer ∈ answers, answer = .ok ()) ∧ c'.size = c.size ∧
      ∀ graph name, c'.solve graph name = c.solve graph name := by
  have hempty : Observed settings [] (.empty settings) := .empty
  obtain ⟨c, hrun, hc⟩ := hempty.observeAll samples
  obtain ⟨c', hrun', hc'⟩ := hempty.observeAll (samples.filter (·.answer.isOk))
  rw [filterMap_value?] at hc'
  refine ⟨c, c', _, hrun, hrun', ?_, ?_, hc'.keeps.solve_eq hc.keeps⟩
  · intro answer hanswer
    obtain ⟨s, hs, rfl⟩ := List.mem_map.1 hanswer
    cases hrefused : s.answer with
    | ok u => rfl
    | error e =>
      rw [List.mem_filter, hrefused] at hs
      exact absurd hs.2 nofun
  · exact hc'.keeps.roots.length_eq.trans hc.keeps.roots.length_eq.symm

end Collection

end JsonTyping
