import JsonTyping.Samples.Recorder
import JsonTyping.Samples.Resolution

/-!
# Collections of samples

A `Collection` observes samples, as texts or as documents, and `Collection.solve` publishes the type
of all of them.
-/

namespace JsonTyping

def sampleParseMessage (e : Json.ReadError) : String :=
  "failed to parse JSON sample: " ++ e.message

structure Collection where
  recorder : Recorder
  roots : List Handle

namespace Collection

def empty (settings : Settings) : Collection := ⟨.empty settings, []⟩

def size (c : Collection) : Nat := c.roots.length

def observeDocument (c : Collection) (document : Json) : Except Misuse Collection := do
  let (recorder, h) ← c.recorder.addDocument document
  return ⟨recorder, c.roots ++ [h]⟩

/-- Observes a text as it is read. A text that is not JSON is no sample. -/
def observeText (c : Collection) (text : String) :
    Except Misuse (Collection × Except Json.ReadError Unit) := do
  let (recorder, result) ← c.recorder.addText text
  match result with
  | .ok h => return (⟨recorder, c.roots ++ [h]⟩, .ok ())
  | .error e => return ({ c with recorder }, .error e)

/-- Adds the type of all samples to a graph and publishes it under a name. What was added before a
failure stays in the graph. -/
def solve (c : Collection) (graph : Graph) (name : String) :
    Graph × Except SolveError NodeId :=
  if c.roots.isEmpty then (graph, .error (.noSamples name))
  else
    let (top, s) :=
      Inference.typeOf c.recorder.table c.roots (.givenName name) (Inference.start graph)
    match (Inference.resolvePending top).run s with
    | (.error e, s) => (s.graph, .error e)
    | (.ok (), s) =>
      match s.graph.publish? name top with
      | some graph => (graph, .ok top)
      | none => (s.graph, .error (.duplicateTopLevel name))

end Collection

end JsonTyping
