import JsonTyping.Json.Trail
import JsonTyping.Schema.Conversion

/-!
# Batches of schemas

Sources of schemas are collected in a `Batch` (`Batch.addSource`) and converted together
(`Batch.convert`). Each top-level reference is converted on its own: one that fails does not stop
the others, unless the failure is fatal. See SPEC_FULL.md §C.6.
-/

namespace JsonTyping

/-- A source of schemas: a document given as text, references, or both. -/
structure Source where
  name : Option String
  uris : List String
  /-- The text of the document at the address of the first reference, or under the name. -/
  schema : Option String

inductive BatchError where
  | schema (error : SchemaError)
  | duplicateTopLevel (name : String)
  deriving DecidableEq, Repr

def BatchError.message : BatchError → String
  | schema error => error.message
  | duplicateTopLevel name => duplicateTopLevelMessage name

structure Report where
  converted : List (String × NodeId)
  failed : List (String × BatchError)

namespace Report

def empty : Report := ⟨[], []⟩

def isSuccess (r : Report) : Bool := r.failed.isEmpty

end Report

structure Batch where
  library : Library
  annotators : List Annotator
  types : List (Reference × NodeId)
  pending : List (String × Reference)

namespace Batch

def ofStore (store : Option Store) : Batch := ⟨.ofStore store, Annotator.builtin, [], []⟩

def urisOf (s : Source) : Option (List String) :=
  match s.uris, s.name with
  | [], some name => some [name ++ "#/"]
  | [], none => none
  | uris, _ => some uris

def documentOf (first text : String) : Except String (String × Json) := do
  let document ← (Json.readPlaced text).mapError Json.PlacedError.message
  match (Reference.parse first).address with
  | some address => return (address, document)
  | none => throw ("`" ++ first ++ "` has no address to store the schema under")

/-- Adds references, each seen from the root of the document of the source if it has one. References
before one whose name is taken stay added. -/
def addUris (name : Option String) (root : Option Reference) (b : Batch) :
    List String → Batch × Except String Unit
  | [] => (b, .ok ())
  | uri :: rest =>
    let r := match root with
      | some root => (Reference.parse uri).resolveAgainst root
      | none => .parse uri
    let top := name.getD r.name
    if b.pending.any (·.1 == top) then (b, .error ("top-level `" ++ top ++ "` is defined twice"))
    else addUris name root { b with pending := b.pending ++ [(top, r)] } rest

/-- Adds a source. A document given as text is served by the library, also when a reference is
refused afterwards. -/
def addSource (b : Batch) (s : Source) : Batch × Except SchemaError Unit :=
  let label := (s.name.or s.uris.head?).getD ""
  let labelled (result : Batch × Except String Unit) : Batch × Except SchemaError Unit :=
    (result.1, result.2.mapError (.invalidSource label))
  match urisOf s with
  | none => labelled (b, .error "a source needs a name or at least one URI")
  | some uris =>
    let name := if uris.length = 1 then s.name else none
    match s.schema with
    | none => labelled (addUris name none b uris)
    | some text =>
      match documentOf (uris.headD "") text with
      | .error message => labelled (b, .error message)
      | .ok (address, document) =>
        let b := { b with library := b.library.addDocument address document }
        labelled (addUris name (some (.root (some address))) b uris)

/-- Converts references in turn. A fatal failure ends the batch with what was registered so far; any
other one has everything that it registered forgotten. -/
def convertAll (b : Batch) (graph : Graph) (report : Report) :
    List (String × Reference) → Batch × Graph × Except Halt Report
  | [] => (b, graph, .ok report)
  | (name, r) :: rest =>
    let (result, s) :=
      (Conversion.convertTopLevel b.annotators name r).run ⟨b.library, graph, b.types, []⟩
    match result with
    | .ok t =>
      let b := { b with library := s.library, types := s.types }
      match s.graph.publish? name t with
      | some graph =>
        convertAll b graph { report with converted := report.converted ++ [(name, t)] } rest
      | none =>
        let failure := (name, BatchError.duplicateTopLevel name)
        convertAll b s.graph { report with failed := report.failed ++ [failure] } rest
    | .error cause =>
      match cause with
      | .schema error =>
        if error.isFatal then
          ({ b with library := s.library, types := s.types }, s.graph, .error cause)
        else
          let b := { b with library := s.library, types := s.rolledBack }
          let failure := (name, BatchError.schema error)
          convertAll b s.graph { report with failed := report.failed ++ [failure] } rest
      | _ => ({ b with library := s.library, types := s.types }, s.graph, .error cause)

def convert (b : Batch) (graph : Graph) : Batch × Graph × Except Halt Report :=
  convertAll { b with pending := [] } graph .empty b.pending

end Batch

end JsonTyping
