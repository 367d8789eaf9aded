import JsonTyping.Graph.Basic
import JsonTyping.Samples.Evidence
import JsonTyping.Samples.ObjectEvidence

/-!
# Types from sampled values

`Inference.inferType` gives the type of all values sampled at one position (SPEC_FULL.md §4.2): it
unifies their evidence and goes on with the values inside of their objects and arrays. Objects that
are references become intersections without members, which are kept as pending until all types are
there.
-/

namespace JsonTyping

/-- A graph under construction, and the references still to be resolved: for each intersection
without members the targets of its references. -/
structure Inference where
  graph : Graph
  pending : SortedMap NodeId (SortedSet String)

namespace Inference

def start (graph : Graph) : Inference := ⟨graph, .empty⟩

def onGraph {α : Type} (f : Graph → Graph × α) : StateM Inference α :=
  modifyGet fun s =>
    let (graph, a) := f s.graph
    (a, { s with graph })

/-- The node of references with these targets. -/
def defer (targets : SortedSet String) (a : Attributes) : StateM Inference NodeId :=
  modifyGet fun s =>
    let (graph, t) := s.graph.fresh (.intersection none) a
    (t, ⟨graph, s.pending.insert t targets⟩)

def inferArray (table : Table) (infer : List Handle → Attributes → StateM Inference NodeId)
    (rows : List Nat) (a : Attributes) : StateM Inference NodeId := do
  let items ← infer (rows.flatMap table.items) .empty
  onGraph (·.share (.array items) a)

def inferObject (table : Table) (infer : List Handle → Attributes → StateM Inference NodeId)
    (rows : List Nat) (a : Attributes) : StateM Inference NodeId := do
  let evidence := ObjectEvidence.ofRows table rows
  let targets := if table.settings.handleRefs then evidence.targets? table else none
  match targets with
  | some targets => defer targets a
  | none =>
    if evidence.isMap table.settings then
      let values ← infer evidence.allValues .empty
      onGraph (·.share (.map values) a)
    else
      let properties ← evidence.keys.toList.mapM fun key => do
        let type ← infer (evidence.valuesOf key) (.inferredName key)
        return (key, Property.mk type (evidence.isOptional key))
      onGraph (·.share (.record (.ofList properties)) a)

/-- The type of several member types: the only one, or their union. The attributes are those of the
union, or of the only member if it is not primitive. Without members there is no value. -/
def joinTypes (types : SortedSet NodeId) (a : Attributes) : StateM Inference NodeId :=
  onGraph fun g =>
    match types.toList with
    | [] => g.share (.primitive .none) .empty
    | [only] => (if (g.primitive? only).isSome then g else g.addAttributes only a, only)
    | _ => g.share (.union (some types)) a

/-- The type of the values sampled at one position. `fuel` bounds how deep containers are nested;
where it is used up there is no value. -/
def inferType (table : Table) : Nat → List Handle → Attributes → StateM Inference NodeId
  | 0, _, _ => onGraph (·.share (.primitive .none) .empty)
  | fuel + 1, values, a => do
    let unified := (Evidence.ofValues table values).unify table.settings
    let primitives ← unified.primitives.toList.mapM fun p =>
      onGraph (·.share (.primitive p) ((unified.traits.find? p).getD .empty))
    let enumerations ← unified.cases.toList.mapM fun cases =>
      onGraph (·.share (.enumeration cases) .empty)
    let objects ←
      if unified.objects.isEmpty then pure []
      else (fun t => [t]) <$> inferObject table (inferType table fuel) unified.objects .empty
    let arrays ←
      if unified.arrays.isEmpty then pure []
      else (fun t => [t]) <$> inferArray table (inferType table fuel) unified.arrays .empty
    joinTypes (.ofList (primitives ++ enumerations ++ objects ++ arrays)) a

/-- The type of the values sampled at one position. A container holds only containers with earlier
rows, so there are no more levels than rows. -/
def typeOf (table : Table) (values : List Handle) (a : Attributes) : StateM Inference NodeId :=
  inferType table (table.objects.size + table.arrays.size + 1) values a

end Inference

end JsonTyping
