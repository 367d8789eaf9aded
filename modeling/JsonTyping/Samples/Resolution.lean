import JsonTyping.Json.Pointer
import JsonTyping.Samples.Inference

/-!
# Resolving references in samples

A reference in a sample names a part of the whole sampled type by a path of keys and indices. When
all types are there, `Inference.resolvePending` gives every pending intersection the types that its
references lead to (SPEC_FULL.md §C.5). A path that goes through another pending intersection has
that one resolved first.
-/

namespace JsonTyping

inductive PathProblem where
  | notRooted
  | intoUnion
  | missingProperty (property : String)
  | badIndex (segment : String)
  | cycle
  | intoNonComposite (kind : String)
  deriving DecidableEq, Repr

inductive SolveError where
  | noSamples (name : String)
  | badReference (reference : String) (problem : PathProblem)
  | duplicateTopLevel (name : String)
  | misuse (cause : Misuse)
  deriving DecidableEq, Repr

def PathProblem.message (reference : String) : PathProblem → String
  | notRooted => "reference `" ++ reference ++ "` is not rooted at `#/`"
  | intoUnion => "reference `" ++ reference ++ "` goes through a union that is not nullable"
  | missingProperty property =>
    "reference `" ++ reference ++ "`: property `" ++ property ++ "` does not exist"
  | badIndex segment =>
    "reference `" ++ reference ++ "`: `" ++ segment ++ "` is not an array index"
  | cycle => "reference `" ++ reference ++ "` walks through itself"
  | intoNonComposite kind =>
    "reference `" ++ reference ++ "` goes into a non-composite " ++ kind ++ " type"

def SolveError.message : SolveError → String
  | noSamples name => "no samples given for `" ++ name ++ "`"
  | badReference reference problem => problem.message reference
  | duplicateTopLevel name => duplicateTopLevelMessage name
  | misuse cause => cause.message

namespace Inference

/-- Steps that resolve references; what they did before a failure stays done. -/
abbrev ResolveM := ExceptT SolveError (StateM Inference)

def refuse {α : Type} (reference : String) (problem : PathProblem) : ResolveM α :=
  throw (.badReference reference problem)

/-- The type one segment below a type. -/
def step (graph : Graph) (t : NodeId) (segment : String) : Except PathProblem NodeId :=
  match graph.shape t with
  | .record properties | .object properties _ =>
    match properties.find? segment with
    | some property => .ok property.type
    | none => .error (.missingProperty segment)
  | .map values => .ok values
  | .array items =>
    if segment.isEmpty ∨ !segment.toList.all Text.isAsciiDigit then .error (.badIndex segment)
    else .ok items
  | other => .error (.intoNonComposite other.name)

/-- The type behind nullable unions and intersections of one member. A pending intersection on the
way is filled first; one that is just being filled is a cycle. `seen` lists the types passed; `fuel`
bounds how many there can be. -/
def seeThrough (fill : NodeId → ResolveM Unit) (reference : String) :
    Nat → List NodeId → NodeId → ResolveM NodeId
  | 0, _, t => pure t
  | fuel + 1, seen, t => do
    if (← get).graph.shape t = .intersection none then
      unless (← get).pending.contains t do refuse reference .cycle
      fill t
    if seen.contains t then return t
    let graph := (← get).graph
    match graph.shape t with
    | .union _ =>
      match graph.nullableInner? t with
      | some inner => seeThrough fill reference fuel (t :: seen) inner
      | none => refuse reference .intoUnion
    | .intersection (some members) =>
      match members.toList with
      | [only] => seeThrough fill reference fuel (t :: seen) only
      | _ => return t
    | _ => return t

/-- The segments of a reference: what follows `#/`, cut at slashes, with escapes undone. The bare
`#/` has none. -/
def segments? (reference : String) : Option (List String) :=
  match reference.toList with
  | '#' :: '/' :: [] => some []
  | '#' :: '/' :: rest => some (Pointer.keys rest)
  | _ => none

def descend (fill : NodeId → ResolveM Unit) (reference : String) :
    NodeId → List String → ResolveM NodeId
  | t, [] => pure t
  | t, segment :: rest => do
    let container ← seeThrough fill reference ((← get).graph.size + 1) [] t
    match step (← get).graph container segment with
    | .ok next => descend fill reference next rest
    | .error problem => refuse reference problem

def follow (fill : NodeId → ResolveM Unit) (top : NodeId) (reference : String) : ResolveM NodeId :=
  match segments? reference with
  | some segments => descend fill reference top segments
  | none => refuse reference .notRooted

/-- Gives a pending intersection its members, unless it has been done. `fuel` bounds how many are
pending. -/
def fill (top : NodeId) : Nat → NodeId → ResolveM Unit
  | 0, _ => pure ()
  | fuel + 1, t => do
    match (← get).pending.find? t with
    | none => pure ()
    | some targets =>
      modify fun s => { s with pending := s.pending.erase t }
      let members ← targets.toList.mapM (follow (fill top fuel) top)
      match (← get).graph.setMembers t (.ofList members) with
      | .ok graph => modify fun s => { s with graph }
      | .error cause => throw (.misuse cause)

def resolvePending (top : NodeId) : ResolveM Unit := do
  let waiting := (← get).pending.keys
  waiting.forM (fill top waiting.length)

end Inference

end JsonTyping
