import JsonTyping.Graph.Attributes
import JsonTyping.Graph.Primitive
import JsonTyping.Misuse
import JsonTyping.Sorted.Map

/-!
# Type graphs

Types form a graph: a node has a shape, which names other nodes, and attributes. Most types are
*shared*: asking for a shape again gives the same node (`Graph.share`). A *fresh* node is never
given to anybody else. The members of a fresh union or intersection can be set later
(`Graph.setMembers`), which is how cycles are closed. See SPEC_FULL.md §C.1.
-/

namespace JsonTyping

/-- A property of a record or object: its type, and whether it may be absent. -/
structure Property where
  type : NodeId
  optional : Bool
  deriving DecidableEq, Repr, Inhabited

inductive Shape where
  | primitive (kind : Primitive)
  | enumeration (cases : SortedSet String)
  | array (items : NodeId)
  /-- An object with these properties and no others. -/
  | record (properties : SortedMap String Property)
  /-- An object with these properties, and others of the additional type if there is one. -/
  | object (properties : SortedMap String Property) (additional : Option NodeId)
  | map (values : NodeId)
  /-- A value of some member; without members as long as they are not known. -/
  | union (members : Option (SortedSet NodeId))
  /-- A value of all members; without members as long as they are not known. -/
  | intersection (members : Option (SortedSet NodeId))
  deriving DecidableEq

namespace Shape

instance : Inhabited Shape := ⟨.primitive .none⟩

def name : Shape → String
  | primitive kind => kind.name
  | enumeration _ => "enum"
  | array _ => "array"
  | record _ => "class"
  | object .. => "object"
  | map _ => "map"
  | union _ => "union"
  | intersection _ => "intersection"

def members? : Shape → Option (SortedSet NodeId)
  | union members => members
  | intersection members => members
  | _ => none

def primitive? : Shape → Option Primitive
  | primitive kind => some kind
  | _ => none

end Shape

structure Node where
  shape : Shape
  attributes : Attributes
  /-- Whether asking for the shape gives this node. -/
  shared : Bool
  deriving DecidableEq, Inhabited

/-- Types and the names under which they are published, in the order of publication. -/
structure Graph where
  nodes : Array Node
  topLevels : List (String × NodeId)
  deriving DecidableEq

namespace Graph

def empty : Graph := ⟨#[], []⟩

instance : Inhabited Graph := ⟨empty⟩

def size (g : Graph) : Nat := g.nodes.size

/-- The shape of a node; a number without a node has the type without values. -/
def shape (g : Graph) (t : NodeId) : Shape :=
  match g.nodes[t]? with
  | some node => node.shape
  | none => .primitive .none

def attributes (g : Graph) (t : NodeId) : Attributes :=
  match g.nodes[t]? with
  | some node => node.attributes
  | none => .empty

def topLevel? (g : Graph) (name : String) : Option NodeId := g.topLevels.lookup name

def primitive? (g : Graph) (t : NodeId) : Option Primitive := (g.shape t).primitive?

/-- Of a union of `null` and exactly one other member, that member. -/
def nullableInner? (g : Graph) (t : NodeId) : Option NodeId :=
  match g.shape t with
  | .union (some members) =>
    match members.toList, members.toList.filter fun m => g.primitive? m != some .null with
    | [_, _], [inner] => some inner
    | _, _ => none
  | _ => none

def shared? (g : Graph) (s : Shape) : Option NodeId :=
  g.nodes.findIdx? fun node => node.shared && node.shape == s

def addAttributes (g : Graph) (t : NodeId) (a : Attributes) : Graph :=
  if a.isEmpty then g
  else
    { g with
      nodes := g.nodes.modify t fun node => { node with attributes := node.attributes.combine a } }

def fresh (g : Graph) (s : Shape) (a : Attributes) : Graph × NodeId :=
  ({ g with nodes := g.nodes.push ⟨s, a, false⟩ }, g.size)

/-- The shared node of a shape, with the attributes added to it. -/
def share (g : Graph) (s : Shape) (a : Attributes) : Graph × NodeId :=
  match g.shared? s with
  | some t => (g.addAttributes t a, t)
  | none => ({ g with nodes := g.nodes.push ⟨s, a, true⟩ }, g.size)

/-- A union: of one member that member itself, and of several the shared node. -/
def union (g : Graph) (members : SortedSet NodeId) (a : Attributes) :
    Except Misuse (Graph × NodeId) :=
  match members.toList with
  | [] => .error .unionWithoutMembers
  | [only] => .ok (g.addAttributes only a, only)
  | _ => .ok (g.share (.union (some members)) a)

/-- Sets the members of a union or intersection that has none yet. -/
def setMembers (g : Graph) (t : NodeId) (members : SortedSet NodeId) : Except Misuse Graph :=
  let install (s : Shape) : Graph :=
    { g with nodes := g.nodes.modify t fun node => { node with shape := s } }
  match g.shape t with
  | .union none => .ok (install (.union (some members)))
  | .intersection none => .ok (install (.intersection (some members)))
  | .union (some _) | .intersection (some _) => .error (.membersAlreadySet t)
  | other => .error (.notASetOperation t other.name)

def publish? (g : Graph) (name : String) (t : NodeId) : Option Graph :=
  if (g.topLevel? name).isSome then none
  else some { g with topLevels := g.topLevels ++ [(name, t)] }

end Graph

def duplicateTopLevelMessage (name : String) : String :=
  "top-level `" ++ name ++ "` is already defined"

end JsonTyping
