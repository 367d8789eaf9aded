import JsonTyping.Graph.Describe

/-!
# Graphs as JSON

`Graph.dump` writes a whole graph: the published names, what they stand for (`Graph.describe`), and
every node with its attributes.
-/

namespace JsonTyping

def jsonOfTexts (s : SortedSet String) : Json := .ofStrings s.toList

def jsonOfOption {α : Type} (f : α → Json) : Option α → Json
  | some a => f a
  | none => .null

def Bounds.toJson {α : Type} (lowKey highKey : String) (f : α → Json) (b : Bounds α) : Json :=
  .object [(lowKey, jsonOfOption f b.low), (highKey, jsonOfOption f b.high)]

def Names.toJson (n : Names) : Json :=
  .object ((if n.given.isEmpty then [] else [("given", jsonOfTexts n.given)])
    ++ if n.inferred.isEmpty then [] else [("inferred", jsonOfTexts n.inferred)])

/-- What is known, member by member; what is not known has no member. -/
def Attributes.toJson (a : Attributes) : Json :=
  let known {α : Type} (key : String) (f : α → Json) : Option α → List (String × Json)
    | some v => [(key, f v)]
    | none => []
  .object ((if a.names.isEmpty then [] else [("names", a.names.toJson)])
    ++ known "description" .string a.description.toOption
    ++ known "min_max" (Bounds.toJson "minimum" "maximum" (.number ∘ .double)) a.range
    ++ known "length" (Bounds.toJson "min_length" "max_length" .ofNat) a.length
    ++ known "pattern" .string a.pattern.toOption
    ++ known "uri"
        (fun u => .object
          [("schemes", jsonOfTexts u.schemes), ("extensions", jsonOfTexts u.extensions)])
        a.uri
    ++ known "date_time" (fun always => .object [("always_offset", .bool always)]) a.alwaysOffset)

def jsonOfProperties (properties : SortedMap String Property) : Json :=
  .object <| properties.entries.map fun (name, property) =>
    (name, .object [("type", .ofNat property.type), ("optional", .bool property.optional)])

def jsonOfMembers (members : Option (SortedSet NodeId)) : Json :=
  jsonOfOption (fun m => .array (m.toList.map .ofNat)) members

def Shape.toMembers : Shape → List (String × Json)
  | .primitive kind => [("kind", .string "primitive"), ("primitive", .string kind.name)]
  | .enumeration cases => [("kind", .string "enum"), ("cases", jsonOfTexts cases)]
  | .array items => [("kind", .string "array"), ("items", .ofNat items)]
  | .record properties => [("kind", .string "class"), ("properties", jsonOfProperties properties)]
  | .object properties additional =>
    [("kind", .string "object"), ("properties", jsonOfProperties properties),
      ("additional", jsonOfOption .ofNat additional)]
  | .map values => [("kind", .string "map"), ("values", .ofNat values)]
  | .union members => [("kind", .string "union"), ("members", jsonOfMembers members)]
  | .intersection members => [("kind", .string "intersection"), ("members", jsonOfMembers members)]

def Node.toJson (t : NodeId) (node : Node) : Json :=
  .object (node.shape.toMembers ++ [("id", .ofNat t)]
    ++ if node.attributes.isEmpty then [] else [("attributes", node.attributes.toJson)])

namespace Graph

def dumpNodes (g : Graph) : Json :=
  .array (g.nodes.toList.zipIdx.map fun (node, t) => node.toJson t)

def dump (g : Graph) : Json :=
  .object [("topLevels", .object (g.topLevels.map fun (name, t) => (name, .ofNat t))),
    ("described", .object (g.topLevels.map fun (name, t) => (name, g.describe t))),
    ("types", g.dumpNodes)]

end Graph

end JsonTyping
