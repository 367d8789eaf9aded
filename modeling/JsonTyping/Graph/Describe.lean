import JsonTyping.Graph.Basic
import JsonTyping.Json.Printer

/-!
# Descriptions of types

`Graph.describe` shows the structure of a type as a JSON value without the numbers of nodes. Unions
inside of unions are flattened, a union or intersection of one arm is that arm, and a type met again
inside of itself is shown as a mark with its number.
-/

namespace JsonTyping

/-- Arms in the order of their texts, equal neighbours once. -/
def sortArms (arms : List Json) : List Json :=
  let keyed := arms.map fun v => (v.compact, v)
  let sorted := keyed.mergeSort fun a b => compare a.1 b.1 != .gt
  dedup (sorted.map (·.2))
where
  dedup : List Json → List Json
    | v :: w :: rest => if v.same w then dedup (v :: rest) else v :: dedup (w :: rest)
    | l => l
  termination_by l => l.length

/-- Several arms under a key, a single arm as it is. -/
def collapseArms (key : String) (arms : List Json) : Json :=
  match sortArms arms with
  | [only] => only
  | sorted => .object [(key, .array sorted)]

namespace Graph

def recursiveMark (t : NodeId) : Json := .object [("$recursive", .ofNat t)]

/-- Whether a member of a union is shown through its own members. -/
def isNested : Shape → Bool
  | .union (some _) => true
  | .intersection (some members) => members.size == 1
  | _ => false

mutual

/-- Describes a type inside of the types `stack`. `fuel` bounds the depth; the types of `stack` all
differ, so the number of nodes is enough. -/
def describeIn (g : Graph) : Nat → List NodeId → NodeId → Json
  | 0, _, t => recursiveMark t
  | fuel + 1, stack, t =>
    if stack.contains t then recursiveMark t
    else
      let stack := t :: stack
      let properties (p : SortedMap String Property) : Json :=
        .object (p.entries.foldl
          (fun members (name, property) =>
            Json.setMember (if property.optional then name ++ "?" else name)
              (describeIn g fuel stack property.type) members) [])
      match g.shape t with
      | .primitive kind => .string kind.name
      | .enumeration cases => .object [("enum", .ofStrings cases.toList)]
      | .array items => .object [("array", describeIn g fuel stack items)]
      | .record p => .object [("class", properties p)]
      | .object p additional =>
        .object [("object", properties p),
          ("additional", match additional with
            | some a => describeIn g fuel stack a
            | none => .null)]
      | .map values => .object [("map", describeIn g fuel stack values)]
      | .union none | .intersection none => .object [("pending", .ofNat t)]
      | .union (some members) => collapseArms "union" (flattenIn g fuel stack members.toList)
      | .intersection (some members) =>
        collapseArms "allOf" (members.toList.map (describeIn g fuel stack))

/-- Describes the members of a union inside of the types `stack`, nested unions by their members. -/
def flattenIn (g : Graph) : Nat → List NodeId → List NodeId → List Json
  | 0, _, members => members.map recursiveMark
  | fuel + 1, stack, members =>
    members.flatMap fun m =>
      if stack.contains m then [recursiveMark m]
      else if isNested (g.shape m) then
        flattenIn g fuel (m :: stack) ((g.shape m).members?.getD .empty).toList
      else [describeIn g (fuel + 1) stack m]

end

def describe (g : Graph) (t : NodeId) : Json := g.describeIn (2 * g.size + 2) [] t

end Graph

end JsonTyping
