import JsonTyping.Samples.Table

/-!
# Evidence from objects

The objects sampled at one position are looked at together: which keys occur, with which values, and
in how many of the objects.
-/

namespace JsonTyping

structure ObjectEvidence where
  instances : List (List (String × Handle))

namespace ObjectEvidence

def ofRows (table : Table) (rows : List Nat) : ObjectEvidence := ⟨rows.map table.members⟩

def size (e : ObjectEvidence) : Nat := e.instances.length

def keys (e : ObjectEvidence) : SortedSet String :=
  .ofList (e.instances.flatMap fun members => members.map (·.1))

def valuesOf (e : ObjectEvidence) (key : String) : List Handle :=
  e.instances.flatMap fun members =>
    members.filterMap fun (k, v) => if k = key then some v else none

def presentIn (e : ObjectEvidence) (key : String) : Nat :=
  e.instances.countP fun members => members.any fun m => m.1 == key

def isOptional (e : ObjectEvidence) (key : String) : Bool := decide (e.presentIn key < e.size)

def isMap (settings : Settings) (e : ObjectEvidence) : Bool :=
  settings.inferMaps && decide (settings.mapThreshold < e.keys.size)

def allValues (e : ObjectEvidence) : List Handle := e.keys.toList.flatMap e.valuesOf

/-- The target of an object that is a reference: its only member is `$ref`, with a text. -/
def target? (table : Table) : List (String × Handle) → Option String
  | [("$ref", .text i)] => some (table.string i)
  | _ => none

/-- The targets, if all objects are references. -/
def targets? (table : Table) (e : ObjectEvidence) : Option (SortedSet String) :=
  if e.instances.isEmpty then none
  else (e.instances.mapM (target? table)).map .ofList

end ObjectEvidence

end JsonTyping
