import JsonTyping.Double.Basic
import JsonTyping.Sorted.Set

/-!
# Attributes of types

Attributes are what is known about a type besides its structure: names, a description, bounds, and
what its strings look like. Two records of attributes are combined (`Attributes.combine`) so that
the result holds for whatever either of them was noted for: sets of names grow, ranges widen, and
texts that disagree are dropped for good. See SPEC_FULL.md §C.2.
-/

namespace JsonTyping

/-- Names of a type: given ones, from users and titles, and inferred ones, from keys. -/
structure Names where
  given : SortedSet String
  inferred : SortedSet String
  deriving DecidableEq

namespace Names

def empty : Names := ⟨.empty, .empty⟩

instance : Inhabited Names := ⟨empty⟩

def isEmpty (n : Names) : Bool := n.given.isEmpty && n.inferred.isEmpty

def preferred (n : Names) : Option String := n.given.toList.head?.or n.inferred.toList.head?

def union (m n : Names) : Names := ⟨m.given.union n.given, m.inferred.union n.inferred⟩

def demote (n : Names) : Names := ⟨.empty, n.inferred.union n.given⟩

end Names

/-- A text on which all contributions agree; once two differ there is none. -/
inductive Note where
  | unset
  | text (value : String)
  | conflict
  deriving DecidableEq, Repr, Inhabited

namespace Note

def join : Note → Note → Note
  | unset, n => n
  | n, unset => n
  | text a, text b => if a = b then text a else conflict
  | _, _ => conflict

def toOption : Note → Option String
  | text s => some s
  | _ => none

def isConflict : Note → Bool
  | conflict => true
  | _ => false

def ofOption : Option String → Note
  | some s => text s
  | none => unset

end Note

/-- A range whose missing ends are open. -/
structure Bounds (α : Type) where
  low : Option α
  high : Option α
  deriving DecidableEq, Repr, Inhabited

namespace Bounds

/-- The least range that holds both; an end that is open on one side stays open. -/
def widen {α : Type} (min max : α → α → α) (a b : Bounds α) : Bounds α where
  low := match a.low, b.low with
    | some x, some y => some (min x y)
    | _, _ => none
  high := match a.high, b.high with
    | some x, some y => some (max x y)
    | _, _ => none

end Bounds

structure UriTraits where
  schemes : SortedSet String
  extensions : SortedSet String
  deriving DecidableEq

def UriTraits.union (a b : UriTraits) : UriTraits :=
  ⟨a.schemes.union b.schemes, a.extensions.union b.extensions⟩

/-- Combines two records that may be absent; an absent one adds nothing. -/
def joinOption {α : Type} (f : α → α → α) : Option α → Option α → Option α
  | some a, some b => some (f a b)
  | a, b => a.or b

structure Attributes where
  names : Names
  description : Note
  range : Option (Bounds Double)
  length : Option (Bounds Nat)
  pattern : Note
  uri : Option UriTraits
  /-- For dates with time and for times: whether each came with an offset from UTC. -/
  alwaysOffset : Option Bool
  deriving DecidableEq

namespace Attributes

def empty : Attributes := ⟨.empty, .unset, none, none, .unset, none, none⟩

instance : Inhabited Attributes := ⟨empty⟩

/-- Whether nothing is known. A text dropped in a conflict is something. -/
def isEmpty (a : Attributes) : Bool := decide (a = empty)

def givenName (s : String) : Attributes := { empty with names := ⟨.singleton s, .empty⟩ }

def inferredName (s : String) : Attributes := { empty with names := ⟨.empty, .singleton s⟩ }

def described (s : String) : Attributes := { empty with description := .text s }

def onlyNames (n : Names) : Attributes := { empty with names := n }

def makeInferred (a : Attributes) : Attributes := { a with names := a.names.demote }

def combine (a b : Attributes) : Attributes where
  names := a.names.union b.names
  description := a.description.join b.description
  range := joinOption (Bounds.widen Double.min Double.max) a.range b.range
  length := joinOption (Bounds.widen min max) a.length b.length
  pattern := a.pattern.join b.pattern
  uri := joinOption UriTraits.union a.uri b.uri
  alwaysOffset := joinOption and a.alwaysOffset b.alwaysOffset

end Attributes

end JsonTyping
