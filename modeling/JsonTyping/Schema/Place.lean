import JsonTyping.Schema.Reference

/-!
# Places in schemas

An `$id` gives the part of a document below it another address. A `Place` therefore has two
references: the canonical one, into the document as it is stored, and the virtual one, as spelled
through the ids on the way. It is the location of SPEC_FULL.md §3.
-/

namespace JsonTyping

/-- A place in a schema document. -/
structure Place where
  canonical : Reference
  virtual : Reference
  /-- Whether an id stands at the place or above it. -/
  underId : Bool
  deriving DecidableEq, Repr, Inhabited

namespace Place

def ofReference (r : Reference) : Place := ⟨r, r, false⟩

/-- No document and no path, from where top-level references are seen. -/
def empty : Place := ofReference ⟨none, []⟩

def pushStep (p : Place) (step : Step) : Place :=
  { p with canonical := p.canonical.pushStep step, virtual := p.virtual.pushStep step }

def push (p : Place) (key : String) : Place := p.pushStep (.key key)

/-- The place with the id that stands at it; an id that is no string does not count. -/
def withId (p : Place) : Json → Place
  | .string id =>
    { p with virtual := (Reference.parse id).resolveAgainst p.virtual, underId := true }
  | _ => p

end Place

end JsonTyping
