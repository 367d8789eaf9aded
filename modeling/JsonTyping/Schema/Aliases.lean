import JsonTyping.Schema.Place

/-!
# Aliases by `$id`

`Aliases` records, for every place of the scanned documents that an id gives another spelling, which
place it is. `Aliases.locate` turns a reference into the place it names. This is the canonizer of
SPEC_FULL.md §4.3.
-/

namespace JsonTyping

/-- The places known by virtual reference, latest entry first, and the addresses of the documents
that were scanned for them. -/
structure Aliases where
  entries : List (Reference × Place)
  scanned : List String

namespace Aliases

def empty : Aliases := ⟨[], []⟩

mutual

def scan (place : Place) (entries : List (Reference × Place)) : Json → List (Reference × Place)
  | .array items => scanItems place 0 entries items
  | .object members =>
    let here := match members.lookup "$id" with
      | some id => place.withId id
      | none => place
    scanMembers here (if here.underId then (here.virtual, place) :: entries else entries) members
  | _ => entries

def scanItems (place : Place) (index : Nat) (entries : List (Reference × Place)) :
    List Json → List (Reference × Place)
  | [] => entries
  | v :: rest =>
    scanItems place (index + 1) (scan (place.push (toString index)) entries v) rest

def scanMembers (place : Place) (entries : List (Reference × Place)) :
    List (String × Json) → List (Reference × Place)
  | [] => entries
  | (k, v) :: rest => scanMembers place (scan (place.push k) entries v) rest

end

def add (a : Aliases) (document : Json) (address : String) : Aliases :=
  if a.scanned.contains address then a
  else
    { entries := scan (.ofReference (.root (some address))) a.entries document
      scanned := address :: a.scanned }

/-- The place that a reference names when seen from `base`. Without an entry it is the path of the
reference in the document at its address, or in that of `base`. -/
def locate (a : Aliases) (base : Place) (r : Reference) : Place :=
  let virtual := r.resolveAgainst base.virtual
  match a.entries.lookup virtual with
  | some place => place
  | none => ⟨virtual.withAddress (virtual.address.or base.canonical.address), virtual, false⟩

end Aliases

end JsonTyping
