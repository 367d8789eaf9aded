import JsonTyping.Schema.Aliases
import JsonTyping.Schema.Problem
import JsonTyping.Schema.Store

/-!
# Libraries of schema documents

A `Library` gets documents from a store when they are needed and finds the place that a reference
names. What was once answered for an address, be it that there is no document, is the answer for
good. This is the resolver of SPEC_FULL.md §4.4.
-/

namespace JsonTyping

structure Library where
  aliases : Aliases
  /-- The answers by address, latest first: a document, or that there is none. -/
  answers : List (String × Option Json)
  store : Option Store
  /-- The addresses that the store was asked for, latest first. -/
  asked : List String

structure Resolved where
  document : Json
  place : Place

namespace Library

def ofStore (store : Option Store) : Library := ⟨.empty, [], store, []⟩

def addDocument (lib : Library) (address : String) (document : Json) : Library :=
  { lib with answers := (Address.normalize address, some document) :: lib.answers }

/-- Steps that use a library; what they did before a failure stays done. -/
abbrev LibraryM := ExceptT Halt (StateM Library)

def fetch (address : String) : LibraryM (Option Json) := do
  let lib ← get
  match lib.answers.lookup address with
  | some answer => return answer
  | none =>
    match lib.store with
    | none => throw (.schema (.noSchemaStore address))
    | some store =>
      let answer := store.fetch? address
      set { lib with answers := (address, answer) :: lib.answers, asked := address :: lib.asked }
      return answer

def valueAt (document : Json) (place : Reference) : Except Halt Json :=
  match place.lookup document with
  | .ok v => .ok v
  | .error cause => .error (.ofLookup place cause)

/-- The place that a reference names: its document is the one at the address seen from `fetchBase`,
and its path is the one seen from `lookupBase`. When the document was not scanned for ids before,
the reference may mean something else now, so the search begins again; `rounds` bounds how often. -/
def search (fetchBase lookupBase : Place) (r : Reference) : Nat → LibraryM (Option Resolved)
  | 0 => return none
  | rounds + 1 => do
    let seen := (← get).aliases.locate fetchBase r
    match seen.canonical.address with
    | none => throw (.schema (.noAddress r))
    | some address =>
      match ← fetch address with
      | none => return none
      | some document =>
        if (← get).aliases.scanned.contains address then
          let found := (← get).aliases.locate lookupBase r
          let place := { found with canonical := found.canonical.withAddress (some address) }
          let _ ← valueAt document place.canonical
          return some ⟨document, place⟩
        else
          modify fun lib => { lib with aliases := lib.aliases.add document address }
          search fetchBase lookupBase r rounds

/-- The base from which a reference is tried next: the virtual path at the canonical address. -/
def alternateBase (base : Place) : Place :=
  { base with virtual := base.virtual.withAddress base.canonical.address }

/-- The place that a reference names when seen from `base`. A document is scanned at most once, so
two rounds are enough. -/
def resolve (base : Place) (r : Reference) : LibraryM Resolved := do
  match ← search base base r 2 with
  | some found => return found
  | none =>
    match ← search (alternateBase base) base r 2 with
    | some found => return found
    | none => throw (.schema (.refNotFound base.virtual r))

def resolveTopLevel (r : Reference) : LibraryM Resolved := resolve .empty r

end Library

def Resolved.value (found : Resolved) : Except Halt Json :=
  Library.valueAt found.document found.place.canonical

end JsonTyping
