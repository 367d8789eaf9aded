import JsonTyping.Samples.Table
import JsonTyping.Sorted.Map

/-!
# Evidence for the type of a position

The values sampled at one position are gathered as `Evidence`: sets and counts, so their order does
not matter. `Evidence.unify` says which types they have together. Objects and arrays are kept to be
unified in their turn. This is the union accumulator of SPEC_FULL.md §4.2.
-/

namespace JsonTyping

/-- What the values at one position have shown. -/
structure Evidence where
  null : Bool
  bool : Bool
  integer : Bool
  double : Bool
  /-- The texts without format. -/
  literals : SortedSet String
  /-- How many texts without format were kept. -/
  literalCount : Nat
  /-- Whether there was a text that was not kept. -/
  unrestricted : Bool
  /-- The formats of the other texts, with the attributes of those texts. -/
  formats : SortedMap Format Attributes
  objects : List Nat
  arrays : List Nat

structure Unified where
  primitives : SortedSet Primitive
  traits : SortedMap Primitive Attributes
  cases : Option (SortedSet String)
  objects : List Nat
  arrays : List Nat

def Unified.isEmpty (u : Unified) : Bool :=
  u.primitives.isEmpty && u.cases.isNone && u.objects.isEmpty && u.arrays.isEmpty

namespace Evidence

def empty : Evidence :=
  ⟨false, false, false, false, .empty, 0, false, .empty, [], []⟩

def addFormat (e : Evidence) (f : Format) (a : Attributes) : Evidence :=
  { e with formats := e.formats.alter f fun known => (known.getD .empty).combine a }

def add (table : Table) (e : Evidence) : Handle → Evidence
  | .null => { e with null := true }
  | .bool _ => { e with bool := true }
  | .integer => { e with integer := true }
  | .double => { e with double := true }
  | .text i =>
    { e with
      literals := e.literals.insert (table.string i)
      literalCount := e.literalCount + 1 }
  | .dropped => { e with unrestricted := true }
  | .format i =>
    match table.format? (.format i) with
    | some f => e.addFormat f .empty
    | none => { e with unrestricted := true }
  | .traits i =>
    match table.format? (.traits i) with
    | some f => e.addFormat f (f.traits (table.string i))
    | none => { e with unrestricted := true }
  | .object row => { e with objects := e.objects ++ [row] }
  | .array row => { e with arrays := e.arrays ++ [row] }

def ofValues (table : Table) (values : List Handle) : Evidence := values.foldl (add table) empty

/-- Few texts that are met again and again are the cases of an enumeration: fewer than the square
root of how many were seen. -/
def isEnumeration (settings : Settings) (cases samples : Nat) : Bool :=
  settings.inferEnums && decide (settings.minEnumSamples ≤ samples)
    && decide (cases * cases < samples)

/-- The types of the texts: the primitive type, its attributes, and the cases of an enumeration. A
single format counts if every text has it; otherwise formats are no more than strings. -/
def texts (settings : Settings) (e : Evidence) :
    Option Primitive × Attributes × Option (SortedSet String) :=
  match e.formats.entries with
  | [(f, a)] =>
    if e.literalCount = 0 ∧ !e.unrestricted then (some f.primitive, a, none)
    else (some .string, .empty, none)
  | _ :: _ => (some .string, .empty, none)
  | [] =>
    if e.unrestricted then (some .string, .empty, none)
    else if e.literalCount = 0 then (none, .empty, none)
    else if isEnumeration settings e.literals.size e.literalCount then
      (none, .empty, some e.literals)
    else (some .string, .empty, none)

/-- The types that the evidence shows. A position with a double has no integers of its own. -/
def unify (settings : Settings) (e : Evidence) : Unified :=
  let (text, traits, cases) := e.texts settings
  let primitives : List Primitive :=
    (if e.null then [.null] else []) ++ (if e.bool then [.bool] else [])
      ++ (if e.double then [.double] else if e.integer then [.integer] else []) ++ text.toList
  { primitives := .ofList primitives
    traits := match text with
      | some p => if traits.isEmpty then .empty else SortedMap.empty.insert p traits
      | none => .empty
    cases
    objects := e.objects
    arrays := e.arrays }

end Evidence

end JsonTyping
