import JsonTyping.Json.Pointer
import JsonTyping.Schema.Address

/-!
# References

A `Reference` names a place in a document: the address of the document, if it is known, and a path
of steps. It is written as address, `#` and steps, with `~` and `/` inside of a key written as `~0`
and `~1`. See SPEC_FULL.md §4.3.
-/

namespace JsonTyping

/-- One step of a path. -/
inductive Step where
  /-- To the root of the document; only ever the first step. -/
  | root
  | key (name : String)
  /-- To one of the types of a list of types. -/
  | type (index : Nat)
  /-- To the object among several types. -/
  | object
  deriving DecidableEq, Repr, Inhabited

/-- A place in a document. -/
structure Reference where
  address : Option String
  path : List Step
  deriving DecidableEq, Repr, Inhabited

inductive LookupError where
  | missingKey (key : String)
  | indexNotNumeric (index : String)
  | indexOutOfRange (index length : Nat)
  | notAContainer (key kind : String)
  /-- The path has a step that no document has. -/
  | syntheticStep
  deriving DecidableEq, Repr

namespace Reference

/-- The place `path` of the document at `address`; an empty address is none. -/
def ofParts (address : Option String) (path : List Step) : Reference :=
  ⟨address.filter (!·.isEmpty), path⟩

def root (address : Option String) : Reference := ofParts address [.root]

def pathOfChars (fragment : List Char) : List Step :=
  let steps (rest : List Char) : List Step :=
    if rest.isEmpty then []
    else (Pointer.keys rest).map .key
  match fragment with
  | '/' :: rest => .root :: steps rest
  | rest => steps rest

/-- The reference of a text. An address without a path means the root of the document. -/
def parseWith (urls : UrlLibrary) (s : String) : Reference :=
  let chars := s.toList
  let before := chars.takeWhile (· != '#')
  let fragment := (chars.dropWhile (· != '#')).drop 1
  let address :=
    if before.isEmpty then none else some (Address.normalizeWith urls (String.ofList before))
  ⟨address, if address.isSome ∧ fragment.isEmpty then [.root] else pathOfChars fragment⟩

def parse (s : String) : Reference := parseWith Url.library s

def stepText : Step → List Char
  | .root => []
  | .key name => Pointer.escape name.toList
  | .type index => ("type/" ++ toString index).toList
  | .object => "object".toList

/-- The steps of a path as they are written, a slash between two of them; `first` says that no step
but the root has been written yet. -/
def pathChars (first : Bool) : List Step → List Char
  | [] => []
  | .root :: rest => '/' :: pathChars first rest
  | step :: rest => (if first then [] else ['/']) ++ stepText step ++ pathChars false rest

def text (r : Reference) : String :=
  match r.address, r.path with
  | some address, [] => address
  | some address, path => address ++ "#" ++ String.ofList (pathChars true path)
  | none, path => "#" ++ String.ofList (pathChars true path)

def pushStep (r : Reference) (step : Step) : Reference := { r with path := r.path ++ [step] }

def push (r : Reference) (key : String) : Reference := r.pushStep (.key key)

def withAddress (r : Reference) (address : Option String) : Reference := ofParts address r.path

/-- The reference as seen from `base`: the address counts from that of `base`, the path stays. -/
def resolveAgainstWith (urls : UrlLibrary) (r base : Reference) : Reference :=
  let address := match r.address, base.address with
    | none, address => address
    | some own, none => some own
    | some own, some address => some (Address.joinWith urls own address)
  ⟨address, if address.isSome ∧ r.path.isEmpty then [.root] else r.path⟩

def resolveAgainst (r base : Reference) : Reference := r.resolveAgainstWith Url.library base

/-- The number of an index: digits, after a plus sign or not, of less than 2⁶⁴. -/
def index? (s : String) : Option Nat :=
  let digits := match s.toList with
    | '+' :: rest => rest
    | chars => chars
  if digits.isEmpty ∨ !digits.all Text.isAsciiDigit then none
  else if 0xFFFFFFFFFFFFFFFF < Text.decimalValue digits then none
  else some (Text.decimalValue digits)

def descend (document v : Json) : Step → Except LookupError Json
  | .root => .ok document
  | .key name =>
    match v with
    | .object members =>
      match members.lookup name with
      | some w => .ok w
      | none => .error (.missingKey name)
    | .array items =>
      match index? name with
      | none => .error (.indexNotNumeric name)
      | some i =>
        match items[i]? with
        | some w => .ok w
        | none => .error (.indexOutOfRange i items.length)
    | other => .error (.notAContainer name other.kindName)
  | .type _ | .object => .error .syntheticStep

def lookup (r : Reference) (document : Json) : Except LookupError Json :=
  r.path.foldlM (descend document) document

/-- The key of a step if it can be a name: it is not empty and no index. -/
def nameOfStep? : Step → Option String
  | .key name =>
    if name.isEmpty || name.toList.all Text.isAsciiDigit then none else some name
  | _ => none

/-- A name for what is referenced: the last key that is no index, else that of the document. -/
def name (r : Reference) : String :=
  ((r.path.reverse.findSome? nameOfStep?).or (r.address.bind Address.stem?)).getD "Something"

end Reference

namespace Step

def rank : Step → Nat
  | .root => 0
  | .key _ => 1
  | .type _ => 2
  | .object => 3

/-- Steps are ordered by kind, then by key or index. -/
def order : Step → Step → Ordering
  | .key a, .key b => compare a b
  | .type i, .type j => compare i j
  | a, b => compare a.rank b.rank

end Step

namespace Reference

/-- Paths are ordered step by step; a path comes after those it continues. -/
def pathOrder : List Step → List Step → Ordering
  | [], [] => .eq
  | [], _ :: _ => .lt
  | _ :: _, [] => .gt
  | a :: p, b :: q => (a.order b).then (pathOrder p q)

/-- References are ordered by address, none first, then by path. -/
def order (r s : Reference) : Ordering :=
  let byAddress : Ordering := match r.address, s.address with
    | none, none => .eq
    | none, some _ => .lt
    | some _, none => .gt
    | some a, some b => compare a b
  byAddress.then (pathOrder r.path s.path)

end Reference

def LookupError.message (e : LookupError) (place : Reference) : String :=
  match e with
  | .missingKey key => place.text ++ ": key `" ++ key ++ "` not found"
  | .indexNotNumeric index => place.text ++ ": `" ++ index ++ "` is not an array index"
  | .indexOutOfRange index length =>
    place.text ++ ": index " ++ toString index ++ " out of range for array of length "
      ++ toString length
  | .notAContainer key kind => place.text ++ ": cannot look up `" ++ key ++ "` in a " ++ kind
  | .syntheticStep => "cannot look up synthetic path element in " ++ place.text

end JsonTyping
