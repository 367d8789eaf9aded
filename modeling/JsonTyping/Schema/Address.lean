import JsonTyping.Url.Library

/-!
# Addresses of documents

A document is known by its address: a URL, or a path. Addresses are kept in one spelling
(`Address.normalize`), so two addresses of one document are equal. A relative address counts from
the one of the document it stands in (`Address.join`).
-/

namespace JsonTyping.Address

/-- The segments left when those of a path are followed in turn: `.` and empty segments stay put,
`..` leaves the segment before it, if there is one to leave, and is dropped at the root of an
absolute path. The segments left are in reverse; only the last segment of a path may be empty. -/
def resolve (absolute : Bool) : List (List Char) → List (List Char) → List (List Char)
  | done, [] => done
  | done, segment :: rest =>
    if segment = ['.'] then resolve absolute done rest
    else if segment = [] ∧ rest ≠ [] then resolve absolute done rest
    else if segment = ['.', '.'] then
      match done with
      | last :: before =>
        if last = ['.', '.'] then
          if absolute then resolve absolute done rest else resolve absolute (segment :: done) rest
        else resolve absolute before rest
      | [] =>
        if absolute then resolve absolute done rest else resolve absolute (segment :: done) rest
    else resolve absolute (segment :: done) rest

def normalizePathChars (path : List Char) : List Char :=
  let absolute := path.head? == some '/'
  let joined := ['/'].intercalate (resolve absolute [] (path.splitOn '/')).reverse
  if absolute then '/' :: joined else joined

def normalizePath (path : String) : String := String.ofList (normalizePathChars path.toList)

def directory (path : List Char) : List Char :=
  (path.reverse.dropWhile (· != '/')).reverse

section Library

variable (urls : UrlLibrary)

/-- The one spelling of an address: a URL in its normal form and without fragment, else a path. -/
def normalizeWith (address : String) : String :=
  match urls.parse? address with
  | some url => urls.text (urls.withoutFragment url)
  | none => normalizePath address

def joinWith (address base : String) : String :=
  if (urls.parse? address).isSome then normalizeWith urls address
  else
    match (urls.parse? base).bind (urls.join? · address) with
    | some url => urls.text (urls.withoutFragment url)
    | none =>
      if address.toList.head? = some '/' then normalizePath address
      else
        String.ofList (normalizePathChars (directory base.toList ++ address.toList))

end Library

def normalize (address : String) : String := normalizeWith Url.library address

def join (address base : String) : String := joinWith Url.library address base

/-- The name of the document at an address: the last segment that is not empty, without what follows
its last dot, if anything stands before it. -/
def stem? (address : String) : Option String :=
  let chars := (address.toList.reverse.dropWhile (· == '/')).reverse
  let last := (chars.reverse.takeWhile (· != '/')).reverse
  let front := ((last.reverse.dropWhile (· != '.')).drop 1).reverse
  let name := if front.isEmpty then last else front
  if name.isEmpty then none else some (String.ofList name)

end JsonTyping.Address
