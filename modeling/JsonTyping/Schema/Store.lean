import JsonTyping.Files.Basic
import JsonTyping.Json.Document
import JsonTyping.Schema.Address

/-!
# Where schema documents come from

A `Store` answers a normalized address with a document. Documents are given up front or are read
from files. See SPEC_FULL.md §C.7.
-/

namespace JsonTyping

inductive FetchError where
  | unreadable (address : String) (cause : OsError)
  | notJson (address : String) (cause : Json.ReadError)

namespace FetchError

def message : FetchError → String
  | unreadable address cause => "failed to read `" ++ address ++ "`: " ++ cause.message
  | notJson address cause => "`" ++ address ++ "` is not valid JSON: " ++ cause.message

end FetchError

inductive Store where
  /-- Documents by address; of some addresses it is only known that they cannot be read. -/
  | memory (documents : List (String × Json)) (broken : List String)
  | files (files : Files)

namespace Store

/-- Puts a document under an address; of two with the same address the later one counts. -/
def addDocumentWith (urls : UrlLibrary) (documents : List (String × Json)) (address : String)
    (document : Json) : List (String × Json) :=
  (Address.normalizeWith urls address, document) :: documents

def addDocument (documents : List (String × Json)) (address : String) (document : Json) :
    List (String × Json) :=
  addDocumentWith Url.library documents address document

/-- A path that ends in the letter of a drive also ends in a slash. -/
def closeDrive (path : List UInt8) : List UInt8 :=
  match path.reverse with
  | colon :: letter :: _ :: _ =>
    let c := Char.ofNat letter.toNat
    if (colon = 0x3A ∨ colon = 0x7C) ∧ Text.isAsciiLetter c then path ++ [0x2F] else path
  | _ => path

/-- The path that an address means: that of a URL of a file on this machine, with its escapes
undone, and an address that is no URL itself. Other URLs mean no file. -/
def path? (address : String) : Option String :=
  match Url.parse? address with
  | none => some address
  | some url =>
    if url.scheme = "file" ∧ url.isOnThisMachine then
      match url.path with
      | .segments list =>
        let bytes := list.flatMap fun s => 0x2F :: Url.unescape s.toList
        String.fromUTF8? ⟨(closeDrive bytes).toArray⟩
      | .plain _ => none
    else none

/-- The document in the file that an address means. A file that is not there is no failure. -/
def fetchFile (files : Files) (address : String) : Except FetchError (Option Json) :=
  match path? address with
  | none => .ok none
  | some path =>
    match files.readText path with
    | .error cause =>
      if cause = .notFound then .ok none else .error (.unreadable address cause)
    | .ok text =>
      match Json.readDocument text with
      | .ok document => .ok (some document)
      | .error cause => .error (.notJson address cause)

/-- The document at a normalized address. One that cannot be read counts as absent. -/
def fetch? (store : Store) (address : String) : Option Json :=
  match store with
  | memory documents broken =>
    if broken.contains address then none else documents.lookup address
  | files f =>
    match fetchFile f address with
    | .ok document => document
    | .error _ => none

def count : Store → Nat
  | memory documents _ => documents.length
  | files f => f.volume

def volume : Store → Nat
  | memory documents _ => Json.sizeMembers documents
  | files f => f.volume

end Store

end JsonTyping
