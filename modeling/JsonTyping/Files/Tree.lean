import JsonTyping.Files.Basic
import JsonTyping.Sorted.Set

/-!
# Trees of files

A `FileTree` holds files in nested directories. A path is followed part by part from the root or
from the working directory.
-/

namespace JsonTyping

/-- The files by their parts from the root, latest first; directories are there as far as files or
the working directory are in them. -/
structure FileTree where
  workingDirectory : List String
  files : List (List String × List UInt8)

inductive SaveError where
  | directory (cause : OsError)
  | file (cause : OsError)
  deriving DecidableEq, Repr

namespace FileTree

def parts (path : String) : List String := (path.toList.splitOn '/').map String.ofList

def file? (t : FileTree) (place : List String) : Option (List UInt8) := t.files.lookup place

def isDirectory (t : FileTree) (place : List String) : Bool :=
  place.isPrefixOf t.workingDirectory
    || t.files.any fun f => place.isPrefixOf f.1 && place.length < f.1.length

def names (t : FileTree) (place : List String) : List String :=
  (SortedSet.ofList ((t.workingDirectory :: t.files.map (·.1)).filterMap fun p =>
    if place.isPrefixOf p then p[place.length]? else none)).toList

/-- Follows the parts of a path from a place. Every part needs a directory to start from. -/
def follow (t : FileTree) (here : List String) : List String → Except OsError (List String)
  | [] => .ok here
  | part :: rest =>
    if !t.isDirectory here then .error .notADirectory
    else if part = "" ∨ part = "." then follow t here rest
    else if part = ".." then follow t here.dropLast rest
    else if 255 < part.utf8ByteSize then .error .nameTooLong
    else
      let next := here ++ [part]
      if t.isDirectory next || (t.file? next).isSome then follow t next rest else .error .notFound

def start (t : FileTree) (path : String) : List String :=
  if path.toList.head? = some '/' then [] else t.workingDirectory

def place? (t : FileTree) (path : String) : Except OsError (List String) :=
  if path.toList.contains '\x00' then .error .nulInPath
  else if path.isEmpty then .error .notFound
  else if 4096 ≤ path.utf8ByteSize then .error .nameTooLong
  else t.follow (t.start path) (parts path)

def look (t : FileTree) (path : String) : Except OsError Entry :=
  match t.place? path with
  | .error e => .error e
  | .ok place =>
    match t.file? place with
    | some bytes => .ok (.file bytes)
    | none => .ok (.directory (t.names place))

def volume (t : FileTree) : Nat :=
  let path (parts : List String) : Nat := parts.foldl (fun n part => n + part.utf8ByteSize + 1) 0
  t.files.foldl (fun n f => n + f.2.length + path f.1) t.workingDirectory.length

def view (t : FileTree) : Files := ⟨t.look, t.volume⟩

def makeDirectories (t : FileTree) (here : List String) :
    List String → Except OsError (List String)
  | [] => if (t.file? here).isSome then .error .alreadyExists else .ok here
  | part :: rest =>
    if (t.file? here).isSome then .error .notADirectory
    else if part = ".." then makeDirectories t here.dropLast rest
    else if 255 < part.utf8ByteSize then .error .nameTooLong
    else makeDirectories t (here ++ [part]) rest

def save (t : FileTree) (path : String) (bytes : List UInt8) : Except SaveError FileTree := do
  let all := parts path
  let written := all.filter fun part => part ≠ "" ∧ part ≠ "."
  let here ← (t.makeDirectories (t.start path) written.dropLast).mapError .directory
  match all.getLast?, written.getLast? with
  | some last, some name =>
    let place := here ++ [name]
    if last ≠ name ∨ last = ".." ∨ t.isDirectory place then throw (.file .isADirectory)
    else if 255 < name.utf8ByteSize then throw (.file .nameTooLong)
    else return { t with files := (place, bytes) :: t.files }
  | _, _ => throw (.file .isADirectory)

end FileTree

end JsonTyping
