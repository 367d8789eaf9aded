/-!
# Files as seen by path

`Files` answers what stands at a path: the bytes of a file, the names in a directory, or why there
is nothing to see.
-/

namespace JsonTyping

inductive OsError where
  | system (code : Nat) (text : String)
  | notUtf8
  | nulInPath
  deriving DecidableEq, Repr, Inhabited

namespace OsError

def notFound : OsError := system 2 "No such file or directory"

def alreadyExists : OsError := system 17 "File exists"

def notADirectory : OsError := system 20 "Not a directory"

def isADirectory : OsError := system 21 "Is a directory"

def nameTooLong : OsError := system 36 "File name too long"

def message : OsError → String
  | system code text => text ++ " (os error " ++ toString code ++ ")"
  | notUtf8 => "stream did not contain valid UTF-8"
  | nulInPath => "file name contained an unexpected NUL byte"

end OsError

inductive Entry where
  | file (bytes : List UInt8)
  | directory (names : List String)

structure Files where
  look : String → Except OsError Entry
  volume : Nat

namespace Files

def empty : Files := ⟨fun _ => .error .notFound, 0⟩

def readBytes (files : Files) (path : String) : Except OsError (List UInt8) :=
  match files.look path with
  | .ok (.file bytes) => .ok bytes
  | .ok (.directory _) => .error .isADirectory
  | .error e => .error e

def readText (files : Files) (path : String) : Except OsError String :=
  match files.readBytes path with
  | .ok bytes =>
    match String.fromUTF8? ⟨bytes.toArray⟩ with
    | some text => .ok text
    | none => .error .notUtf8
  | .error e => .error e

end Files

/-- Steps that look at paths; the paths are remembered, latest first. -/
abbrev Browse := ReaderT Files (StateM (List String))

namespace Browse

def visit {α : Type} (path : String) (f : Files → α) : Browse α := do
  modify fun (visited : List String) => path :: visited
  return f (← read)

def isThere (path : String) : Browse Bool := visit path fun files => (files.look path).isOk

def names? (path : String) : Browse (Option (List String)) :=
  visit path fun files =>
    match files.look path with
    | .ok (.directory names) => some names
    | _ => none

def isDirectory (path : String) : Browse Bool := Option.isSome <$> names? path

end Browse

end JsonTyping
