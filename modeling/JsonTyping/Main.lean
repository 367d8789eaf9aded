import JsonTyping.Command.Run

/-!
# The command

The command is run on a view of the files that holds what is known of them. Where it looks at a path
that is not known yet, the path is looked up and the command is run again.
-/

namespace JsonTyping.Terminal

def osErrorOf : IO.Error → OsError
  | .noFileOrDirectory _ code text => .system code.toNat text
  | .noSuchThing _ code text => .system code.toNat text
  | .inappropriateType _ code text => .system code.toNat text
  | .permissionDenied _ code text => .system code.toNat text
  | .alreadyExists _ code text => .system code.toNat text
  | .invalidArgument _ code text => .system code.toNat text
  | e => .system 5 (toString e)

def lookUp (path : String) : IO (Except OsError Entry) := do
  let place := (IO.FS.DirEntry.mk path "").root
  try
    if (← place.metadata).type matches .dir then
      return .ok (.directory ((← place.readDir).toList.map (·.fileName)))
    else return .ok (.file (← IO.FS.readBinFile place).toList)
  catch e => return .error (osErrorOf e)

def volumeOf : Except OsError Entry → Nat
  | .ok (.file bytes) => bytes.length
  | .ok (.directory names) => names.length
  | .error _ => 0

def viewOf (known : List (String × Except OsError Entry)) : Files where
  look path := (known.lookup path).getD (.error .notFound)
  volume := known.foldl (fun n (path, entry) => n + path.utf8ByteSize + volumeOf entry) 0

/-- Runs the command until it looks at known paths only. -/
partial def settle (args : List String) (known : List (String × Except OsError Entry)) :
    IO Command.Outcome := do
  let (outcome, visited) := Command.run (viewOf known) args
  let unknown := visited.eraseDups.filter fun path => (known.lookup path).isNone
  if unknown.isEmpty then return outcome
  settle args (known ++ (← unknown.mapM fun path => return (path, ← lookUp path)))

def saveText (path text : String) : IO (Except SaveError Unit) := do
  try
    if let some parent := (IO.FS.DirEntry.mk path "").root.parent then
      IO.FS.createDirAll parent
  catch e => return .error (.directory (osErrorOf e))
  try
    IO.FS.writeFile path text
    return .ok ()
  catch e => return .error (.file (osErrorOf e))

def finish (outcome : Command.Outcome) : IO UInt32 := do
  let outcome ← match outcome with
    | .save path text stderr => Command.afterSave path stderr <$> saveText path text
    | other => pure other
  match outcome with
  | .done exitCode stdout stderr =>
    IO.eprint stderr
    IO.print stdout
    return exitCode.toUInt32
  | _ =>
    IO.eprint Command.helpText
    return 2

end JsonTyping.Terminal

def main (args : List String) : IO UInt32 := do
  JsonTyping.Terminal.finish (← JsonTyping.Terminal.settle args [])
