import JsonTyping.Files.Basic
import JsonTyping.Files.Pattern

/-!
# Finding files by pattern

A pattern is cut at its slashes into a pattern for every directory on the way and for the name. The
paths that fit are found in alphabetical order. The library `glob`, release 0.3.3, finds them so.
-/

namespace JsonTyping.Glob

def join (path name : String) : String :=
  if path.isEmpty ∨ path.toList.getLast? = some '/' then path ++ name else path ++ "/" ++ name

/-- A path one name further, where the working directory itself is not written. -/
def below (path name : String) : String := if path = "." then name else join path name

structure Request where
  directoriesOnly : Bool

def keep (request : Request) (path : String) : Browse (List String) := do
  if request.directoriesOnly then
    return if ← Browse.isDirectory path then [path] else []
  else return [path]

def goOn (request : Request) (expand : List Pattern → String → Browse (List String))
    (patterns : List Pattern) (path : String) : Browse (List String) :=
  if patterns.isEmpty then keep request path else expand patterns path

def matchName (request : Request) (expand : List Pattern → String → Browse (List String))
    (patterns : List Pattern) (path name : String) : Browse (List String) :=
  match patterns with
  | p :: rest =>
    if Pattern.covers p name.toList then goOn request expand rest path else return []
  | [] => return []

/-- The paths from an entry of a directory. Two stars fit a directory and all that is below it. -/
def visit (request : Request) (expand : List Pattern → String → Browse (List String))
    (patterns : List Pattern) (path name : String) : Browse (List String) :=
  match patterns with
  | p :: rest =>
    if Pattern.isRecursive p then do
      let after := rest.dropWhile Pattern.isRecursive
      let isDirectory ← Browse.isDirectory path
      let here ←
        if after.isEmpty then pure (if isDirectory then [path] else [])
        else matchName request expand after path name
      let inside ← if isDirectory then expand (p :: after) path else pure []
      return here ++ inside
    else matchName request expand patterns path name
  | [] => return []

/-- The paths below a path that fit the patterns. `fuel` bounds how deep directories are nested. -/
def expand (request : Request) : Nat → List Pattern → String → Browse (List String)
  | 0, _, _ => return []
  | _, [], _ => return []
  | fuel + 1, p :: rest, path => do
    let onward := goOn request (expand request fuel) rest
    match Pattern.literal? p with
    | some name =>
      let next := below path name
      let fits ← if name = "." ∨ name = ".." then Browse.isDirectory path else Browse.isThere next
      if fits then onward next else return []
    | none =>
      match ← Browse.names? path with
      | none => return []
      | some names =>
        let dots := if p.head? = some (.char '.') then ["..", "."] else []
        let special ← (dots.filter fun d => Pattern.covers p d.toList).mapM fun d =>
          onward (join path d)
        let found ← (names.mergeSort fun a b => compare a b != .gt).mapM fun name =>
          visit request (expand request fuel) (p :: rest) (below path name) name
        return (special ++ found).flatten

/-- The parts of a pattern; a slash at its end begins no part. -/
def parts (text : List Char) : List (List Char) :=
  let all := text.splitOn '/'
  if all.getLast? = some [] then all.dropLast else all

def find (pattern : String) : Browse (Except PatternError (List String)) := do
  let chars := pattern.toList
  let absolute := chars.head? = some '/'
  let patterns : Except PatternError (List Pattern) := do
    let _ ← Pattern.compile chars
    (parts (if absolute then chars.drop 1 else chars)).mapM Pattern.compile
  match patterns with
  | .error e => return .error e
  | .ok patterns =>
    let request : Request := ⟨chars.getLast? = some '/'⟩
    let fuel := (← read).volume + patterns.length + 1
    return .ok (← expand request fuel patterns (if absolute then "/" else "."))

end JsonTyping.Glob
