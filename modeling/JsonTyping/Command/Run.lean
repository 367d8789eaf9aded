import JsonTyping.Command.Arguments
import JsonTyping.Files.Glob
import JsonTyping.Files.Tree
import JsonTyping.Graph.Dump
import JsonTyping.Json.Pointer
import JsonTyping.Samples.Collection
import JsonTyping.Schema.Batch
import JsonTyping.Settings.Reader
import JsonTyping.Text.Lines

/-!
# Running the command

`Command.run` does what the arguments ask for with a view of the files. Its outcome says what is to
be printed or saved; nothing is written here.
-/

namespace JsonTyping.Command

abbrev CommandM := ExceptT String Browse

def read {α : Type} (path : String) (f : Files → Except OsError α)
    (message : OsError → String) : CommandM α :=
  ExceptT.mk <| Browse.visit path fun files => (f files).mapError message

def isPattern (input : String) : Bool :=
  input.toList.any fun c => ['*', '?', '[', '\x7b'].contains c

def inputPaths (input : String) : CommandM (List String) := do
  if isPattern input then
    match ← Glob.find input with
    | .error e => throw e.message
    | .ok [] => throw ("glob pattern matched no files: " ++ input)
    | .ok paths => return paths
  else return [input]

def withContext {α : Type} (context : String) (steps : CommandM α) : CommandM α :=
  tryCatch steps fun message => throw (context ++ ": " ++ message)

inductive Loaded where
  | text (path source : String)
  | selected (values : List Json)

def documents (ndjson : Bool) (path source : String) : CommandM (List Json) :=
  if ndjson then
    (Text.numberedLines source).mapM fun (number, line) =>
      match Json.readDocument line with
      | .ok v => pure v
      | .error e =>
        throw ("failed to parse NDJSON line " ++ toString number ++ " (" ++ path ++ "): "
          ++ e.message)
  else
    match Json.readDocument source with
    | .ok v => pure [v]
    | .error e => throw ("failed to parse JSON source file (" ++ path ++ "): " ++ e.message)

def load (r : SamplesRequest) (path : String) : CommandM Loaded := do
  let source ← read path (·.readText path) fun e =>
    "failed to read source file (" ++ path ++ "): " ++ e.message
  match r.pointer with
  | none => return .text path source
  | some pointer =>
    return .selected ((← documents r.ndjson path source).filterMap (Pointer.find? pointer))

/-- Observes a text; the message of a failure names the input and tells the cause twice, as the
failure of the sample and as that of the text. -/
def observeText (c : Collection) (context text : String) : CommandM Collection := do
  match c.observeText text with
  | .error misuse => throw misuse.message
  | .ok (c, .ok ()) => return c
  | .ok (_, .error e) => throw (context ++ ": " ++ sampleParseMessage e ++ ": " ++ e.message)

def observe (r : SamplesRequest) (c : Collection) : Loaded → CommandM Collection
  | .selected values =>
    values.foldlM (fun c v =>
      match c.observeDocument v with
      | .ok c => pure c
      | .error misuse => throw misuse.message) c
  | .text path source =>
    if r.ndjson then
      (Text.numberedLines source).foldlM (fun c (number, line) =>
        observeText c ("failed to parse NDJSON line " ++ toString number ++ " (" ++ path ++ ")")
          line) c
    else observeText c ("failed to parse JSON source file (" ++ path ++ ")") source

def settings (r : SamplesRequest) : CommandM Settings := do
  let s ← match r.config with
    | none => pure ({} : Settings)
    | some path => do
      let bytes ← read path (·.readBytes path) fun e =>
        "failed to read config file (" ++ path ++ "): " ++ e.message
      match Settings.readBytes bytes with
      | .ok s => pure s
      | .error e => throw ("invalid config file (" ++ path ++ "): " ++ e.message)
  return if r.handleRefs then s.withRefs else s

/-- The graph of the types of samples. All input files are read before the first is observed. -/
def samples (r : SamplesRequest) : CommandM Graph := do
  let s ← settings r
  let paths ← withContext "failed to resolve input file paths" (r.inputs.mapM inputPaths)
  let loaded ← paths.flatten.mapM (load r)
  let c ← loaded.foldlM (observe r) (Collection.empty s)
  match c.solve .empty r.name with
  | (graph, .ok _) => return graph
  | (_, .error e) => throw e.message

/-- The references that an input stands for. A URL and a reference with a path stand for themselves;
a scheme of one letter is taken for a drive. -/
def schemaUris (input : String) : CommandM (List String) :=
  let isUrl := match Url.parse? input with
    | some url => decide (1 < url.scheme.length)
    | none => false
  if isUrl || input.toList.contains '#' then pure [input]
  else withContext ("failed to resolve schema input `" ++ input ++ "`") (inputPaths input)

def addUris (name : Option String) (b : Batch) (uris : List String) : CommandM Batch :=
  uris.foldlM (fun b uri =>
    match b.addSource ⟨name, [uri], none⟩ with
    | (b, .ok ()) => pure b
    | (_, .error e) => throw e.message) b

def rememberAsked (lib : Library) : CommandM Unit :=
  modify fun (visited : List String) => lib.asked.filterMap Store.path? ++ visited

/-- The graph of the types of schemas, and a line for every reference that failed. When all of them
failed there is no graph. -/
def schemas (r : SchemaRequest) : CommandM (List String × Option Graph) := do
  let uris := (← r.inputs.mapM schemaUris).flatten
  if r.name.isSome ∧ uris.length ≠ 1 then
    throw ("--name needs exactly one schema input, got " ++ toString uris.length)
  let b ← addUris r.name (.ofStore (some (.files (← MonadReaderOf.read)))) uris
  let (b, graph, result) := b.convert .empty
  rememberAsked b.library
  match result with
  | .error cause => throw cause.message
  | .ok report =>
    let lines := report.failed.map fun (name, e) => "failed: " ++ name ++ ": " ++ e.message
    let nothing := report.converted.isEmpty && !report.failed.isEmpty
    return (lines, if nothing then none else some graph)

inductive Outcome where
  | usage
  | done (exitCode : Nat) (stdout stderr : String)
  | save (path text stderr : String)
  deriving DecidableEq, Repr

def unlines (lines : List String) : String := String.join (lines.map (· ++ "\n"))

def failure (lines : List String) (message : String) : Outcome :=
  .done 1 "" (unlines (lines ++ ["error: " ++ message]))

def success (out : Option String) (lines : List String) (graph : Graph) : Outcome :=
  let text := graph.dump.indented
  match out with
  | none => .done 0 (text ++ "\n") (unlines lines)
  | some path => .save path text (unlines lines)

def afterSave (path stderr : String) : Except SaveError Unit → Outcome
  | .ok () => .done 0 "" stderr
  | .error (.directory e) => .done 1 "" (stderr ++ unlines ["error: " ++ e.message])
  | .error (.file e) =>
    .done 1 "" (stderr ++ unlines ["error: failed to write " ++ path ++ ": " ++ e.message])

def helpText : String :=
  unlines [
    "Infer types from JSON samples or JSON Schema and print the resulting type graph.", "",
    "Usage:",
    "  samples --input <INPUT>... [--ndjson] [--json-pointer <POINTER>] [--config <FILE>]",
    "          [--handle-refs] [--name <NAME>] [--out <FILE>]",
    "  schema  --input <INPUT>... [--name <NAME>] [--out <FILE>]"]

def runRequest (args : List String) : Browse Outcome := do
  match readRequest? args with
  | none => return .usage
  | some .help => return .done 0 helpText ""
  | some (.samples r) =>
    match ← (samples r).run with
    | .ok graph => return success r.out [] graph
    | .error message => return failure [] message
  | some (.schema r) =>
    match ← (schemas r).run with
    | .ok (lines, some graph) => return success r.out lines graph
    | .ok (lines, none) => return failure lines "no schema could be converted"
    | .error message => return failure [] message

/-- Does what arguments ask for, and says which paths were looked at. -/
def run (files : Files) (args : List String) : Outcome × List String :=
  ((runRequest args).run files).run []

end JsonTyping.Command
