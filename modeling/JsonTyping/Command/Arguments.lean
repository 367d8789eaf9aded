/-!
# Arguments of the command line

The command has two subcommands. `samples` infers types from sampled documents and `schema` converts
schemas. An option takes the arguments that follow it, or what is attached to it: `--name X`,
`--name=X`, `-oX`. See SPEC_FULL.md §C.9. The program reads them with the library `clap`, release
4.5, which the reader here stands for.
-/

namespace JsonTyping.Command

structure SamplesRequest where
  ndjson : Bool
  pointer : Option String
  inputs : List String
  config : Option String
  handleRefs : Bool
  name : String
  out : Option String
  deriving DecidableEq, Repr

structure SchemaRequest where
  inputs : List String
  name : Option String
  out : Option String
  deriving DecidableEq, Repr

inductive Request where
  | samples (request : SamplesRequest)
  | schema (request : SchemaRequest)
  | help
  deriving DecidableEq, Repr

inductive Arity where
  | flag
  | one
  /-- One, which is not empty. -/
  | path
  /-- One or more, and the option may be repeated. -/
  | many
  deriving DecidableEq, Repr

structure OptionSpec where
  long : String
  short : Option Char
  arity : Arity

def samplesOptions : List OptionSpec := [
  ⟨"ndjson", none, .flag⟩, ⟨"json-pointer", none, .one⟩, ⟨"input", some 'i', .many⟩,
  ⟨"config", none, .path⟩, ⟨"handle-refs", none, .flag⟩, ⟨"name", none, .one⟩,
  ⟨"out", some 'o', .path⟩]

def schemaOptions : List OptionSpec := [
  ⟨"input", some 'i', .many⟩, ⟨"name", none, .one⟩, ⟨"out", some 'o', .path⟩]

abbrev Given := List (String × List String)

/-- Outcome of reading options: the options, a request for help, or nothing if they are malformed.
-/
inductive Parsed where
  | given (options : Given)
  | help
  | malformed
  deriving DecidableEq, Repr

/-- Adds an option with values. Only an option that takes many may be repeated. -/
def addOption (given : Given) (spec : OptionSpec) (values : List String) : Option Given :=
  match given.lookup spec.long with
  | none => some (given ++ [(spec.long, values)])
  | some before =>
    if spec.arity = .many then
      some (given.map fun (name, old) =>
        if name = spec.long then (name, before ++ values) else (name, old))
    else none

def isValue (arg : String) : Bool := arg == "-" || arg.toList.head? != some '-'

def accepts (spec : OptionSpec) (value : String) : Bool :=
  spec.arity != .path || !value.isEmpty

def takes (spec : OptionSpec) (args : List String) : Nat :=
  match spec.arity with
  | .flag => 0
  | .one | .path => (args.takeWhile isValue).length.min 1
  | .many => (args.takeWhile isValue).length

/-- What an argument starts: an option and what is attached to it, if anything is. -/
inductive Start where
  | option (spec : OptionSpec) (attached : Option String)
  /-- A letter without value, with more letters behind it. -/
  | help
  | unknown

def startOf (specs : List OptionSpec) (arg : String) : Start :=
  match arg.toList with
  | '-' :: '-' :: rest =>
    let name := String.ofList (rest.takeWhile (· != '='))
    let attached := match rest.dropWhile (· != '=') with
      | _ :: value => some (String.ofList value)
      | [] => none
    if name = "help" ∧ attached.isNone then .help
    else
      match specs.find? (·.long == name) with
      | some spec => .option spec attached
      | none => .unknown
  | '-' :: c :: rest =>
    if c = 'h' then .help
    else
      match specs.find? (·.short == some c) with
      | some spec =>
        .option spec <| match rest with
          | [] => none
          | '=' :: value => some (String.ofList value)
          | value => some (String.ofList value)
      | none => .unknown
  | _ => .unknown

/-- Reads options. Two hyphens alone end them, and nothing may follow. -/
def readOptions (specs : List OptionSpec) (given : Given) (args : List String) : Parsed :=
  match args with
  | [] => .given given
  | arg :: rest =>
    if arg = "--" then if rest.isEmpty then .given given else .malformed
    else
      match startOf specs arg with
      | .unknown => .malformed
      | .help => .help
      | .option spec attached =>
        let count := if attached.isSome then 0 else takes spec rest
        let values := match attached with
          | some value => [value]
          | none => rest.take count
        if (spec.arity = .flag) ≠ values.isEmpty ∨ !values.all (accepts spec) then .malformed
        else
          match addOption given spec values with
          | some given => readOptions specs given (rest.drop count)
          | none => .malformed
termination_by args.length
decreasing_by
  simp only [List.length_drop, List.length_cons]
  omega

def Given.value? (given : Given) (name : String) : Option String :=
  (given.lookup name).bind List.head?

def Given.has (given : Given) (name : String) : Bool := (given.lookup name).isSome

def samplesRequest? (given : Given) : Option SamplesRequest :=
  (given.lookup "input").map fun inputs =>
    { ndjson := given.has "ndjson"
      pointer := given.value? "json-pointer"
      inputs
      config := given.value? "config"
      handleRefs := given.has "handle-refs"
      name := (given.value? "name").getD "Root"
      out := given.value? "out" }

def schemaRequest? (given : Given) : Option SchemaRequest :=
  (given.lookup "input").map fun inputs => ⟨inputs, given.value? "name", given.value? "out"⟩

def readRequest? (args : List String) : Option Request :=
  let read {α : Type} (specs : List OptionSpec) (rest : List String) (f : Given → Option α)
      (make : α → Request) : Option Request :=
    match readOptions specs [] rest with
    | .given given => (f given).map make
    | .help => some .help
    | .malformed => none
  match args with
  | "samples" :: rest => read samplesOptions rest samplesRequest? .samples
  | "schema" :: rest => read schemaOptions rest schemaRequest? .schema
  | "-h" :: _ | "--help" :: _ => some .help
  | ["help"] | ["help", "samples"] | ["help", "schema"] | ["help", "help"] => some .help
  | _ => none

end JsonTyping.Command
