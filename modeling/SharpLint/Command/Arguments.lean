/-!
# Command Line Arguments

The arguments are read from the left, and the first one that is wrong or asks
for help decides. A flag may be given once; a value stands behind its option or
an equals sign; behind `--` nothing is an option any more.

## Main definitions

* `Request`: what a command line asks for.
* `Request.parse`: reads the arguments.
* `Request.Usage`: the arguments that a command takes.
-/

namespace SharpLint

/-- The form of a report. -/
inductive Format
  | plain
  | json
  | annotations
  deriving DecidableEq, Repr

/-- The format of a name. -/
def Format.ofName? : String → Option Format
  | "default" => some .plain
  | "json" => some .json
  | "github" => some .annotations
  | _ => none

/-- What help is asked about. -/
inductive Topic
  | program
  | check
  | config
  | help
  deriving DecidableEq, Repr

/-- What a command line asks for. -/
inductive Request
  | check (path : String) (fixing : Bool) (format : Format) (strict : Bool)
  | config (shown created : Bool)
  | help (topic : Topic)
  | version
  /-- The arguments are wrong. -/
  | misuse
  deriving DecidableEq, Repr

namespace Request

/-- How a value is taken, unless it is wrong or given before. -/
abbrev Take (σ : Type) := σ → String → Option σ

/-- The arguments that a command takes. -/
structure Usage (σ : Type) where
  /-- Options without a value, by their names and their letters. -/
  flags : List (String × Option Char × (σ → Option σ))
  /-- Options with a value. -/
  options : List (String × Take σ)
  /-- What is no option. -/
  positional : Take σ

/-- What came of the arguments of a command. -/
inductive Reading (σ : Type)
  | done (state : σ)
  | help
  | misuse

/-- What one argument asks for. -/
inductive Step (σ : Type)
  | set (state : σ)
  /-- The value of an option comes next. -/
  | await (take : Take σ)
  | help
  | misuse

/-- The step that sets a state, if there is one. -/
def Step.ofOption {σ : Type} : Option σ → Step σ
  | some state => .set state
  | none => .misuse

/-- An option that is written in full, with the value behind its equals
    sign. -/
def readLong {σ : Type} (usage : Usage σ) (state : σ) (name : String) (value : Option String) :
    Step σ :=
  match usage.options.lookup name, value with
  | some take, some value => .ofOption (take state value)
  | some take, none => .await take
  | none, some _ => .misuse
  | none, none =>
    if name = "help" then .help
    else
      match usage.flags.lookup name with
      | some (_, set) => .ofOption (set state)
      | none => .misuse

/-- Letters behind one hyphen, each an option of its own. -/
def readShort {σ : Type} (usage : Usage σ) (state : σ) : List Char → Step σ
  | [] => .set state
  | letter :: letters =>
    if letter = 'h' then .help
    else
      match usage.flags.find? fun flag => flag.2.1 == some letter with
      | none => .misuse
      | some (_, _, set) =>
        match set state with
        | some state => readShort usage state letters
        | none => .misuse

/-- The name of an option, and what stands behind the first equals sign. -/
def splitOption (text : List Char) : String × Option String :=
  match text.dropWhile (· != '=') with
  | [] => (String.ofList text, none)
  | _ :: value => (String.ofList (text.takeWhile (· != '=')), some (String.ofList value))

/-- Reads the arguments of a command. With `literal` set, `--` came before;
    `awaiting` takes the value of the option that came last. -/
def readArguments {σ : Type} (usage : Usage σ) (state : σ) (literal : Bool)
    (awaiting : Option (Take σ)) : List String → Reading σ
  | [] => if awaiting.isSome then .misuse else .done state
  | argument :: rest =>
    let step : Step σ :=
      match awaiting, argument.toList with
      | some _, '-' :: _ :: _ => .misuse
      | some take, _ => .ofOption (take state argument)
      | none, '-' :: letter :: letters =>
        if literal then .ofOption (usage.positional state argument)
        else if letter = '-' then
          let (name, value) := splitOption letters
          readLong usage state name value
        else readShort usage state (letter :: letters)
      | none, _ => .ofOption (usage.positional state argument)
    if argument = "--" && !literal && awaiting.isNone then readArguments usage state true none rest
    else
      match step with
      | .set state => readArguments usage state literal none rest
      | .await take => readArguments usage state literal (some take) rest
      | .help => .help
      | .misuse => .misuse

/-- The arguments of `check` so far. -/
structure CheckArguments where
  path : Option String := none
  fixing : Bool := false
  format : Option Format := none
  strict : Bool := false

/-- The arguments of `check`. -/
def checkUsage : Usage CheckArguments where
  flags :=
    [("fix", some 'f', fun state => if state.fixing then none else some { state with fixing := true }),
      ("strict", none, fun state =>
        if state.strict then none else some { state with strict := true })]
  options :=
    [("format", fun state value =>
      match state.format, Format.ofName? value with
      | none, some format => some { state with format := some format }
      | _, _ => none)]
  positional := fun state value =>
    if state.path.isSome || value = "" then none else some { state with path := some value }

/-- The arguments of `config` so far. -/
structure ConfigArguments where
  shown : Bool := false
  created : Bool := false

/-- The arguments of `config`. -/
def configUsage : Usage ConfigArguments where
  flags :=
    [("show", none, fun state => if state.shown then none else some { state with shown := true }),
      ("init", none, fun state =>
        if state.created then none else some { state with created := true })]
  options := []
  positional := fun _ _ => none

/-- What the arguments of a command ask for. -/
def ofReading {σ : Type} (topic : Topic) (request : σ → Request) : Reading σ → Request
  | .done state => request state
  | .help => .help topic
  | .misuse => .misuse

/-- What the arguments ask for. -/
def parse : List String → Request
  | [] => .misuse
  | "check" :: arguments =>
    ofReading .check
      (fun state => .check (state.path.getD ".") state.fixing (state.format.getD .plain) state.strict)
      (readArguments checkUsage {} false none arguments)
  | "config" :: arguments =>
    ofReading .config (fun state => .config state.shown state.created)
      (readArguments configUsage {} false none arguments)
  | ["help"] => .help .program
  | ["help", "check"] => .help .check
  | ["help", "config"] => .help .config
  | ["help", "help"] => .help .help
  | "--help" :: _ => .help .program
  | "--version" :: _ => .version
  | argument :: _ =>
    match argument.toList with
    | '-' :: 'h' :: _ => .help .program
    | '-' :: 'V' :: _ => .version
    | _ => .misuse

end Request

end SharpLint
