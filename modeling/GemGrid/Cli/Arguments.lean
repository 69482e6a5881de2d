import GemGrid.Grid.Reader
import GemGrid.Run.Machine

/-!
# Command-line arguments

The command line has three subcommands.

    validate MAP SCRIPT [--json] [--budget N] [--while-limit N]
        [--allow-missing-start] [--allow-unpaired-portals]
    reference [--json]
    sample [--json]

Options start with two dashes, stand anywhere after the subcommand and may not be repeated; one
that takes a value has it in the next argument or after an equals sign.  After an argument `--`
nothing is an option any more.  Whatever does not fit is a usage error.
-/

namespace GemGrid.Cli

/-- What the command line asks for. -/
inductive Invocation where
  | validate (map script : String) (json : Bool) (rules : MapRules) (limits : Limits)
  | reference (json : Bool)
  | sample (json : Bool)
  | version
deriving DecidableEq, Repr

/-! ## Options and positional arguments -/

/-- The arguments of a subcommand, sorted. -/
structure Given where
  flags : List String := []
  values : List (String × String) := []
  positionals : List String := []
deriving DecidableEq, Repr, Inhabited

/-- The options that a subcommand knows: those without and those with a value. -/
structure Known where
  flags : List String
  options : List String

/-- The name of an option, and the value attached to it by an equals sign. -/
def option? (arg : String) : Option (String × Option String) :=
  match arg.toList with
  | '-' :: '-' :: cs =>
    let name := String.ofList (cs.takeWhile (· != '='))
    match cs.dropWhile (· != '=') with
    | [] => some (name, none)
    | _ :: value => some (name, some (String.ofList value))
  | _ => none

/-- Whether an argument starts with a dash and has something after it. -/
def isDashed (arg : String) : Bool :=
  match arg.toList with
  | '-' :: _ :: _ => true
  | _ => false

/-- Sorts the arguments; none if one of them does not fit. -/
def gather (known : Known) : Bool → Given → List String → Option Given
  | _, given, [] => some given
  -- behind a double dash everything is positional
  | true, given, arg :: rest =>
    gather known true { given with positionals := given.positionals ++ [arg] } rest
  | false, given, arg :: rest =>
    if arg = "--" then gather known true given rest
    else match option? arg with
    | some (name, attached) =>
      if known.flags.contains name then
        if attached.isSome || given.flags.contains name then none
        else gather known false { given with flags := name :: given.flags } rest
      else if known.options.contains name && (given.values.lookup name).isNone then
        -- a value is attached, or it is the next argument, unless that looks like an option
        match attached, rest with
        | some value, rest =>
          gather known false { given with values := (name, value) :: given.values } rest
        | none, value :: rest =>
          if isDashed value then none
          else gather known false { given with values := (name, value) :: given.values } rest
        | none, [] => none
      else none
    | none =>
      if isDashed arg then none
      else gather known false { given with positionals := given.positionals ++ [arg] } rest

/-! ## Subcommands -/

/-- A 32-bit number as it may be given for a limit; a sign is allowed. -/
def limit? (text : String) : Option Nat := do
  let i ← match text.toList with
    | '+' :: cs => (Text.digits? cs).map Int.ofNat
    | cs => Text.integer? cs
  if 0 ≤ i ∧ i ≤ Text.max32 then some i.toNat else none

/-- The value of a limit, or its default. -/
def limitOr? (given : Given) (name : String) (default : Nat) : Option Nat :=
  match given.values.lookup name with
  | none => some default
  | some text => limit? text

/-- The arguments of `validate`. -/
def validate? (args : List String) : Option Invocation := do
  let known : Known :=
    { flags := ["json", "allow-missing-start", "allow-unpaired-portals"]
      options := ["budget", "while-limit"] }
  let given ← gather known false {} args
  match given.positionals with
  | [map, script] =>
    if map.isEmpty || script.isEmpty then none
    else
      let standard : Limits := {}
      let budget ← limitOr? given "budget" standard.operationBudget
      let whileLimit ← limitOr? given "while-limit" standard.whileLimit
      some (.validate map script (given.flags.contains "json")
        { allowMissingStart := given.flags.contains "allow-missing-start"
          allowUnpairedPortals := given.flags.contains "allow-unpaired-portals" }
        { operationBudget := budget, whileLimit })
  | _ => none

/-- The arguments of a subcommand that only chooses between text and JSON. -/
def jsonOnly? (args : List String) : Option Bool := do
  let given ← gather { flags := ["json"], options := [] } false {} args
  if given.positionals.isEmpty then some (given.flags.contains "json") else none

/-- What a command line asks for; none if it does not fit. -/
def parse? : List String → Option Invocation
  | "validate" :: args => validate? args
  | "reference" :: args => (jsonOnly? args).map .reference
  | "sample" :: args => (jsonOnly? args).map .sample
  | "--version" :: _ | "-V" :: _ => some .version
  | _ => none

end GemGrid.Cli
