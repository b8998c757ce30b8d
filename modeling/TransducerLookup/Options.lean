/-!
# Command line options

Options may stand anywhere before a lone `--`; all other arguments are words to
look up. A single dash is a word. If an option is given twice, the last counts.
-/

namespace TransducerLookup

/-- What one argument is, where an option may stand. -/
inductive Argument where
  | endOfOptions
  /-- The next argument is the path of the transducer. -/
  | pathFollows
  | path (path : String)
  | json
  | verbose
  | help
  | unknownOption
  | word
  deriving DecidableEq, Repr

namespace Argument

/-- A dash and more. -/
def looksLikeOption (arg : List Char) : Bool := arg.head? = some '-' && 1 < arg.length

def ofText (arg : String) : Argument :=
  match arg with
  | "--" => endOfOptions
  | "-f" => pathFollows
  | "--fst" => pathFollows
  | "--json" => json
  | "-v" => verbose
  | "--verbose" => verbose
  | "-h" => help
  | "--help" => help
  | _ =>
    match "--fst=".toList.isPrefixOf? arg.toList with
    | some rest => path (String.ofList rest)
    | none => if looksLikeOption arg.toList then unknownOption else word

end Argument

inductive UsageError where
  /-- The option is the last argument but needs a value. -/
  | missingValue (option : String)
  | unknownOption (arg : String)
  /-- Neither the options nor the environment name a transducer. -/
  | noTransducer
  deriving DecidableEq, Repr

namespace Options

/-- The environment variable that names the transducer if no option does. -/
def pathVariable : String := "HFST_FST_PATH"

end Options

def UsageError.message : UsageError → String
  | missingValue option => option ++ " requires a value"
  | unknownOption arg => "unknown option: " ++ arg
  | noTransducer => "no transducer given; use -f PATH or set " ++ Options.pathVariable

structure Options where
  path : Option String := none
  json : Bool := false
  verbose : Bool := false
  help : Bool := false
  words : List String := []
  deriving DecidableEq, Repr

namespace Options

/-- Adds what the arguments say to the options. -/
def extend (o : Options) : List String → Except UsageError Options
  | [] => .ok o
  | arg :: rest =>
    match Argument.ofText arg with
    | .endOfOptions => .ok { o with words := o.words ++ rest }
    | .pathFollows =>
      match rest with
      | [] => .error (.missingValue arg)
      | path :: rest => extend { o with path := some path } rest
    | .path path => extend { o with path := some path } rest
    | .json => extend { o with json := true } rest
    | .verbose => extend { o with verbose := true } rest
    | .help => extend { o with help := true } rest
    | .unknownOption => .error (.unknownOption arg)
    | .word => extend { o with words := o.words ++ [arg] } rest

def parse (args : List String) : Except UsageError Options := extend {} args

/-- The path from the options or else the fallback of the environment, where an empty
one counts as unset. -/
def resolvePath (path fallback : Option String) : Except UsageError String :=
  match path, fallback with
  | some path, _ => .ok path
  | none, some value => if value = "" then .error .noTransducer else .ok value
  | none, none => .error .noTransducer

end Options

end TransducerLookup
