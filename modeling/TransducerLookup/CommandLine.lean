import TransducerLookup.Options
import TransducerLookup.Search.Run
import TransducerLookup.Text.Blank

/-!
# The lookup tool

The tool looks up words, given as arguments or else one per line of standard
input, and writes for each word one line per analysis. All of it is a function
of the arguments, one environment variable, the transducer file and standard
input.
-/

namespace TransducerLookup.CommandLine

/-- What a run leaves behind. Of what goes to standard error `stderr` has the messages only, not
the lines of the log. -/
structure Outcome where
  code : UInt32 := 0
  stdout : String := ""
  stderr : String := ""
  deriving DecidableEq, Repr

def Outcome.failure (message : String) : Outcome :=
  { code := 1, stderr := "error: " ++ message ++ "\n" }

def helpText : String :=
  "hfst-lookup: Look up words in an HFST optimized-lookup transducer.\n"
    ++ "\n"
    ++ "Usage: hfst-lookup [-f FST] [--json] [-v] [WORD...]\n"
    ++ "\n"
    ++ "If WORD arguments are given, looks up each word.\n"
    ++ "Otherwise reads words from stdin (one per line).\n"
    ++ "\n"
    ++ "Options:\n"
    ++ "  -f, --fst PATH    Transducer file (default: $" ++ Options.pathVariable ++ ")\n"
    ++ "      --json        Print one JSON object per analysis\n"
    ++ "  -v, --verbose     Debug logging on stderr\n"
    ++ "  -h, --help        Print this help\n"

/-! ## What the arguments ask for -/

inductive Request where
  /-- There is nothing to look up. -/
  | finished (outcome : Outcome)
  | lookUp (path : String) (options : Options)
  deriving DecidableEq, Repr

/-- Bad arguments are reported before help is given, and a transducer is asked
for only then. -/
def Request.ofArguments (fallback : Option String) (args : List String) : Request :=
  match Options.parse args with
  | .error e => .finished (.failure e.message)
  | .ok options =>
    if options.help then .finished { stdout := helpText }
    else
      match Options.resolvePath options.path fallback with
      | .error e => .finished (.failure e.message)
      | .ok path => .lookUp path options

/-! ## The transducer file -/

inductive FileError where
  | absent
  | other (text : String)
  deriving DecidableEq, Repr

def FileError.message : FileError → String
  | absent => "No such file or directory (os error 2)"
  | other text => text

/-- The transducer in the file, or why there is none. -/
def load (path : String) (file : Except FileError (List UInt8)) : Except Outcome Transducer :=
  match file with
  | .error e => .error (.failure ("failed to read " ++ path ++ ": " ++ e.message))
  | .ok data =>
    match Transducer.ofBytes data with
    | .error e => .error (.failure ("failed to load " ++ path ++ ": " ++ e.message))
    | .ok t => .ok t

/-! ## Words -/

/-- The words on standard input, up to the first line that is not UTF-8, and
whether there is such a line. Blanks around a word and blank lines do not count. -/
def inputWords (stdin : List UInt8) : List String × Bool :=
  let lines := (stdin.splitOn 0x0A).map Utf8.decode?
  let texts := (lines.takeWhile Option.isSome).reduceOption
  ((texts.map trimBlanks).filter (· ≠ ""), lines.any Option.isNone)

/-- The lines for one word. As plain text each analysis repeats the word, a word
without analyses has one line that says so, and an empty line ends them. -/
def wordText (json : Bool) (word : String) (analyses : List Analysis) : String :=
  if json then
    String.join (analyses.map fun a =>
      "\x7b\"analysis\":" ++ a.wideJson ++ ",\"input\":" ++ Quoted.text word ++ "\x7d\n")
  else if analyses.isEmpty then
    word ++ "\t" ++ word ++ "+?\tinf\n\n"
  else
    String.join (analyses.map fun a => word ++ "\t" ++ a.line ++ "\n") ++ "\n"

/-- The lines for all words. One search state serves them all. -/
def wordsText (t : Transducer) (json : Bool) (words : List String) : String :=
  (words.foldl
    (fun (s, text) word =>
      let (analyses, s) := t.analyzeWith s word
      (s, text ++ wordText json word analyses))
    (Search.State.fresh, "")).2

/-- Looks up the words among the arguments or, if there are none, those on
standard input. -/
def answer (t : Transducer) (options : Options) (stdin : List UInt8) : Outcome :=
  if options.words.isEmpty then
    let (words, broken) := inputWords stdin
    { stdout := wordsText t options.json words
      stderr :=
        if broken then "error reading stdin: stream did not contain valid UTF-8\n" else "" }
  else
    { stdout := wordsText t options.json options.words }

def run (fallback : Option String) (files : String → Except FileError (List UInt8))
    (stdin : List UInt8) (args : List String) : Outcome :=
  match Request.ofArguments fallback args with
  | .finished outcome => outcome
  | .lookUp path options =>
    match load path (files path) with
    | .error outcome => outcome
    | .ok t => answer t options stdin

end TransducerLookup.CommandLine
