/-
# The command line

Reads the arguments of the program and says what it prints, with which exit code,
and what it reports. Arguments are read from left to right; an option may be given
once, and its value may not look like an option. Options that need each other are
checked at the end.

Key definitions: `CommandLine.Request.ofArgs`, `CommandLine.run`.
-/
import FlowSelect.Journal
import FlowSelect.Row.Codec
import FlowSelect.Schema.Builtin

namespace FlowSelect
namespace CommandLine

/-- The options of the program. -/
structure Options where
  filter : Option String := none
  schemaPath : Option String := none
  windowStart : Option String := none
  windowStop : Option String := none
  row : Option String := none
  listColumns : Bool := false
  deriving DecidableEq, Repr

/-- What the arguments ask for. -/
inductive Request where
  | work (options : Options)
  | version
  | help
  | misuse
  deriving DecidableEq, Repr

/-- The options that take a value. -/
inductive ValueOption where
  | schema | start | stop | check
  deriving DecidableEq, Repr

/-- The options that take no value. -/
inductive Switch where
  | listColumns | help | version
  deriving DecidableEq, Repr

/-- The option with a long name. -/
def longOption? : String → Option (ValueOption ⊕ Switch)
  | "schema" => some (.inl .schema)
  | "from" => some (.inl .start)
  | "to" => some (.inl .stop)
  | "check" => some (.inl .check)
  | "list-columns" => some (.inr .listColumns)
  | "help" => some (.inr .help)
  | "version" => some (.inr .version)
  | _ => none

/-- The option with a letter. -/
def shortOption? : Char → Option (ValueOption ⊕ Switch)
  | 's' => some (.inl .schema)
  | 'c' => some (.inl .check)
  | 'h' => some (.inr .help)
  | 'V' => some (.inr .version)
  | _ => none

namespace Options

/-- Gives an option its value. An option has at most one value, and a path has at
least one character. -/
def set? (o : Options) (option : ValueOption) (value : String) : Option Options :=
  match option with
  | .schema =>
    if o.schemaPath.isSome || value.isEmpty then none
    else some { o with schemaPath := some value }
  | .start => if o.windowStart.isSome then none else some { o with windowStart := some value }
  | .stop => if o.windowStop.isSome then none else some { o with windowStop := some value }
  | .check => if o.row.isSome then none else some { o with row := some value }

/-- Gives the filter, of which there is at most one. -/
def setFilter? (o : Options) (value : String) : Option Options :=
  if o.filter.isSome then none else some { o with filter := some value }

/-- The two ends of a time window are given together. -/
def isComplete (o : Options) : Bool := o.windowStart.isSome == o.windowStop.isSome

end Options

/-- How an argument is read. -/
inductive Argument where
  | separator
  | long (name : String) (value : Option String)
  | short (letters : List Char)
  | plain (text : String)
  deriving DecidableEq, Repr

/-- Classifies an argument; a lone `-` is plain. -/
def Argument.ofText (text : String) : Argument :=
  match text.toList with
  | ['-', '-'] => .separator
  | '-' :: '-' :: cs =>
    match Text.cutAt? '=' cs with
    | some (name, value) => .long (String.ofList name) (some (String.ofList value))
    | none => .long (String.ofList cs) none
  | '-' :: c :: cs => .short (c :: cs)
  | _ => .plain text

/-- The value attached to a letter: what follows it, without an equals sign. -/
def attached? : List Char → Option String
  | [] => none
  | '=' :: cs => some (String.ofList cs)
  | cs => some (String.ofList cs)

/-- What has been read so far: the options, and an option that still waits for
its value; or a final answer. -/
inductive Progress where
  | going (options : Options) (waiting : Option ValueOption)
  | done (request : Request)
  deriving DecidableEq, Repr

/-- Continues with changed options, or ends in misuse. -/
def Progress.ofOptions? : Option Options → Progress
  | some o => .going o none
  | none => .done .misuse

/-- Turns a switch on. -/
def turnOn (o : Options) : Switch → Progress
  | .help => .done .help
  | .version => .done .version
  | .listColumns =>
    if o.listColumns then .done .misuse else .going { o with listColumns := true } none

/-- Reads a group of option letters. -/
def readLetters (o : Options) : List Char → Progress
  | [] => .going o none
  | c :: cs =>
    match shortOption? c with
    | none => .done .misuse
    | some (.inl option) =>
      match attached? cs with
      | some value => .ofOptions? (o.set? option value)
      | none => .going o (some option)
    | some (.inr switch) =>
      match turnOn o switch with
      | .going o _ => readLetters o cs
      | finished => finished

/-- Reads an option with a long name. -/
def readLong (o : Options) (name : String) (value : Option String) : Progress :=
  match longOption? name, value with
  | some (.inl option), some value => .ofOptions? (o.set? option value)
  | some (.inl option), none => .going o (some option)
  | some (.inr switch), none => turnOn o switch
  | _, _ => .done .misuse

/-- Reads the arguments after the separator, which are all plain. -/
def readPlain (o : Options) : List String → Request
  | [] => if o.isComplete then .work o else .misuse
  | text :: texts =>
    match o.setFilter? text with
    | some o => readPlain o texts
    | none => .misuse

/-- Reads the arguments. -/
def readArgs : (options : Options) → (waiting : Option ValueOption) → List String → Request
  | o, none, [] => if o.isComplete then .work o else .misuse
  | _, some _, [] => .misuse
  | o, some option, text :: texts =>
    match Argument.ofText text with
    | .plain value =>
      match o.set? option value with
      | some o => readArgs o none texts
      | none => .misuse
    | _ => .misuse
  | o, none, text :: texts =>
    match Argument.ofText text with
    | .separator => readPlain o texts
    | .plain value =>
      match o.setFilter? value with
      | some o => readArgs o none texts
      | none => .misuse
    | .short letters =>
      match readLetters o letters with
      | .going o waiting => readArgs o waiting texts
      | .done request => request
    | .long name value =>
      match readLong o name value with
      | .going o waiting => readArgs o waiting texts
      | .done request => request

/-- What the arguments ask for. -/
def Request.ofArgs (args : List String) : Request := readArgs {} none args

/-- What the program prints, its exit code, and its journal. -/
structure Outcome where
  exitCode : Nat
  output : String
  journal : Journal
  deriving DecidableEq, Repr

namespace Outcome

/-- A failure that is reported in the journal only. -/
def failure (message : String) : Outcome :=
  { exitCode := 1, output := "", journal := [⟨.error, .program, message⟩] }

end Outcome

/-- A line of output. -/
def line (text : String) : String := text ++ "\n"

/-- The schema to use. `file` is the content of the file with a path. -/
def loadSchema (file : String → Except Schema.FileFault String) (path : Option String) :
    Except String Schema :=
  match path with
  | none => .ok Schema.builtin
  | some path =>
    let loading := "loading schema from " ++ path ++ ": "
    match file path with
    | .error fault =>
      .error (loading ++ (Schema.LoadFault.unreadable fault).message ++ ": " ++ fault.message)
    | .ok text =>
      match Schema.load text with
      | .ok s => .ok s
      | .error fault => .error (loading ++ fault.message)

/-- The time window between two timestamps. -/
def window (start stop : String) : Except String TimeWindow :=
  match Timestamp.parse start with
  | .error fault => .error ("--from " ++ start ++ ": " ++ fault.message)
  | .ok a =>
    match Timestamp.parse stop with
    | .error fault => .error ("--to " ++ stop ++ ": " ++ fault.message)
    | .ok b =>
      if b.toInt < a.toInt then
        .error ("time window starts after it ends: " ++ start ++ " > " ++ stop)
      else .ok { start := a, stop := b }

/-- The time window of the options, if they give one. -/
def windowOf (o : Options) : Except String (Option TimeWindow) :=
  match o.windowStart, o.windowStop with
  | some start, some stop => (window start stop).map some
  | _, _ => .ok none

/-- Evaluates a filter on a row given as text, after `outcome`. -/
def checkRow (f : Filter) (text : String) (outcome : Outcome) : Outcome :=
  match Row.parse? text with
  | none =>
    { exitCode := 1
      output := outcome.output
      journal := outcome.journal ++ [⟨.error, .program, "parsing --check row"⟩] }
  | some row =>
    if f.accepts row then { outcome with output := outcome.output ++ line "match" }
    else { outcome with exitCode := 1, output := outcome.output ++ line "no match" }

/-- Compiles a configuration, prints its engine text and checks a row. -/
def compileAndCheck (c : Configuration) (row : Option String) : Outcome :=
  let journal := Filter.journal c
  match Filter.compile c with
  | .error _ => { exitCode := 1, output := "", journal }
  | .ok f =>
    let notice : Journal :=
      if f.needsRow then
        [⟨.info, .program,
          "filter contains decoded string comparisons, rows need a local check"⟩]
      else []
    let outcome : Outcome :=
      { exitCode := 0, output := line f.engineText, journal := journal ++ notice }
    match row with
    | some text => checkRow f text outcome
    | none => outcome

/-- The aliases of a schema in alphabetical order, one on each line. -/
def listing (s : Schema) : String :=
  line (String.intercalate "\n" (s.aliases.mergeSort fun a b => decide (a ≤ b)))

/-- Does what the options ask for. -/
def work (file : String → Except Schema.FileFault String) (o : Options) : Outcome :=
  match loadSchema file o.schemaPath with
  | .error message => .failure message
  | .ok schema =>
    if o.listColumns then { exitCode := 0, output := listing schema, journal := [] }
    else
      match windowOf o with
      | .error message => .failure message
      | .ok window =>
        compileAndCheck { filter := o.filter.getD "", schema, window } o.row

/-- The text of `--version`. -/
def versionText : String := "flowfilter 0.2.0"

/-- The text of `--help`. -/
def helpText : String :=
  String.intercalate "\n"
    [ "Compile a flow filter into query engine predicate text",
      "",
      "Usage: flowfilter [OPTIONS] [FILTER]",
      "",
      "  [FILTER]              filter expression, e.g. '%sa 10.0.0.0/8 and %dp > 1024'",
      "  -s, --schema <FILE>   JSON schema file, the built-in schema when omitted",
      "      --from <TIME>     start of the time window (YYYY/MM/DD.hh:mm:ss, UTC)",
      "      --to <TIME>       end of the time window (YYYY/MM/DD.hh:mm:ss, UTC)",
      "  -c, --check <ROW>     JSON object of column values to evaluate the filter against",
      "      --list-columns    print the aliases known to the schema and exit",
      "  -h, --help            print help",
      "  -V, --version         print version" ]

/-- Runs the program on its arguments. -/
def run (file : String → Except Schema.FileFault String) (args : List String) : Outcome :=
  match Request.ofArgs args with
  | .work o => work file o
  | .version => { exitCode := 0, output := line versionText, journal := [] }
  | .help => { exitCode := 0, output := line helpText, journal := [] }
  | .misuse => { exitCode := 2, output := "", journal := [] }

/-- The entries of a journal that are printed at a verbosity: the most detailed
rank that is kept. -/
def visible (verbosity : Nat) (journal : Journal) : Journal :=
  journal.filter fun e => e.level.rank ≤ verbosity

/-- The verbosity with a name; anything else turns the journal off. -/
def verbosity : String → Nat
  | "error" => 1
  | "warn" => 1
  | "info" => 2
  | "debug" => 3
  | "trace" => 3
  | _ => 0

end CommandLine
end FlowSelect
