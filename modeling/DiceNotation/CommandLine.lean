import DiceNotation.Rolling
import DiceNotation.Text.WhiteSpace

/-!
# The Command Line

The words of an invocation are an expression; without words it is the first line of
standard input, and a person at a terminal is asked for it. The expression is rolled and
four lines are printed about it.

- `--check` only says whether the expression can be rolled.
- `--strict` reads it by the strict grammar.
- `--seed N` rolls the dice of a seed.
- `--version` or `-V` prints the version, `--help` or `-h` the help.

The exit code and what is printed are a function of the arguments, of standard input and
whether it is a terminal and, without `--seed`, of a fresh seed. The journal is not printed.
-/

namespace DiceNotation.CommandLine

open Text (Numeral)

/-! ## §1 Arguments -/

/-- What the arguments ask for. -/
structure Options where
  /-- Use the strict grammar. -/
  strict : Bool := false
  /-- Only say whether the expression can be rolled. -/
  check : Bool := false
  /-- Roll the dice of this seed. -/
  seed : Option UInt64 := none
  words : List String := []
deriving DecidableEq

/-- What an invocation is for. -/
inductive Request where
  | roll (options : Options)
  | help
  | version
  /-- The arguments are not understood. -/
  | misused
deriving DecidableEq

/-- Reads a seed: an optional `+` and a numeral below `2^64`. -/
def readSeed? (value : String) : Option UInt64 :=
  match Numeral.read? (Sign.dropPlus value.toList) with
  | some (written, []) => (written.upTo? (UInt64.size - 1)).map UInt64.ofNat
  | _ => none

namespace Options

/-! Each option can be given once only. -/

def withStrict? (options : Options) : Option Options :=
  if options.strict then none else some { options with strict := true }

def withCheck? (options : Options) : Option Options :=
  if options.check then none else some { options with check := true }

def withSeed? (options : Options) (value : String) : Option Options :=
  match options.seed with
  | some _ => none
  | none => (readSeed? value).map fun seed => { options with seed := some seed }

def addWords (options : Options) (words : List String) : Options :=
  { options with words := options.words ++ words }

end Options

/-- Whether an argument asks for something that is done at once, by a letter or by a name. The
letters behind a single dash are options of their own, read from left to right: nothing behind
this one is read. -/
def asksFor (letter : Char) (name argument : String) : Bool :=
  match argument.toList with
  | '-' :: first :: _ => first = letter || argument = name
  | _ => false

/-- Whether an argument is written like an option. A `-` alone is a word. -/
def isOptionLike (argument : String) : Bool :=
  match argument.toList with
  | '-' :: _ :: _ => true
  | _ => false

/-- The value of `--seed=VALUE`. -/
def attachedSeed? (argument : String) : Option String :=
  if "--seed=".toList.isPrefixOf argument.toList then
    some (String.ofList (argument.toList.drop "--seed=".length))
  else
    none

/-- What an argument is, whatever stands before it. -/
inductive Argument where
  /-- Behind it there are words only. -/
  | delimiter
  | help
  | version
  | strict
  | check
  /-- The next argument is its value. -/
  | seed
  | attachedSeed (value : String)
  /-- There is no such option. -/
  | unknown
  | word
deriving DecidableEq

def Argument.of (argument : String) : Argument :=
  if argument = "--" then .delimiter
  else if asksFor 'h' "--help" argument then .help
  else if asksFor 'V' "--version" argument then .version
  else if argument = "--strict" then .strict
  else if argument = "--check" then .check
  else if argument = "--seed" then .seed
  else
    match attachedSeed? argument with
    | some value => .attachedSeed value
    | none => if isOptionLike argument then .unknown else .word

/-- Reads arguments from left to right, after those that gave the options so far. The first one
that is not understood or asks for the help or the version decides. -/
def readArguments : List String → Options → Request
  | [], options => .roll options
  | argument :: rest, options =>
    match Argument.of argument with
    | .delimiter => .roll (options.addWords rest)
    | .help => .help
    | .version => .version
    | .strict => options.withStrict?.elim .misused (readArguments rest)
    | .check => options.withCheck?.elim .misused (readArguments rest)
    | .seed =>
      match rest with
      | [] => .misused
      | value :: rest => (options.withSeed? value).elim .misused (readArguments rest)
    | .attachedSeed value => (options.withSeed? value).elim .misused (readArguments rest)
    | .unknown => .misused
    | .word => readArguments rest (options.addWords [argument])

def Request.ofArguments (arguments : List String) : Request :=
  readArguments arguments {}

/-! ## §2 The expression -/

/-- Standard input: its bytes, and whether a person types them. -/
structure StandardInput where
  bytes : List UInt8
  terminal : Bool := false
deriving DecidableEq

/-- Bytes alone are not typed. -/
instance : Coe (List UInt8) StandardInput where
  coe bytes := { bytes }

/-- The first line of some bytes, without the white space at its end, if it is UTF-8. -/
def firstLine? (bytes : List UInt8) : Option String :=
  (String.fromUTF8? (bytes.takeWhile (· ≠ 10)).toByteArray).map Text.trimEnd

/-- The expression: the words with a space between them, or the first line of standard
input. -/
def Options.expression? (options : Options) (bytes : List UInt8) : Option String :=
  match options.words with
  | [] => firstLine? bytes
  | words => some (" ".intercalate words)

/-- The grammar that is asked for. -/
def Options.grammar (options : Options) : Grammar :=
  if options.strict then .strict else .lenient

/-! ## §3 What is printed -/

/-- What a person is asked before typing an expression. -/
def question : String :=
  "Enter dice expression: "

def versionLine : String :=
  "dicebag 0.1.0\n"

def usageLine : String :=
  "Usage: dicebag [OPTIONS] [EXPRESSION]...\n"

def description : String :=
  "Tabletop dice notation (\"2d6+3\", \"d20-1\") parsing and rolling with readable breakdowns\n"

/-- The help, in plain text without styles. -/
def helpText : String :=
  description ++
  "\n" ++
  usageLine ++
  "\n" ++
  "Arguments:\n" ++
  "  [EXPRESSION]...  Expression to roll. Multiple words are joined with spaces, so it can be " ++
  "left unquoted. When omitted, the expression is read from stdin\n" ++
  "\n" ++
  "Options:\n" ++
  "      --strict       Reject anything that isn't a dice term or a \"+\" between terms, " ++
  "instead of ignoring it\n" ++
  "      --seed <SEED>  Seed for the random number generator, to make rolls reproducible\n" ++
  "      --check        Only check whether the expression is valid\n" ++
  "  -h, --help         Print help\n" ++
  "  -V, --version      Print version\n"

/-- What an invocation complains about on standard error. -/
inductive Complaint where
  | silent
  | line (text : String)
  | usage
  /-- The syntax errors of an expression, pointing into its normal form. -/
  | diagrams (text : String) (errors : List SyntaxError)
deriving DecidableEq

/-- A complaint as it is written, in lines without any drawing. -/
def Complaint.text : Complaint → String
  | silent => ""
  | line text => text ++ "\n"
  | usage => usageLine ++ "\nFor more information, try '--help'.\n"
  | diagrams text errors =>
    "Invalid dice expression: " ++ text ++ "\n" ++
      String.join (errors.map fun error => "  " ++ error.text ++ "\n")

/-- What an invocation does. -/
structure Exit where
  code : Nat
  stdout : String
  complaint : Complaint := .silent
deriving DecidableEq

/-- The same exit, with a question printed before. -/
def Exit.behind (exit : Exit) (asked : String) : Exit :=
  { exit with stdout := asked ++ exit.stdout }

@[simp]
theorem Exit.code_behind (exit : Exit) (asked : String) : (exit.behind asked).code = exit.code :=
  rfl

@[simp]
theorem Exit.stdout_behind (exit : Exit) (asked : String) :
    (exit.behind asked).stdout = asked ++ exit.stdout :=
  rfl

@[simp]
theorem Exit.complaint_behind (exit : Exit) (asked : String) :
    (exit.behind asked).complaint = exit.complaint :=
  rfl

/-- The four lines about a tally. -/
def report (tally : Tally) : String :=
  "Input: " ++ tally.expression ++ "\n" ++
  "Terms: " ++ tally.canonical ++ "\n" ++
  "Breakdown: " ++ tally.breakdown ++ "\n" ++
  "Total: " ++ Score.text tally.total ++ "\n"

/-- The answer to `--check`. -/
def checked (accepted : Bool) : Exit :=
  if accepted then { code := 0, stdout := "valid\n" } else { code := 1, stdout := "invalid\n" }

/-- The answer for an expression that was rolled or refused. -/
def rolled : Except NotationError Tally → Exit
  | .ok tally => { code := 0, stdout := report tally }
  | .error (.malformed text errors) =>
    { code := 1, stdout := "", complaint := .diagrams text errors }
  | .error error =>
    { code := 1, stdout := "", complaint := .line ("Error rolling dice: " ++ error.message) }

/-! ## §4 Invocations -/

/-- What is printed before the expression is read: a question, if a person types it. -/
def Options.prompt (options : Options) (terminal : Bool) : String :=
  if options.words.isEmpty && terminal then question else ""

def Request.prompt : Request → Bool → String
  | .roll options, terminal => options.prompt terminal
  | _, _ => ""

/-- Rolls or checks the expression of some options. -/
def Options.answer (options : Options) (bytes : List UInt8) (fresh : UInt64) : Exit :=
  match options.expression? bytes with
  | none =>
    { code := 1
      stdout := ""
      complaint := .line "Unable to read expression: stream did not contain valid UTF-8" }
  | some expression =>
    if options.check then checked (options.grammar.accepts expression)
    else rolled (rollSeeded options.grammar (options.seed.getD fresh) expression)

def Request.answer : Request → List UInt8 → UInt64 → Exit
  | .roll options, bytes, fresh => options.answer bytes fresh
  | .help, _, _ => { code := 0, stdout := helpText }
  | .version, _, _ => { code := 0, stdout := versionLine }
  | .misused, _, _ => { code := 2, stdout := "", complaint := .usage }

/-- What an invocation does, given its arguments, its standard input and a fresh seed. -/
def run (arguments : List String) (input : StandardInput) (fresh : UInt64) : Exit :=
  let request := Request.ofArguments arguments
  (request.answer input.bytes fresh).behind (request.prompt input.terminal)

end DiceNotation.CommandLine
