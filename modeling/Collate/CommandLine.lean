import Collate.Plain
import Collate.Utf8

/-!
# The command line

Arguments are taken from left to right. An argument is a flag, a flag with a
value it cannot take, an unknown option, the mark after which all arguments are
files, or a file. An empty file name is noticed only when the next flag takes
effect or when the arguments end, so an unknown option or a surplus value that
comes before that is reported in its place.
-/

namespace Collate

/-- How a run ends, as the caller sees it. -/
inductive ExitStatus
  | success
  | failure
  | usage
  deriving DecidableEq, Repr

namespace ExitStatus

/-- The number that stands for the status. -/
def code : ExitStatus -> Nat
  | success => 0
  | failure => 1
  | usage => 2

end ExitStatus

/-- An option the program knows. None of them takes a value. -/
inductive Flag
  | verbose
  | help
  | version
  deriving DecidableEq, Repr

namespace Flag

/-- The name of a flag after its two dashes. -/
def label : Flag -> Bytes
  | verbose => Bytes.ofText "verbose"
  | help => Bytes.ofText "help"
  | version => Bytes.ofText "version"

/-- The flag with a given name. Names are not abbreviated. -/
def ofLabel? (label : Bytes) : Option Flag :=
  [verbose, help, version].find? (·.label == label)

/-- The flag that a single dash and a letter stand for. -/
def ofLetter? (letter : UInt8) : Option Flag :=
  if letter = 0x68 then some help
  else if letter = 0x56 then some version
  else none

end Flag

/-- What one argument is, as long as options are looked for. -/
inductive Argument
  /-- All arguments after this one are files. -/
  | endOfOptions
  | option (flag : Flag)
  /-- A flag with a value, which it cannot take. -/
  | surplusValue (flag : Flag) (value : Bytes)
  /-- An option the program does not know, as it is shown. -/
  | unknownOption (shown : Bytes)
  | file (path : Bytes)
  deriving DecidableEq

namespace Argument

/-- The dash alone, which is a file. -/
def dash : Bytes := Bytes.ofText "-"

/-- Two dashes, which end the options. -/
def twoDashes : Bytes := Bytes.ofText "--"

/-- Read what follows two dashes. A value begins after the first `=`. -/
def ofLong (rest : Bytes) : Argument :=
  let (label, value) := Bytes.cutAtFirst 0x3D rest
  match Flag.ofLabel? label, value with
  | some flag, none => .option flag
  | some flag, some value => .surplusValue flag value
  | none, _ => .unknownOption (twoDashes ++ Utf8.repair label)

/-- Read what follows a single dash. Its first character decides; what begins
with no character is shown whole. -/
def ofShort (rest : Bytes) : Argument :=
  match rest.head?.bind Flag.ofLetter? with
  | some flag => .option flag
  | none =>
      .unknownOption
        (dash ++ (Utf8.firstCharacter? .ready rest).getD (Utf8.repair rest))

/-- Tell what an argument is. -/
def ofBytes (argument : Bytes) : Argument :=
  if argument = twoDashes then .endOfOptions
  else if twoDashes.isPrefixOf argument then ofLong (argument.drop 2)
  else if argument = dash then .file argument
  else if dash.isPrefixOf argument then ofShort (argument.drop 1)
  else .file argument

end Argument

/-- Why arguments do not lead to a merge. -/
inductive Halt
  /-- Help was asked for. -/
  | help
  /-- The version was asked for. -/
  | version
  /-- A file name is empty. -/
  | emptyFile
  /-- A flag that may stand once stands twice. -/
  | repeatedFlag (flag : Flag)
  /-- A flag has a value. -/
  | surplusValue (flag : Flag) (value : Bytes)
  /-- An option is not known. -/
  | unknownOption (shown : Bytes)
  deriving DecidableEq

namespace Halt

/-- What `--help` prints. -/
def helpText : Bytes :=
  [ "Merge key/value benchmark result files into one tab-separated table.",
    "",
    "Usage: kvmerge [OPTIONS] [FILES]...",
    "",
    "Arguments:",
    "  [FILES]...  Key/value files to merge; one output column per file, in this order",
    "",
    "Options:",
    "      --verbose  Verbose logging",
    "  -h, --help     Print help",
    "  -V, --version  Print version" ].flatMap
    fun line => Bytes.ofText line ++ [Bytes.lineFeed]

/-- What `--version` prints. -/
def versionText : Bytes := Bytes.ofText "kvmerge 0.1.0\n"

/-- A flag as it is named in messages. -/
def shownFlag (flag : Flag) : Bytes :=
  Bytes.ofText "'--" ++ flag.label ++ Bytes.ofText "'"

/-- What is said. Words of the user are freed of control characters. -/
def sentence (medium : Plain.Medium) : Halt -> Bytes
  | help => helpText
  | version => versionText
  | emptyFile =>
      Bytes.ofText "error: a value is required for '[FILES]...' but none was supplied"
  | repeatedFlag flag =>
      Bytes.ofText "error: the argument " ++ shownFlag flag ++
        Bytes.ofText " cannot be used multiple times"
  | surplusValue flag value =>
      Bytes.ofText "error: unexpected value '" ++
        Plain.ofBytes medium (Utf8.repair value) ++
        Bytes.ofText "' for " ++ shownFlag flag ++
        Bytes.ofText " found; no more were expected"
  | unknownOption shown =>
      Bytes.ofText "error: unexpected argument '" ++ Plain.ofBytes medium shown ++
        Bytes.ofText "' found"

/-- Asking for help or the version succeeds; all else is wrong usage. -/
def status : Halt -> ExitStatus
  | help => .success
  | version => .success
  | _ => .usage

/-- What stands before the first line feed, without a carriage return right
before it; all of a text that has no line feed. -/
def firstLine (text : Bytes) : Bytes :=
  match Bytes.cutAtFirst Bytes.lineFeed text with
  | (line, none) => line
  | (line, some _) => if line.getLast? = some 0x0D then line.dropLast else line

/-- What is told in a medium. An error is cut to its first line, without its line
feed. -/
def message (medium : Plain.Medium) (halt : Halt) : Bytes :=
  match halt.status with
  | .success => halt.sentence medium
  | _ => firstLine (halt.sentence medium)

end Halt

/-- What the arguments ask for. -/
structure Invocation where
  /-- The files to merge, in order. -/
  files : List Bytes := []
  /-- Whether `--verbose` was given. -/
  verbose : Bool := false
  deriving DecidableEq

namespace Invocation

/-- Notice an empty file name. -/
def settle (invocation : Invocation) : Except Halt Invocation :=
  if [] ∈ invocation.files then .error .emptyFile else .ok invocation

/-- Let a flag take effect. -/
def apply (invocation : Invocation) : Flag -> Except Halt Invocation
  | .help => .error .help
  | .version => .error .version
  | .verbose =>
      if invocation.verbose then .error (.repeatedFlag .verbose)
      else .ok { invocation with verbose := true }

/-- Take the remaining arguments, after those already taken. -/
def scan : Invocation -> List Bytes -> Except Halt Invocation
  | invocation, [] => invocation.settle
  | invocation, argument :: rest =>
      match Argument.ofBytes argument with
      | .endOfOptions =>
          { invocation with files := invocation.files ++ rest }.settle
      | .file path =>
          scan { invocation with files := invocation.files ++ [path] } rest
      | .surplusValue flag value => .error (.surplusValue flag value)
      | .unknownOption shown => .error (.unknownOption shown)
      | .option flag =>
          match invocation.settle >>= (apply · flag) with
          | .error halt => .error halt
          | .ok next => scan next rest

/-- What a list of arguments asks for, or why it leads to no merge. -/
def ofArguments (arguments : List Bytes) : Except Halt Invocation :=
  scan {} arguments

end Invocation
end Collate
