import RestPlugin.Report.Entry
import RestPlugin.Text.Ascii

/-!
# Command-line arguments

A command line names one command, with flags before and after it.  Short flags can be joined, a
value can follow its flag directly, after an equals sign or as the next argument, and the flags for
how much is logged may stand on either side of the command.
-/

namespace RestPlugin.Command

open Report

/-- The flags of the command line. -/
inductive Flag where
  | verbose
  | quiet
  | version
  | config
  | output
  | dryRun
  | force
  | pretty
deriving DecidableEq, Repr, Inhabited

namespace Flag

/-- The long name of a flag. -/
def long : Flag → String
  | verbose => "verbose"
  | quiet => "quiet"
  | version => "version"
  | config => "config"
  | output => "output"
  | dryRun => "dry-run"
  | force => "force"
  | pretty => "pretty"

/-- The letter of a flag. -/
def letter : Flag → Option Char
  | verbose => some 'v'
  | quiet => some 'q'
  | version => some 'V'
  | config => some 'c'
  | output => some 'o'
  | force => some 'f'
  | dryRun | pretty => none

/-- Whether a flag has a value. -/
def hasValue : Flag → Bool
  | config | output => true
  | verbose | quiet | version | dryRun | force | pretty => false

end Flag

/-- A flag on the command line, with its value. -/
structure Given where
  flag : Flag
  value : Option String := none
deriving DecidableEq, Repr, Inhabited

/-- What is wrong with a command line. -/
inductive UsageError where
  | unexpected (argument : String)
  | missingValue (flag : Flag)
  | repeated (flag : Flag)
  | quietAndVerbose
  | missingCommand
deriving DecidableEq, Repr, Inhabited

/-- The message of a usage error. -/
def UsageError.message : UsageError → String
  | unexpected argument => s!"unexpected argument '{argument}'"
  | missingValue flag => "a value is required for '--" ++ flag.long ++ "'"
  | repeated flag => "the argument '--" ++ flag.long ++ "' cannot be used multiple times"
  | quietAndVerbose => "the argument '--quiet' cannot be used with '--verbose'"
  | missingCommand => "a command is required"

/-- Adds a flag.  Only `verbose` may be repeated, and a value must not be empty. -/
def addFlag (given : List Given) (flag : Flag) (value : Option String) :
    Except UsageError (List Given) :=
  if value == some "" then .error (.missingValue flag)
  else if flag != .verbose && given.any (·.flag == flag) then .error (.repeated flag)
  else .ok (given ++ [⟨flag, value⟩])

/-- What joined short flags come to. -/
inductive Joined where
  | version
  | complete (given : List Given)
  | awaits (given : List Given) (flag : Flag)

/-- Reads joined short flags. -/
def readJoined (allowed : List Flag) : List Given → List Char → Except UsageError Joined
  | given, [] => .ok (.complete given)
  | given, c :: rest =>
      match allowed.find? fun flag => flag.letter == some c with
      | none => .error (.unexpected (String.ofList ['-', c]))
      | some .version => .ok .version
      | some flag =>
          if flag.hasValue then
            match rest with
            | [] => .ok (.awaits given flag)
            | '=' :: value => (addFlag given flag (some (String.ofList value))).map .complete
            | value => (addFlag given flag (some (String.ofList value))).map .complete
          else
            match addFlag given flag none with
            | .error error => .error error
            | .ok given => readJoined allowed given rest

/-- Reads a long flag, given without its dashes. -/
def readLong (allowed : List Flag) (given : List Given) (text : List Char) :
    Except UsageError Joined :=
  let name := text.takeWhile (· != '=')
  let value := match text.dropWhile (· != '=') with
    | [] => none
    | _ :: value => some (String.ofList value)
  let unexpected := UsageError.unexpected (String.ofList ('-' :: '-' :: text))
  match allowed.find? fun flag => flag.long == String.ofList name with
  | none => .error unexpected
  | some flag =>
      match flag.hasValue, value with
      | true, none => .ok (.awaits given flag)
      | true, some value => (addFlag given flag (some value)).map .complete
      | false, some _ => .error unexpected
      | false, none =>
          if flag == .version then .ok .version else (addFlag given flag none).map .complete

/-- Whether an argument is a flag and no value. -/
def looksLikeFlag (argument : String) : Bool :=
  Text.startsWith argument "-" && argument != "-"

/-- The flags of one level of a command line. -/
inductive Flags where
  | version
  | given (flags : List Given) (rest : List String)

/-- Reads flags up to the first argument that is none. -/
def readFlags (allowed : List Flag) : List Given → List String → Except UsageError Flags
  | given, [] => .ok (.given given [])
  | given, argument :: rest =>
      if argument == "--" then
        match rest with
        | [] => .ok (.given given [])
        | next :: _ => .error (.unexpected next)
      else if looksLikeFlag argument then
        let joined := match argument.toList with
          | '-' :: '-' :: text => readLong allowed given text
          | _ :: text => readJoined allowed given text
          | [] => .ok (.complete given)
        match joined with
        | .error error => .error error
        | .ok .version => .ok .version
        | .ok (.complete given) => readFlags allowed given rest
        | .ok (.awaits given flag) =>
            match rest with
            | [] => .error (.missingValue flag)
            | value :: rest =>
                if looksLikeFlag value then .error (.missingValue flag)
                else
                  match addFlag given flag (some value) with
                  | .error error => .error error
                  | .ok given => readFlags allowed given rest
      else .ok (.given given (argument :: rest))

/-- Where a configuration is looked for if none is named. -/
def defaultConfig : String := "wpk.config.toml"

/-- What is to be done. -/
inductive Job where
  | check (config : String)
  | generate (config output : String) (dryRun force : Bool)
  | ir (config : String) (pretty : Bool)
deriving DecidableEq, Repr, Inhabited

/-- A command line that can be carried out. -/
inductive Request where
  | version
  | perform (limit : Level) (job : Job)
deriving DecidableEq, Repr, Inhabited

/-- Whether a flag was given. -/
def isGiven (flag : Flag) (given : List Given) : Bool := given.any (·.flag == flag)

/-- The value of a flag, or a default. -/
def valueOf (flag : Flag) (fallback : String) (given : List Given) : String :=
  ((given.find? (·.flag == flag)).bind Given.value).getD fallback

/-- How often `verbose` was given. -/
def verbosity (given : List Given) : Nat := (given.filter (·.flag == .verbose)).length

/-- The least severe level that is logged. -/
def levelLimit (quiet : Bool) (verbose : Nat) : Level :=
  if quiet then .error
  else
    match verbose with
    | 0 => .warn
    | 1 => .info
    | 2 => .debug
    | _ => .trace

/-- A command, by its name, from the flags after it. -/
def commandOf (name : String) : Option (List Flag × (List Given → Job)) :=
  match name with
  | "check" => some ([.config], fun given => .check (valueOf .config defaultConfig given))
  | "generate" =>
      some ([.config, .output, .dryRun, .force], fun given =>
        .generate (valueOf .config defaultConfig given) (valueOf .output "." given)
          (isGiven .dryRun given) (isGiven .force given))
  | "ir" =>
      some ([.config, .pretty], fun given =>
        .ir (valueOf .config defaultConfig given) (isGiven .pretty given))
  | _ => none

/-- Refuses `quiet` and `verbose` on the same side of the command. -/
def checkLoudness (given : List Given) : Except UsageError Unit :=
  if isGiven .quiet given && isGiven .verbose given then .error .quietAndVerbose else .ok ()

/-- Reads what follows the flags before the command. -/
def readCommand (before : List Given) : List String → Except UsageError Request
  | [] => .error .missingCommand
  | name :: arguments =>
      match commandOf name with
      | none => .error (.unexpected name)
      | some (allowed, job) => do
          match ← readFlags (allowed ++ [.verbose, .quiet]) [] arguments with
          | .version => .ok .version
          | .given _ (argument :: _) => .error (.unexpected argument)
          | .given after [] =>
              checkLoudness after
              checkLoudness before
              let verbose := if isGiven .verbose after then verbosity after else verbosity before
              let quiet := isGiven .quiet before || isGiven .quiet after
              .ok (.perform (levelLimit quiet verbose) (job after))

/-- Reads a command line. -/
def readArguments (arguments : List String) : Except UsageError Request := do
  match ← readFlags [.verbose, .quiet, .version] [] arguments with
  | .version => .ok .version
  | .given before rest => readCommand before rest

end RestPlugin.Command
