import Treewalk.Program.Dump
import Treewalk.Program.Printer
import Treewalk.Session

/-!
# The command line

The command line is a function from arguments, a file and the input to an exit code and to what is
written on the two outputs. Writing comes out as a list of emissions, so that the outer layer only
has to print them one after the other.
-/

namespace Treewalk

set_option autoImplicit false

inductive Command where
  | run (path : String) (maxCallDepth : Nat)
  | repl (maxCallDepth : Nat)
  | tokens (path : String)
  | parse (path : String) (dump : Bool)
  | check (path : String)
deriving DecidableEq, Inhabited

namespace Command

def path? : Command → Option String
  | run path _ => some path
  | repl _ => none
  | tokens path => some path
  | parse path _ => some path
  | check path => some path

end Command

inductive Invocation where
  | command (command : Command)
  | version
  | help
  | misuse
deriving DecidableEq, Inhabited

structure Accepted where
  path : Bool
  depth : Bool
  dump : Bool
deriving Inhabited

structure Arguments where
  path : Option String
  depth : Option Nat
  dump : Bool
deriving Inhabited

namespace Arguments

def none : Arguments :=
  ⟨.none, .none, false⟩

def limit (arguments : Arguments) : Nat :=
  arguments.depth.getD Config.defaultCallDepth

def natural? (text : String) : Option Nat :=
  let digits := match text.toList with
    | '+' :: rest => rest
    | other => other
  if digits.isEmpty || !(digits.all Chunk.isDigit) then .none
  else
    let value := (Decimal.ofDigits digits []).significand
    if value < Nat.pow 2 64 then some value else .none

def withPath? (accepted : Accepted) (text : String) (arguments : Arguments) : Option Arguments :=
  if accepted.path && arguments.path.isNone && !text.isEmpty then
    some { arguments with path := some text }
  else .none

def withDepth? (accepted : Accepted) (text : String) (arguments : Arguments) : Option Arguments :=
  match natural? text with
  | some depth =>
      if accepted.depth && arguments.depth.isNone then some { arguments with depth := some depth }
      else .none
  | .none => .none

def withDump? (accepted : Accepted) (arguments : Arguments) : Option Arguments :=
  if accepted.dump && !arguments.dump then some { arguments with dump := true } else .none

/-- Whether an argument asks for help: the long option, or short ones in a row of which the first
does. -/
def asksHelp (text : String) : Bool :=
  text = "--help" || text.startsWith "-h"

def asksVersion (text : String) : Bool :=
  text = "--version" || text.startsWith "-V"

/-- Whether an argument is an option and not a value; a hyphen alone is a value. -/
def isOption (text : String) : Bool :=
  match text.toList with
  | '-' :: _ :: _ => true
  | _ => false

end Arguments

inductive ArgumentsRead where
  | all (arguments : Arguments)
  | help
  | wrong
deriving Inhabited

namespace ArgumentsRead

def depthOption : String := "--max-call-depth"

def paths (accepted : Accepted) : List String → Arguments → ArgumentsRead
  | [], arguments => all arguments
  | text :: rest, arguments =>
      match arguments.withPath? accepted text with
      | some noted => paths accepted rest noted
      | none => wrong

def attached? (option text : String) : Option String :=
  if text.startsWith (option ++ "=") then some (text.drop (option.length + 1)).toString else none

/-- Reads the arguments of a command from left to right. Two hyphens alone end the options. -/
def read (accepted : Accepted) : List String → Arguments → ArgumentsRead
  | [], arguments => all arguments
  | text :: rest, arguments =>
      let continueWith (noted : Option Arguments) : ArgumentsRead :=
        match noted with
        | some noted => read accepted rest noted
        | none => wrong
      if text = "--" then paths accepted rest arguments
      else if Arguments.asksHelp text then help
      else if text = "--print-ast" then continueWith (arguments.withDump? accepted)
      else if text = depthOption then
        match rest with
        | [] => wrong
        | value :: after =>
            if Arguments.isOption value then wrong
            else
              match arguments.withDepth? accepted value with
              | some noted => read accepted after noted
              | none => wrong
      else
        match attached? depthOption text with
        | some value => continueWith (arguments.withDepth? accepted value)
        | none =>
            if Arguments.isOption text then wrong
            else continueWith (arguments.withPath? accepted text)

end ArgumentsRead

namespace Invocation

def onFile (accepted : Accepted) (rest : List String) (command : String → Arguments → Command) :
    Invocation :=
  match ArgumentsRead.read accepted rest Arguments.none with
  | .all arguments =>
      match arguments.path with
      | some path => .command (command path arguments)
      | none => .misuse
  | .help => .help
  | .wrong => .misuse

def session : Invocation :=
  .command (.repl Config.defaultCallDepth)

def onHelp : List String → Invocation
  | [] => .help
  | [name] =>
      if ["run", "repl", "tokens", "parse", "check", "help"].contains name then .help else .misuse
  | _ => .misuse

/-- Reads arguments that do not start with a command. Two hyphens alone ask for nothing. -/
def withoutCommand (text : String) (rest : List String) : Invocation :=
  if Arguments.asksHelp text then .help
  else if Arguments.asksVersion text then .version
  else if text = "--" && rest.isEmpty then session
  else .misuse

def ofArguments : List String → Invocation
  | [] => session
  | "help" :: names => onHelp names
  | "run" :: rest =>
      onFile ⟨true, true, false⟩ rest fun path arguments => .run path arguments.limit
  | "repl" :: rest =>
      match ArgumentsRead.read ⟨false, true, false⟩ rest Arguments.none with
      | .all arguments => .command (.repl arguments.limit)
      | .help => .help
      | .wrong => .misuse
  | "tokens" :: rest => onFile ⟨true, false, false⟩ rest fun path _ => .tokens path
  | "parse" :: rest =>
      onFile ⟨true, false, true⟩ rest fun path arguments => .parse path arguments.dump
  | "check" :: rest => onFile ⟨true, false, false⟩ rest fun path _ => .check path
  | text :: rest => withoutCommand text rest

end Invocation

inductive Emission where
  | out (text : String)
  | err (text : String)
deriving DecidableEq, Inhabited

namespace Emission

def out? : Emission → Option String
  | out text => some text
  | err _ => none

def err? : Emission → Option String
  | out _ => none
  | err text => some text

end Emission

structure Finished where
  code : Nat
  emissions : List Emission
deriving DecidableEq, Inhabited

namespace Finished

def stdout (finished : Finished) : String :=
  String.join (finished.emissions.filterMap Emission.out?)

def stderr (finished : Finished) : String :=
  String.join (finished.emissions.filterMap Emission.err?)

end Finished

/-- What stands around a command: the file that it names, what can be read from the input, whether
the error output shows colours, what the clock shows, and how long the check is said to take. -/
structure Surroundings where
  file : Except Fault (List UInt8)
  input : String
  coloured : Bool
  clock : Nat → Float
  elapsed : String

structure Status where
  word : String
  colour : String
deriving Inhabited

namespace Status

def parsing : Status := ⟨"Parsing", "14"⟩

def analyzing : Status := ⟨"Analyzing", "13"⟩

def analyzed : Status := ⟨"Analyzed", "10"⟩

def line (coloured : Bool) (status : Status) (text : String) : Emission :=
  let word := String.ofList (List.replicate (11 - status.word.length) ' ') ++ status.word
  if coloured then
    .err (Report.control "0" ++ Report.control "1" ++ Report.control ("38;5;" ++ status.colour)
      ++ word ++ Report.control "0" ++ " " ++ text ++ "\n")
  else .err (word ++ " " ++ text ++ "\n")

end Status

namespace Command

def showWarnings (coloured : Bool) (document : Document) (warnings : List Warning) :
    List Emission :=
  warnings.map fun warning => .err ((warning.report document).block coloured)

def failing (coloured : Bool) (document : Document) (before : List Emission) (failure : Failure) :
    Finished :=
  ⟨failure.exitCode, before ++ [.err (failure.text coloured document)]⟩

def showRun (coloured : Bool) (document : Document) (ran : Ran) : List Emission :=
  showWarnings coloured document ran.warnings
    ++ ran.output.toList.map fun line => .out (line ++ "\n")

def runScript [CharReader] (units : Nat) (around : Surroundings) (path : String) (limit : Nat) :
    Option Finished :=
  let analyzed := analyzeFile around.file
  let document : Document := ⟨path, analyzed.source⟩
  match (Session.start ⟨limit, around.clock⟩).runAnalysis units analyzed.analysis with
  | none => none
  | some (ran, _) =>
      let shown := showRun around.coloured document ran
      match ran.result with
      | .ok _ => some ⟨0, shown⟩
      | .error failure => some (failing around.coloured document shown failure)

def listTokens (around : Surroundings) (path : String) : Finished :=
  match around.file.bind readWhole with
  | .error fault => failing around.coloured ⟨path, ""⟩ [] (.reading fault)
  | .ok source =>
      match scan source with
      | .ok listed => ⟨0, listed.map fun token => .out (token.listing ++ "\n")⟩
      | .error errors => ⟨65, errors.map fun error => .err (error.headline ++ "\n")⟩

def printProgram (around : Surroundings) (path : String) (dump : Bool) : Finished :=
  let status := Status.parsing.line around.coloured path
  match around.file.bind readWhole with
  | .error fault => failing around.coloured ⟨path, ""⟩ [status] (.reading fault)
  | .ok source =>
      match Treewalk.parse source with
      | .ok program =>
          let shown := if dump then Program.dump program else Program.source program
          ⟨0, [status, .out (shown ++ "\n")]⟩
      | .error errors => failing around.coloured ⟨path, source⟩ [status] (.parsing errors)

def showAnalyzed (around : Surroundings) (path : String) (analyzed : Analyzed) : Finished :=
  let status := Status.analyzing.line around.coloured path
  let document : Document := ⟨path, analyzed.source⟩
  let shown := status :: showWarnings around.coloured document analyzed.analysis.warnings
  match analyzed.analysis.result with
  | .ok _ =>
      ⟨0, shown ++ [Status.analyzed.line around.coloured ("in " ++ around.elapsed)]⟩
  | .error failure => failing around.coloured document shown failure

def checkFile [CharReader] (around : Surroundings) (path : String) : Finished :=
  showAnalyzed around path (analyzeFile around.file)

end Command

namespace Repl

def prompt : Emission := .out "> "

def path : String := "<repl>"

def quit : String := ".exit"

def stripLineEnd (line : String) : String :=
  let withoutNewline := match line.toList.reverse with
    | '\n' :: rest => rest
    | chars => chars
  let withoutReturn := match withoutNewline with
    | '\r' :: rest => rest
    | chars => chars
  String.ofList withoutReturn.reverse

def answer (units : Nat) (coloured : Bool) (line : String) (session : Session) :
    Option (List Emission × Session) :=
  if line.isEmpty then some ([], session)
  else
    match session.run units line with
    | none => none
    | some (ran, after) =>
        let document : Document := ⟨path, line⟩
        let shown := Command.showRun coloured document ran
        let result := match ran.result with
          | .ok (some value) => [.out (value.text ++ "\n")]
          | .ok none => []
          | .error failure => [.err (failure.text coloured document)]
        some (shown ++ result, after)

def loop (units : Nat) (coloured : Bool) : List String → Session → Option (List Emission)
  | [], _ => some [prompt, .out "\n"]
  | line :: rest, session =>
      let text := stripLineEnd line
      if text = quit then some [prompt]
      else
        match answer units coloured text session with
        | none => none
        | some (shown, after) => (loop units coloured rest after).map ((prompt :: shown) ++ ·)

def cutLines : List Char → List Char → List String
  | [], [] => []
  | before, [] => [String.ofList before.reverse]
  | before, char :: rest =>
      if char = '\n' then String.ofList (char :: before).reverse :: cutLines [] rest
      else cutLines (char :: before) rest

end Repl

namespace Command

def perform [CharReader] (units : Nat) (around : Surroundings) : Command → Option Finished
  | run path limit => runScript units around path limit
  | repl limit =>
      (Repl.loop units around.coloured (Repl.cutLines [] around.input.toList)
        (Session.start ⟨limit, around.clock⟩)).map (⟨0, ·⟩)
  | tokens path => some (listTokens around path)
  | parse path dump => some (printProgram around path dump)
  | check path => some (checkFile around path)

end Command

namespace Invocation

def versionText : String := "loxc 0.1.0\n"

def helpText : String :=
  "Tree-walking interpreter for the Lox language\n\nUsage: loxc [COMMAND]\n\nCommands:\n"
    ++ "  run     Runs a script\n"
    ++ "  repl    Starts an interactive session [default when no command is given]\n"
    ++ "  tokens  Prints the token stream of a source file\n"
    ++ "  parse   Parses a source file and prints it back\n"
    ++ "  check   Performs lexical, syntactical and static analysis without running\n"
    ++ "  help    Print this message or the help of the given subcommand(s)\n\nOptions:\n"
    ++ "  -h, --help     Print help\n  -V, --version  Print version\n"

def misuseText : String :=
  "error: invalid arguments\n\nUsage: loxc [COMMAND]\n\nFor more information, try '--help'.\n"

def perform (units : Nat) (around : Surroundings) : Invocation → Option Finished
  | command asked => asked.perform units around
  | version => some ⟨0, [.out versionText]⟩
  | help => some ⟨0, [.out helpText]⟩
  | misuse => some ⟨2, [.err misuseText]⟩

end Invocation

end Treewalk
