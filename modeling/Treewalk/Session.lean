import Treewalk.Program.Pull
import Treewalk.Check
import Treewalk.Failure

/-!
# Sessions

A source goes through parsing and the static check before it runs. A session runs one source after
the other on the same machine, so that globals stay; a failure ends its source and not the session.
-/

namespace Treewalk

set_option autoImplicit false

/-- What the front end makes of a source: warnings, which come also with errors of the check, and
the program or the failure. -/
structure Analysis where
  warnings : List Warning
  result : Except Failure Program

def checkParsed (parsed : Except (List ParseError) Program) : Analysis :=
  match parsed with
  | .error errors => ⟨[], .error (.parsing errors)⟩
  | .ok program =>
      let problems := program.problems
      match problems.errors with
      | [] => ⟨problems.warnings, .ok program⟩
      | errors => ⟨problems.warnings, .error (.checking errors)⟩

def analyze (source : String) : Analysis :=
  checkParsed (parse source)

/-- A source and what the front end makes of it; of a file that cannot be read, nothing. -/
structure Analyzed where
  source : String
  analysis : Analysis

namespace Analyzed

def unreadable (fault : Fault) : Analyzed :=
  ⟨"", ⟨[], .error (.reading fault)⟩⟩

end Analyzed

/-- Analyzes a file, if there is one. It is parsed while it is read; what was parsed counts only if
no fault was met. -/
def analyzeFile [CharReader] (file : Except Fault (List UInt8)) : Analyzed :=
  match file with
  | .error fault => Analyzed.unreadable fault
  | .ok bytes =>
      let (parsed, feed) := parseFeed (Feed.ofPulls (CharReader.pulls bytes))
      match feed.fault with
      | some fault => Analyzed.unreadable fault
      | none => ⟨feed.text, checkParsed parsed⟩

structure Session where
  config : Config
  machine : Machine

/-- What running a source shows: the lines that it printed, the warnings, and the value of its last
statement or the failure. -/
structure Ran where
  output : Array String
  warnings : List Warning
  result : Except Failure (Option Value)

namespace Session

def start (config : Config) : Session :=
  ⟨config, Machine.initial⟩

def plenty : Nat := Nat.pow 2 62

/-- The machine without the lines of earlier sources. -/
def cleared (session : Session) : Machine :=
  { session.machine with output := #[] }

/-- Runs what the front end made of a source. Nothing comes of it if the budget is used up. -/
def runAnalysis (units : Nat) (analysis : Analysis) (session : Session) : Option (Ran × Session) :=
  match analysis.result with
  | .error failure => some (⟨#[], analysis.warnings, .error failure⟩, session)
  | .ok program =>
      match interpret session.config units program session.cleared with
      | .done value machine =>
          some (⟨machine.output, analysis.warnings, .ok value⟩, { session with machine := machine })
      | .raised error machine =>
          some (⟨machine.output, analysis.warnings, .error (.running error)⟩,
            { session with machine := machine })
      | .exhausted => none
      | .stuck => none

def run (units : Nat) (source : String) (session : Session) : Option (Ran × Session) :=
  session.runAnalysis units (analyze source)

def globals (session : Session) : List (String × Value) :=
  session.machine.heap.bindings Heap.global

end Session

end Treewalk
