import Std.Time.DateTime.Timestamp
import Treewalk.Command

/-!
# The program

The outer layer reads files and the input, prints what the command line has to say, and passes the
exit code on. It decides nothing.
-/

namespace Treewalk

set_option autoImplicit false

def emit (emissions : List Emission) : IO Unit := do
  let stdout ← IO.getStdout
  let stderr ← IO.getStderr
  for emission in emissions do
    match emission with
    | .out text =>
        stdout.putStr text
        stdout.flush
    | .err text =>
        stderr.putStr text
        stderr.flush

/-- Why a file could not be read. That a folder is in its place shows on reading only, when the path
is not known any more. -/
def faultOf : IO.Error → Fault
  | .noFileOrDirectory .. => .notFound
  | .permissionDenied .. => .permissionDenied
  | .inappropriateType none _ _ => .isFolder
  | .inappropriateType (some _) _ _ => .notFolder
  | .invalidArgument .. => .nameTooLong
  | .unexpectedEof => .unexpectedEnd
  | _ => .other

def readBytes (path : String) : IO (Except Fault (List UInt8)) := do
  try
    let bytes ← IO.FS.readBinFile path
    return .ok bytes.toList
  catch error => return .error (faultOf error)

def now : IO Float := do
  let instant ← Std.Time.Timestamp.now
  return Float.ofInt instant.toNanosecondsSinceUnixEpoch.val / 1000000000.0

def seconds (milliseconds : Nat) : String :=
  Number.fixed 2 (Float.ofNat milliseconds / 1000.0) ++ "s"

/-- A session on the terminal: lines are read while it goes on, and the clock is set anew for each
of them. -/
partial def converse (coloured : Bool) (input : IO.FS.Stream) (session : Session) : IO Unit := do
  emit [Repl.prompt]
  let line ← input.getLine
  if line.isEmpty then emit [.out "\n"]
  else
    let text := Repl.stripLineEnd line
    unless text = Repl.quit do
      let instant ← now
      let timed := { session with config := { session.config with clock := fun _ => instant } }
      match Repl.answer Session.plenty coloured text timed with
      | some (shown, after) =>
          emit shown
          converse coloured input after
      | none => return

def checkTimed (around : Surroundings) (path : String) : IO Finished := do
  let before ← IO.monoMsNow
  let analyzed ← IO.lazyPure fun _ => analyzeFile around.file
  let after ← IO.monoMsNow
  return Command.showAnalyzed { around with elapsed := seconds (after - before) } path analyzed

def surroundings (coloured : Bool) (path : Option String) : IO Surroundings := do
  let instant ← now
  let file ← match path with
    | some path => readBytes path
    | none => pure (.error .notFound)
  return ⟨file, "", coloured, fun _ => instant, seconds 0⟩

def launch (arguments : List String) : IO UInt32 := do
  let coloured := ((← IO.getEnv "FORCE_COLOR").getD "") ≠ ""
  let finished ← match Invocation.ofArguments arguments with
    | .command (.repl limit) =>
        converse coloured (← IO.getStdin) (Session.start ⟨limit, fun _ => 0.0⟩)
        pure (some ⟨0, []⟩)
    | .command (.check path) =>
        some <$> checkTimed (← surroundings coloured (some path)) path
    | .command command =>
        pure (command.perform Session.plenty (← surroundings coloured command.path?))
    | asked => pure (asked.perform Session.plenty (← surroundings coloured none))
  match finished with
  | some finished =>
      emit finished.emissions
      return finished.code.toUInt32
  | none => return 1

end Treewalk

def main (arguments : List String) : IO UInt32 :=
  Treewalk.launch arguments
