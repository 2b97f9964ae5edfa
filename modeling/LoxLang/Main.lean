import Std.Time.DateTime.Timestamp
import LoxLang.CommandLine

/-!
# The program

Reads what a command needs, performs the command, and writes what it left behind. An interactive
session is performed line by line, so that each answer appears before the next line is typed.
-/

namespace LoxLang

namespace Program

/-- What is said about words that make no command. -/
def usage : String :=
  "usage: [--log] [tokenize FILE [--json] | parse FILE | run FILE | repl]\n"

/-- Writes text at once. -/
def say (stream : IO.FS.Stream) (text : String) : IO Unit := do
  stream.putStr text
  stream.flush

/-- Writes a report and answers with its exit status. -/
def present (report : Report) : IO UInt32 := do
  let stdout ← IO.getStdout
  stdout.write ⟨report.output⟩
  stdout.flush
  say (← IO.getStderr) report.errors
  return report.exit.toUInt32

/-- The system's clock. What is performed cannot ask for the time again, so for it the clock stands
still. -/
def clock : IO Clock := do
  return .still ((← Std.Time.Timestamp.now).toNanosecondsSinceUnixEpoch.val / 1000)

/-- The bytes of the next line, its line feed included; none at the end of the input. -/
partial def readLine (input : IO.FS.Stream) (before : List UInt8) : IO (List UInt8) := do
  match (← input.read 1).data.toList with
  | [byte] => if byte = 10 then return before ++ [byte] else readLine input (before ++ [byte])
  | _ => return before

/-- Prompts, reads a line and runs it, until the input ends. -/
partial def converse (session : Session) : IO UInt32 := do
  let stdout ← IO.getStdout
  say stdout Command.prompt
  let bytes ← readLine (← IO.getStdin) []
  if bytes.isEmpty then
    say stdout "\n"
    return 0
  else
    match Utf8.decode bytes with
    | .error _ => present Command.unreadable
    | .ok line =>
      let now ← clock
      let (written, errors, session) :=
        Command.replLine Session.ample line { session with machine.clock := now }
      stdout.write ⟨written⟩
      stdout.flush
      say (← IO.getStderr) errors
      converse session

/-- Why there are no contents. An error in opening a file carries its name, one in reading it does
not. -/
def absenceOf : IO.Error → Absence
  | .inappropriateType none _ _ => .directory
  | .inappropriateType (some _) _ _ => .notDirectory
  | .invalidArgument _ _ _ => .nameTooLong
  | _ => .missing

/-- The files as one of them is found. -/
def filesOf (file : String) : IO Files := do
  let found ← (IO.FS.readBinFile file).toBaseIO
  let contents := match found with
    | .ok bytes => .ok bytes.data.toList
    | .error fault => .error (absenceOf fault)
  return fun _ => contents

/-- The file that a command works on. -/
def fileOf? : Command → Option String
  | .tokenize file _ => some file
  | .parse file => some file
  | .run file => some file
  | .repl => none

/-- Performs a command. -/
def perform (command : Command) : IO UInt32 := do
  let now ← clock
  match fileOf? command with
  | none => converse (Session.start Sink.unlimited now)
  | some file =>
    present (Command.perform Session.ample now (← filesOf file) [] command)

end Program

end LoxLang

/-- Performs what the command line asks for. -/
def main (words : List String) : IO UInt32 := do
  match LoxLang.Request.ofWords false words with
  | .version => LoxLang.Program.present LoxLang.Report.version
  | .misused =>
    LoxLang.Program.say (← IO.getStderr) LoxLang.Program.usage
    LoxLang.Program.present LoxLang.Report.misused
  | .perform invocation =>
    if invocation.log then IO.FS.writeFile "rlox.log" ""
    LoxLang.Program.perform invocation.command
