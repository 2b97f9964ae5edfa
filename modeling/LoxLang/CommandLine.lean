import LoxLang.Files
import LoxLang.HostFunctions
import LoxLang.Session
import LoxLang.Text.Quoted
import LoxLang.Token.Listing
import LoxLang.Tree.Written
import LoxLang.Utf8

/-!
# The command line

Which words make a command, and what each command writes and answers. Reading the files and the
standard input is left to the caller, so that a command is a function of their contents.
-/

namespace LoxLang

/-- What the program can be told to do. -/
inductive Command where
  | tokenize (file : String) (json : Bool)
  | parse (file : String)
  | run (file : String)
  | repl
  deriving DecidableEq, Repr

/-- A command line: a command, and whether a log is kept. -/
structure Invocation where
  command : Command
  log : Bool
  deriving DecidableEq, Repr

/-- What a command line asks for. -/
inductive Request where
  | perform (invocation : Invocation)
  | version
  | misused
  deriving DecidableEq, Repr

namespace Request

/-- The words after the name of a command. -/
structure Operands where
  files : List String
  json : Bool
  log : Bool

/-- Sorts the words after the name of a command: files, and options each given at most once. After
`--` every word is a file, and a single `-` is one too. -/
def operands? (takesJson : Bool) : List String → Operands → Option Operands
  | [], found => some found
  | word :: rest, found =>
    if word = "--" then
      some { found with files := found.files ++ rest }
    else if word = "--log" then
      if found.log then none else operands? takesJson rest { found with log := true }
    else if word = "--json" then
      if found.json || !takesJson then none
      else operands? takesJson rest { found with json := true }
    else if word.startsWith "-" && word ≠ "-" then none
    else operands? takesJson rest { found with files := found.files ++ [word] }

/-- A command that works on exactly one file, which has a name. -/
def onFile (log : Bool) (command : String → Command) (found : Option Operands) : Request :=
  match found with
  | some ⟨[file], _, later⟩ =>
    if file.isEmpty then misused else perform ⟨command file, log || later⟩
  | _ => misused

/-- The request of a command's name and the words after it. -/
def ofCommand (log : Bool) (name : String) (words : List String) : Request :=
  let plain := operands? false words ⟨[], false, false⟩
  match name with
  | "tokenize" =>
    let found := operands? true words ⟨[], false, false⟩
    onFile log (Command.tokenize · ((found.map Operands.json).getD false)) found
  | "parse" => onFile log .parse plain
  | "run" => onFile log .run plain
  | "repl" =>
    match plain with
    | some ⟨[], _, later⟩ => perform ⟨.repl, log || later⟩
    | _ => misused
  | _ => misused

/-- The request of all words, `log` telling whether a log has been asked for. Without a command the
program is interactive. What follows `-V` in a word would be more options, which no longer count. -/
def ofWords (log : Bool) : List String → Request
  | [] => perform ⟨.repl, log⟩
  | word :: rest =>
    if word = "--log" then
      if log then misused else ofWords true rest
    else if word = "--version" ∨ word.startsWith "-V" then version
    else if word = "--" then
      if rest.isEmpty then perform ⟨.repl, log⟩ else misused
    else ofCommand log word rest

end Request

/-- What a command leaves behind: its exit status, and what it wrote. -/
structure Report where
  exit : Nat
  output : Array UInt8
  errors : String

namespace Report

/-- A report of text output. -/
def ofText (exit : Nat) (output errors : String) : Report :=
  ⟨exit, output.toUTF8.data, errors⟩

/-- The answer to `--version`. -/
def version : Report :=
  ofText 0 "rlox 0.1.0\n" ""

/-- The answer to words that make no command; the usage is for the caller to explain. -/
def misused : Report :=
  ofText 2 "" ""

/-- Texts, each on a line of its own. -/
def lines (texts : List String) : String :=
  String.join (texts.map fun text => text ++ "\n")

/-- Diagnostics, each on a line of its own. -/
def diagnosed (found : List Diagnostic) : String :=
  lines (found.map Diagnostic.text)

/-- The status for a program that has errors before it is run. -/
def rejectedStatus : Nat := 65

/-- The status for a program that stopped while it ran. -/
def stoppedStatus : Nat := 70

/-- A command that could not do its work, and what caused that. -/
def failure (message : String) (cause : Option String) : Report :=
  let because := match cause with
    | some cause => "\n\nCaused by:\n    " ++ cause
    | none => ""
  ofText 1 "" ("Error: " ++ message ++ because ++ "\n")

end Report

/-- How the system words an absence. -/
def Absence.text : Absence → String
  | .missing => "No such file or directory (os error 2)"
  | .notDirectory => "Not a directory (os error 20)"
  | .directory => "No such device (os error 19)"
  | .nameTooLong => "File name too long (os error 36)"

/-- The report that a file cannot be had. A directory can be opened, but not read. -/
def Report.absent (file : String) (absence : Absence) : Report :=
  let attempt := if absence = .directory then "read" else "open"
  failure ("Failed to " ++ attempt ++ " file " ++ Quoted.ofString file) (some absence.text)

/-- The report that a file holds no text. -/
def Report.illFormed (file : String) (fault : Utf8.Fault) : Report :=
  failure ("File " ++ Quoted.ofString file ++ " is not valid UTF-8") (some fault.message)

/-- The text of a file, or the report that it cannot be had. -/
def Files.read (files : Files) (file : String) : Except Report String := do
  let bytes ← (files file).mapError (Report.absent file)
  (Utf8.decode bytes).mapError (Report.illFormed file)

namespace Command

/-- Lists the tokens of a source, even of one that has lexical errors. -/
def listTokens (json : Bool) (source : String) : Report :=
  let (tokens, errors) := scan source
  let listing :=
    if json then Token.jsonListing tokens ++ "\n" else Report.lines (tokens.map Token.listed)
  let exit := if errors.isEmpty then 0 else Report.rejectedStatus
  Report.ofText exit listing (Report.diagnosed (errors.map Diagnostic.lexical))

/-- Writes the trees of a source's statements, unless it has errors. -/
def writeTrees (source : String) : Report :=
  let reading := Reading.ofSource source 0
  if reading.errors.isEmpty then
    Report.ofText 0 (Report.lines (reading.statements.map Stmt.text)) ""
  else
    Report.ofText Report.rejectedStatus "" (Report.diagnosed reading.errors)

/-- The exit status for the end of a run. -/
def status : RunResult → Nat
  | .success => 0
  | .rejected _ => Report.rejectedStatus
  | .stopped _ => Report.stoppedStatus
  | .unfinished => Report.stoppedStatus

/-- Runs a source. -/
def runSource (budget : Nat) (clock : Clock) (source : String) : Report :=
  let (result, session) := (Session.start Sink.unlimited clock).run budget source
  ⟨status result, session.drain.1, Report.diagnosed result.diagnostics⟩

/-- The prompt of the interactive program. -/
def prompt : String := "> "

/-- One line of an interactive session: what it writes, what it reports, and the session after
it. -/
def replLine (budget : Nat) (line : String) (session : Session) :
    Array UInt8 × String × Session :=
  let (result, session) := session.run budget line
  let (written, session) := session.drain
  (written, Report.diagnosed result.diagnostics, session)

/-- Cuts bytes behind each line feed. -/
def linesOf : List UInt8 → List (List UInt8)
  | [] => []
  | byte :: rest =>
    if byte = 10 then [byte] :: linesOf rest
    else
      match linesOf rest with
      | [] => [[byte]]
      | line :: more => (byte :: line) :: more

/-- What is reported when a line of the standard input is no text. -/
def unreadable : Report :=
  Report.failure "stream did not contain valid UTF-8" none

/-- An interactive session over the lines of an input, `report` holding what it wrote so far. It
prompts before every line and before the end of the input. -/
def converse (budget : Nat) : List (List UInt8) → Session → Report → Report
  | [], _, report => { report with output := report.output ++ (prompt ++ "\n").toUTF8.data }
  | bytes :: rest, session, report =>
    let output := report.output ++ prompt.toUTF8.data
    match Utf8.decode bytes with
    | .error _ =>
      { report with
        exit := unreadable.exit, output := output, errors := report.errors ++ unreadable.errors }
    | .ok line =>
      let (written, errors, session) := replLine budget line session
      converse budget rest session
        { report with output := output ++ written, errors := report.errors ++ errors }

/-- A command that works on the text of one file. -/
def onText (files : Files) (file : String) (work : String → Report) : Report :=
  match files.read file with
  | .ok source => work source
  | .error report => report

/-- Performs a command. -/
def perform (budget : Nat) (clock : Clock) (files : Files) (input : List UInt8) :
    Command → Report
  | .tokenize file json => onText files file (listTokens json)
  | .parse file => onText files file writeTrees
  | .run file => onText files file (runSource budget clock)
  | .repl =>
    converse budget (linesOf input) (Session.start Sink.unlimited clock) (Report.ofText 0 "" "")

end Command

end LoxLang
