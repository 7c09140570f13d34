import Scripting.Prompt

/-!
# The command line

The first argument says what to do: run the program in a file, take lines at a
prompt, or show a help text or the version.  An argument that is none of these
words but ends like the name of a program is run.  The exit status tells apart why
a program was not run to its end.
-/

namespace Scripting
namespace CommandLine

/-- The name of the language and of its command. -/
def command : String := "cipr"

/-- The version of the language. -/
def version : String := "0.3.0"

/-- What the names of programs end with. -/
def extension : String := ".cipr"

/-- What a command is asked to do. -/
inductive Request where
  | prompt
  | runFile (path : String)
  | missingPath
  | help
  | version
  | unknown (word : String)
  deriving DecidableEq, Inhabited

/-- What the arguments of a command ask for. -/
def Request.ofArguments : List String → Request
  | [] => .prompt
  | "run" :: [] => .missingPath
  | "run" :: path :: _ => .runFile path
  | "repl" :: _ => .prompt
  | "help" :: _ => .help
  | "--help" :: _ => .help
  | "-h" :: _ => .help
  | "version" :: _ => .version
  | "--version" :: _ => .version
  | "-v" :: _ => .version
  | word :: _ => if word.endsWith extension then .runFile word else .unknown word

/-- How a command ends. -/
inductive Status where
  | success
  /-- The command was not understood. -/
  | misuse
  /-- A program has faults in its text. -/
  | faultyText
  /-- The execution of a program failed. -/
  | faultyRun
  /-- A program could not be read. -/
  | unreadable
  deriving DecidableEq, Inhabited

/-- The number by which the surrounding system knows a status. -/
def Status.code : Status → Nat
  | success => 0
  | misuse => 1
  | faultyText => 65
  | faultyRun => 70
  | unreadable => 74

/-- The status of a program that was run. -/
def Status.ofReport : Report → Status
  | .done [] => success
  | .done faults =>
      if faults.any fun fault => fault.stage = .running then faultyRun else faultyText
  | .exhausted => faultyRun

/-- What a command does that others can see. -/
structure Outcome where
  status : Status
  output : String
  notices : String
  /-- The surroundings afterwards. -/
  host : Host

/-- What is shown for `help`. -/
def helpLines : List String := [
  command,
  "A small dynamic scripting language",
  "Version " ++ version,
  "",
  "USAGE:",
  "  cipr run <file.cipr>     Execute a cipr file",
  "  cipr repl                Start interactive REPL",
  "  cipr help                Show this help message",
  "  cipr version             Show version",
  "",
  "ENVIRONMENT:",
  "  CIPR_PATH                Directories searched by include()",
  "  CIPR_STARTUP             Script run first (default ~/.ciprrc)",
  "  CIPR_PRINT_AST           Print the AST of every input",
  "  CIPR_MAX_DEPTH           Call depth limit",
  "",
  "LANGUAGE FEATURES:",
  "  let x = 10;              Variable declaration",
  "  echo x + 1;              Print a value",
  "  fn f(a) \x7b return a; \x7d    Function definition",
  "  let xs = [1, 2]; xs[0];  Arrays and indexing",
  "  if (x > 1) echo x; else echo 0;",
  "  while (x > 0) x = x - 1;"]

/-- What is shown before the first line is taken at the prompt. -/
def greetingLines : List String := [
  command ++ " " ++ version ++ " - A small dynamic scripting language",
  "Type exit to exit, help for help",
  ""]

/-- Lines with their ends. -/
def linesText (lines : List String) : String :=
  String.join (lines.map (· ++ "\n"))

/-- The settings that the variables of a system make. -/
def settingsOf (host : Host) : Settings :=
  Settings.ofVariables host.files fun name =>
    (host.environment.lookup name).map String.toUTF8

/-- A session in which the startup program has run; that it failed is shown and then
forgotten. -/
def openSession (host : Host) : Session :=
  let settings := settingsOf host
  let looked := match host.environment.lookup "HOME" with
    | some home => host.wishing (.path (Path.join home Settings.startupName))
    | none => host
  let (report, session) := (Session.ofSettings settings looked).runStartup
  (session.reportAll report).resetError

/-- A session without any definitions that goes on where another one stands. -/
def reopenSession (session : Session) : Session :=
  let fresh := openSession { session.machine.host with readings := 0 }
  { fresh with notices := session.notices ++ fresh.notices }

/-- The outcome of a command that ran a session. -/
def outcomeOf (status : Status) (session : Session) : Outcome where
  status := status
  output := session.output
  notices := session.notices
  host := session.machine.host

/-- Runs the program in a file. -/
def runFile (path : String) (host : Host) : Outcome :=
  let host := host.wishing (.path path)
  match host.files.read path with
  | .error problem =>
      { status := .unreadable
        output := host.output
        notices := "error: cannot read file '" ++ path ++ "': " ++ problem.message ++ "\n"
        host := host }
  | .ok source =>
      let (report, session) := (openSession host).run source
      outcomeOf (.ofReport report) (session.reportAll report)

/-- Takes lines at the prompt. -/
def runPrompt (lines : List String) (host : Host) : Outcome :=
  let session :=
    openSession (greetingLines.foldl (fun host line => host.append (line ++ "\n")) host)
  outcomeOf .success (Prompt.takeLines reopenSession session lines)

/-- Does what the arguments ask for; `input` is what can be read at the prompt. -/
def run (arguments : List String) (input : String) (host : Host) : Outcome :=
  match Request.ofArguments arguments with
  | .prompt => runPrompt ((Text.lines input.toList).map String.ofList) host
  | .runFile path => runFile path host
  | .missingPath =>
      { status := .misuse
        output := host.output
        notices := "error: missing file argument\nUsage: cipr run <file.cipr>\n"
        host := host }
  | .help => { status := .success, output := linesText helpLines, notices := "", host := host }
  | .version =>
      { status := .success
        output := command ++ " " ++ version ++ "\n"
        notices := ""
        host := host }
  | .unknown word =>
      { status := .misuse
        output := linesText helpLines
        notices := "error: unknown command '" ++ word ++ "'\n"
        host := host }

end CommandLine
end Scripting
