import Scripting.Session
import Scripting.Text.Lines

/-!
# The prompt

At the prompt, lines are taken one after another.  Lines are put together until
every brace opened outside quoted texts and comments is closed again; what they
make up is then run.  When nothing is pending, a blank line is passed over, and a
line that holds only a command word is a command.
-/

namespace Scripting
namespace Prompt

/-- Where a character of a source stands. -/
inductive Surroundings where
  | code | quoted | comment
  deriving DecidableEq, Inhabited

/-- How many more braces are opened than closed, counted on from `opened`. -/
def balanceFrom (opened : Int) : Surroundings → List Char → Int
  | _, [] => opened
  | .quoted, c :: rest => balanceFrom opened (if c = '"' then .code else .quoted) rest
  | .comment, c :: rest => balanceFrom opened (if c = '\n' then .code else .comment) rest
  | .code, '/' :: '/' :: rest => balanceFrom opened .comment rest
  | .code, c :: rest =>
      if c = '"' then balanceFrom opened .quoted rest
      else if c = '\x7b' then balanceFrom (opened + 1) .code rest
      else if c = '\x7d' then balanceFrom (opened - 1) .code rest
      else balanceFrom opened .code rest

/-- How many more braces are opened than closed in a text, outside quoted texts and
comments. -/
def openBraces (text : List Char) : Int :=
  balanceFrom 0 .code text

/-- What a line taken at the prompt means. -/
inductive Meaning where
  | blank
  | leave
  | help
  | clear
  | program
  deriving DecidableEq, Inhabited

/-- What a line means when nothing is pending. -/
def meaningOf (line : String) : Meaning :=
  match String.ofList (Text.trimBlank line.toList) with
  | "" => .blank
  | "exit" => .leave
  | "quit" => .leave
  | "help" => .help
  | "clear" => .clear
  | _ => .program

/-- What is shown for `help`. -/
def helpLines : List String := [
  "REPL Commands:",
  "  exit, quit   Exit the REPL",
  "  clear        Forget every definition",
  "  help         Show this help",
  "",
  "Input:",
  "  Statements end with ';'. An unclosed '\x7b' continues on the next line.",
  "",
  "Language Examples:",
  "  let x = 10;",
  "  echo x * 2;",
  "  fn double(n) \x7b return n * 2; \x7d",
  "  echo double(x);"]

/-- What a line at the prompt leads to. -/
inductive Step where
  /-- Nothing happens. -/
  | pass
  /-- The line is kept until the text that it belongs to is complete. -/
  | keep (pending : String)
  | leave
  | help
  | clear
  /-- A complete text is run. -/
  | run (source : String)
  deriving DecidableEq, Inhabited

/-- The text that a line makes up with the pending ones. -/
def joined (pending line : String) : String :=
  pending ++ line ++ "\n"

/-- What a line of a program leads to. -/
def programStep (text : String) : Step :=
  if 0 < openBraces text.toList then .keep text else .run text

/-- What a line leads to after the pending ones. -/
def stepOf (pending line : String) : Step :=
  if pending.isEmpty then
    match meaningOf line with
    | .blank => .pass
    | .leave => .leave
    | .help => .help
    | .clear => .clear
    | .program => programStep (joined pending line)
  else programStep (joined pending line)

/-- What is pending after a step. -/
def Step.pending : Step → String
  | keep pending => pending
  | _ => ""

/-- What lines lead to after the pending ones, up to the one that leaves the prompt. -/
def stepsFrom (pending : String) : List String → List Step
  | [] => []
  | line :: lines =>
      match stepOf pending line with
      | .leave => [.leave]
      | step => step :: stepsFrom step.pending lines

/-- What lines at the prompt lead to. -/
def steps (lines : List String) : List Step :=
  stepsFrom "" lines

/-- Takes a step in a session. `restart` makes a session without any definitions that
goes on where another one stands. -/
def take (restart : Session → Session) (session : Session) : Step → Session
  | .pass => session
  | .keep _ => session
  | .leave => session
  | .help => helpLines.foldl Session.print session
  | .clear => (restart session).print "State cleared."
  | .run source =>
      let (report, session) := session.run source
      (session.reportAll report).resetError

/-- Takes lines at the prompt, to their end or up to the one that leaves it. -/
def takeLines
    (restart : Session → Session)
    (session : Session)
    (lines : List String) : Session :=
  ((steps lines).foldl (take restart) session).print "Goodbye!"

/-- After a line that leaves the prompt, no other is taken. -/
theorem stepsFrom_of_leave
    {pending line : String}
    (leaves : stepOf pending line = .leave)
    (lines : List String) :
    stepsFrom pending (line :: lines) = [.leave] := by
  unfold stepsFrom
  rw [leaves]

end Prompt
end Scripting
