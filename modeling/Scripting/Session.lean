import Scripting.Evaluation
import Scripting.Settings
import Scripting.Tree.Outline

/-!
# Sessions

A session runs one source after another on one machine, so that each sees what the
earlier ones defined.  It remembers whether any of them failed, until it is told to
forget it, and collects the notices that are not output of the programs.
-/

namespace Scripting

/-- How running a source ended. -/
inductive Report where
  /-- All faults found while the source was read, or the one that ended its run, or
  none. -/
  | done (faults : List Fault)
  /-- The bound on the work of a run was used up. -/
  | exhausted
  deriving Inhabited

namespace Report

/-- The faults of a run. -/
def faults : Report → List Fault
  | done faults => faults
  | exhausted => []

/-- Whether a run came to its end without a fault. -/
def isClean : Report → Bool
  | done faults => faults.isEmpty
  | exhausted => false

end Report

/-- A machine, its settings, and what happened on it. -/
structure Session where
  machine : Machine
  settings : Settings
  /-- Whether a source failed since this was last forgotten. -/
  hadError : Bool
  /-- What was shown beside the output of the programs. -/
  notices : String

namespace Session

/-- A new session. -/
def ofSettings (settings : Settings) (host : Host) : Session where
  machine :=
    { Machine.ofHost host with limit := settings.limit, libraries := settings.libraries }
  settings := settings
  hadError := false
  notices := ""

/-- Shows a line beside the output of the programs. -/
def notice (session : Session) (line : String) : Session :=
  { session with notices := session.notices ++ line ++ "\n" }

/-- Shows the outline of a program, if the settings ask for it. -/
def showOutline (session : Session) (root : Tree.NodeId) : Session :=
  if session.settings.showOutlines then
    session.notice ("AST: " ++ session.machine.arena.outline (some root))
  else session

/-- Executes a program that has been read from a source. -/
def execute (session : Session) (root : Tree.NodeId) (source : String) : Report × Session :=
  match Run.interpret root session.machine with
  | .ok () machine => (.done [], { session with machine := machine })
  | .error (.fault fault) machine =>
      (.done [fault.withSource source], { session with machine := machine, hadError := true })
  | .error .exhausted machine =>
      (.exhausted, { session with machine := machine, hadError := true })

/-- Reads a source and, if it has no faults, executes it. -/
def run (session : Session) (source : String) : Report × Session :=
  let ((root, faults), machine) := session.machine.readSource source
  let session := { session with machine := machine }.showOutline root
  if faults.isEmpty then session.execute root source
  else (.done faults, { session with hadError := true })

/-- Runs the startup program, if the settings name one. -/
def runStartup (session : Session) : Report × Session :=
  match session.settings.startup with
  | none => (.done [], session)
  | some path =>
      let machine := session.machine
      let session :=
        { session with machine := { machine with host := machine.host.wishing (.path path) } }
      match machine.host.files.read path with
      | .ok source => session.run source
      | .error problem =>
          let message :=
            "cannot read startup script '" ++ path ++ "': " ++ problem.message
          (.done [Fault.ofCause (.transfer message) none], session)

/-- Forgets that a source failed. -/
def resetError (session : Session) : Session :=
  { session with hadError := false }

/-- Shows faults beside the output of the programs. -/
def reportAll (session : Session) (report : Report) : Session :=
  report.faults.foldl (fun session fault => session.notice fault.text) session

/-- Everything the programs have written. -/
def output (session : Session) : String :=
  session.machine.host.output

/-- Adds a line to the output of the programs. -/
def print (session : Session) (line : String) : Session :=
  let machine := session.machine
  { session with machine := { machine with host := machine.host.append (line ++ "\n") } }

end Session
end Scripting
