import Scripting.Files

/-!
# The surroundings of a run

What a running program can reach besides its own values: files, the variables of
the surrounding system, a clock, and the place its output goes to.  The clock is
counted in readings, each a microsecond after the one before.

Everything that is asked for is remembered, so that whoever supplies files and
variables on demand can tell which ones a run would have wanted.
-/

namespace Scripting

/-- What happens to output. -/
inductive Sink where
  | accepting
  /-- Every text is refused, for the reason given. -/
  | refusingText (reason : String)
  /-- Texts are taken, but cannot be passed on. -/
  | refusingFlush (reason : String)
  deriving DecidableEq, Inhabited

/-- Something that a run asks its surroundings for. -/
inductive Wish where
  /-- What stands where a path leads. -/
  | path (path : String)
  /-- The value of a variable. -/
  | variable (name : String)
  deriving DecidableEq, Inhabited

/-- The surroundings of a run. -/
structure Host where
  files : Files
  /-- The variables of the surrounding system. -/
  environment : List (String × String)
  /-- How often the clock has been read. -/
  readings : Nat
  /-- What has been written so far. -/
  output : String
  sink : Sink
  /-- What has been asked for, the last thing first. -/
  wishes : List Wish
  deriving Inhabited

namespace Host

/-- Surroundings in which nothing has happened yet. -/
def ofFiles (files : Files) (environment : List (String × String)) : Host where
  files := files
  environment := environment
  readings := 0
  output := ""
  sink := .accepting
  wishes := []

/-- The value of a variable. The variables form a list of equations, and the value is
what follows the name and an equals sign in the first equation that begins so. -/
def valueOf? (host : Host) (name : String) : Option String :=
  if name.isEmpty || name.toList.contains '\x00' then none
  else
    let wanted := (name ++ "=").toList
    (host.environment.find? fun entry => wanted.isPrefixOf (entry.1 ++ "=" ++ entry.2).toList).map
      fun entry => String.ofList ((entry.1 ++ "=" ++ entry.2).toList.drop wanted.length)

/-- Adds a text to the output. -/
def append (host : Host) (text : String) : Host :=
  { host with output := host.output ++ text }

/-- Passes on what has been written. -/
def flush (host : Host) : Except String Unit :=
  match host.sink with
  | .refusingFlush reason => .error reason
  | _ => .ok ()

/-- Reads the clock: the seconds since the start, and the surroundings afterwards. -/
def readClock (host : Host) : Float × Host :=
  (Float.ofNat (host.readings + 1) / 1000000.0, { host with readings := host.readings + 1 })

/-- Remembers that something has been asked for. -/
def wishing (host : Host) (wish : Wish) : Host :=
  { host with wishes := wish :: host.wishes }

end Host
end Scripting
