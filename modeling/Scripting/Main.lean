import Scripting.CommandLine

/-!
# The command

What the command does is worked out without touching the system, from the files
and variables that are known.  When it asks for more, these are looked up and it is
worked out again; when everything it asks for is known, its outcome is the real
one: files are written, the output is shown, and the command ends.
-/

namespace Scripting
namespace Command

/-- The path to a place. -/
def pathTo (place : Place) : String :=
  let start := match place.anchor with
    | .root => "/"
    | .above levels => String.join (List.replicate levels "../")
  start ++ "/".intercalate place.names

/-- The error code of reading a directory as if it were a file. -/
def directoryCode : UInt32 := 21

/-- What stands at a path, as far as it can be read. -/
def entryAt (path : String) : IO (Option Entry) := do
  try
    return some (.file (← IO.FS.readBinFile path))
  catch
    | .inappropriateType _ code _ => return if code = directoryCode then some .directory else none
    | _ => return none

/-- Looks up what stands on the way along some names. -/
def observe (files : Files) (place : Place) : (names : List String) → IO Files
  | [] => return files
  | name :: names => do
      match files.follow place name with
      | .error _ => return files
      | .ok next =>
          let files ← match files.get? next, ← entryAt (pathTo next) with
            | none, some entry => pure (files.put next entry)
            | _, _ => pure files
          observe files next names

/-- Grants a wish. -/
def grant (host : Host) : Wish → IO Host
  | .path path => do
      let files ← observe host.files (Path.start path) (Path.components path)
      return { host with files }
  | .variable name => do
      match host.environment.lookup name, ← IO.getEnv name with
      | none, some value => return { host with environment := (name, value) :: host.environment }
      | _, _ => return host

/-- Writes the files that are no longer what they were. -/
def save (before after : Files) : IO Unit :=
  after.entries.forM fun (place, entry) => do
    match entry, before.get? place with
    | .file content, some (.file old) =>
        if content.data ≠ old.data then IO.FS.writeBinFile (pathTo place) content
    | .file content, _ => IO.FS.writeBinFile (pathTo place) content
    | .directory, _ => return ()

/-- Does what the arguments ask for. -/
partial def perform
    (arguments : List String)
    (input : String)
    (host : Host)
    (granted : List Wish) : IO UInt32 := do
  let outcome := CommandLine.run arguments input host
  let wanted := outcome.host.wishes.filter (· ∉ granted)
  if wanted.isEmpty then
    save host.files outcome.host.files
    IO.print outcome.output
    IO.eprint outcome.notices
    return outcome.status.code.toUInt32
  else
    perform arguments input (← wanted.foldlM grant host) (wanted ++ granted)

end Command
end Scripting

open Scripting in
/-- Runs the command. -/
def main (arguments : List String) : IO UInt32 := do
  let input ← match CommandLine.Request.ofArguments arguments with
    | .prompt => (← IO.getStdin).readToEnd
    | _ => pure ""
  let names := ["HOME", "CIPR_PATH", "CIPR_STARTUP", "CIPR_PRINT_AST", "CIPR_MAX_DEPTH"]
  let host ← (names.map Wish.variable).foldlM Command.grant (Host.ofFiles Files.empty [])
  Command.perform arguments input host []
