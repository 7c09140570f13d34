import Scripting.Machine
import Scripting.Text.Blank
import Scripting.Text.Split

/-!
# Built-in functions

The functions that every machine brings with it, and what calls of them do.  A
built-in function that cannot do its task says why in a text; the fault that this
becomes has no place of its own and is blamed on the call.
-/

namespace Scripting
namespace Builtin

/-- The functions of a new machine. -/
def standard : List Builtin := [
  ⟨"clock", 0, .clock⟩,
  ⟨"env", 1, .variable⟩,
  ⟨"size", 1, .size⟩,
  ⟨"trim", 1, .trim⟩,
  ⟨"split", 2, .split⟩,
  ⟨"push", 2, .push⟩,
  ⟨"str", 1, .text⟩,
  ⟨"type", 1, .typeName⟩,
  ⟨"read_file", 1, .readFile⟩,
  ⟨"write_file", 2, .writeFile⟩,
  ⟨"include", 1, .runFile⟩]

/-- What a call gives: a value, or the reason why there is none. -/
abbrev Answer := Except String Value

/-- Reads the clock. -/
def clock : Run Answer := fun machine =>
  let (seconds, host) := machine.host.readClock
  .ok (.ok (.number seconds)) { machine with host := host }

/-- The value of a variable of the surrounding system. -/
def systemVariable (name : Value) : Run Answer := fun machine =>
  match name with
  | .text name =>
      let value := ((machine.host.valueOf? name).map Value.text).getD .null
      .ok (.ok value) { machine with host := machine.host.wishing (.variable name) }
  | _ => .ok (.ok .null) machine

/-- How long a text or an array is; other values have the length zero. -/
def size (value : Value) : Run Answer := do
  match value with
  | .text text => return .ok (.number (Float.ofNat text.length))
  | .array id => return .ok (.number (Float.ofNat (← Run.elementsOf id).size))
  | _ => return .ok (.number 0.0)

/-- A text without the white space at its ends; other values as they are. -/
def trim (value : Value) : Answer :=
  match value with
  | .text text => .ok (.text (String.ofList (Text.trimBlank text.toList)))
  | _ => .ok value

/-- The parts of a text between separators; with an empty one, its characters. -/
def parts (text separator : String) : List String :=
  if separator.isEmpty then text.toList.map fun c => c.toString
  else (Text.split separator.toList text.toList).map String.ofList

/-- An array of the parts of a text. -/
def split (text separator : Value) : Run Answer := do
  match text, separator with
  | .text text, .text separator =>
      let items := (parts text separator).map Value.text
      return .ok (← Run.newArray items.toArray)
  | _, _ => return .ok (← Run.newArray #[])

/-- Adds an element to the end of an array. -/
def push (target value : Value) : Run Answer := do
  match target with
  | .array id =>
      Run.changeStore (·.pushElement id value)
      return .ok target
  | _ => return .error ("expected an array, got " ++ target.typeName)

/-- The path that an argument is. -/
def pathOf (value : Value) : Except String String :=
  match value with
  | .text path => .ok path
  | _ => .error ("path must be a string, got " ++ value.typeName)

/-- Remembers that a path has been asked for, and gives the files. -/
def seekFiles (path : String) : Run Files := fun machine =>
  let files := machine.host.files
  .ok files { machine with host := machine.host.wishing (.path path) }

/-- The text in a file, or why there is none. -/
def readText (path : String) : Run (Except String String) := do
  match (← seekFiles path).read path with
  | .ok text => return .ok text
  | .error problem => return .error ("cannot read '" ++ path ++ "': " ++ problem.message)

/-- The content of a file. -/
def readFile (path : Value) : Run Answer := do
  match pathOf path with
  | .error reason => return .error reason
  | .ok path => return (← readText path).map Value.text

/-- Replaces the content of a file by the text of a value. -/
def writeFile (path value : Value) : Run Answer := do
  match pathOf path with
  | .error reason => return .error reason
  | .ok path =>
      let text ← Run.textOf value
      match (← seekFiles path).write path text with
      | .error problem =>
          return .error ("cannot write '" ++ path ++ "': " ++ problem.message)
      | .ok files =>
          modify fun machine => { machine with host := { machine.host with files := files } }
          return .ok (.bool true)

/-- The first path of a list that leads to a file. -/
def firstFile? : List String → Run (Option String)
  | [] => return none
  | path :: others => do
      if (← seekFiles path).isFile path then return some path
      else firstFile? others

/-- The path of a program to include: the path as given if it leads to a file, and
otherwise, unless it is absolute, the first one that does from a library
directory. -/
def programPath? (path : String) : Run (Option String) := do
  let libraries := (← get).libraries
  if Path.isAbsolute path then firstFile? [path]
  else firstFile? (path :: libraries.map (Path.join · path))

/-- Runs the program in a file, at the top level. -/
def runFile (steps : Steps) (path : Value) : Run Answer := do
  match pathOf path with
  | .error reason => return .error reason
  | .ok path =>
      match ← programPath? path with
      | none => return .error ("cannot find '" ++ path ++ "'")
      | some found =>
          match ← readText found with
          | .error reason => return .error reason
          | .ok source =>
              let faults ← Run.sourceWith steps source
              if faults.isEmpty then return .ok .null
              else
                let texts := "\n".intercalate (faults.map Fault.text)
                return .error ("in '" ++ found ++ "':\n" ++ texts)

/-- Calls a function with the elements of an array, however many it takes. -/
def apply (steps : Steps) (target items : Value) : Run Answer := do
  let unusable : Answer := .error "expected a function and an array"
  match target, items with
  | .callable id, .array items =>
      match ← Run.callableAt? id with
      | none => return unusable
      | some callable =>
          let arguments ← Run.elementsOf items
          match ← Run.attempt (steps.call callable arguments.toList) with
          | .ok value => return .ok value
          | .error fault => return .error fault.text
  | _, _ => return unusable

/-- What a call of a built-in function gives. -/
def answer (steps : Steps) (action : Action) (arguments : List Value) : Run Answer := do
  let first := arguments.headD .null
  let second := arguments.tail.headD .null
  match action with
  | .clock => clock
  | .variable => systemVariable first
  | .size => size first
  | .trim => return trim first
  | .split => split first second
  | .push => push first second
  | .text => return .ok (.text (← Run.textOf first))
  | .typeName => return .ok (.text first.typeName)
  | .readFile => readFile first
  | .writeFile => writeFile first second
  | .runFile => runFile steps first
  | .refuse => return .error (← Run.textOf first)
  | .apply => apply steps first second

/-- Calls a built-in function. -/
def perform (steps : Steps) (builtin : Builtin) (arguments : List Value) : Run Value := do
  match ← answer steps builtin.action arguments with
  | .ok value => return value
  | .error reason =>
      Run.failing (Fault.ofCause (.refusal (builtin.name ++ "(): " ++ reason)) none)

end Builtin
end Scripting
