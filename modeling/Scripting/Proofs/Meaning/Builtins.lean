import Scripting.Proofs.Meaning.State
import Scripting.Builtin

/-!
# The meaning of built-in functions

What the built-in functions answer, and how they change the state.  All but two of
them do so on their own (`answer?`); the program that one of them runs is `located`,
and what the other one calls is `applied?`.
-/

namespace Scripting
namespace Meaning

open Builtin (Answer)

/-- Remembers that something has been asked for. -/
def State.wishing (state : State) (wish : Wish) : State :=
  state.asking (·.wishing wish)

/-- The text in a file, or why there is none. -/
def readText (state : State) (path : String) : Except String String × State :=
  ((state.host.files.read path).mapError fun problem =>
      "cannot read '" ++ path ++ "': " ++ problem.message,
    state.wishing (.path path))

/-- The value of a variable of the surrounding system. -/
def systemVariable (state : State) : Value → Answer × State
  | .text name =>
      (.ok (((state.host.valueOf? name).map Value.text).getD .null),
        state.wishing (.variable name))
  | _ => (.ok .null, state)

/-- How long a text or an array is. -/
def size (state : State) : Value → Float
  | .text text => Float.ofNat text.length
  | .array id => Float.ofNat (state.elements id).size
  | _ => 0.0

/-- An array of the parts of a text. -/
def split (state : State) (text separator : Value) : Answer × State :=
  let items := match text, separator with
    | .text text, .text separator => (Builtin.parts text separator).map Value.text
    | _, _ => []
  (.ok (.array state.arrays.size), state.addArray items.toArray)

/-- Adds an element to the end of an array. -/
def push (state : State) (target value : Value) : Answer × State :=
  match target with
  | .array id => (.ok target, state.pushElement id value)
  | _ => (.error ("expected an array, got " ++ target.typeName), state)

/-- The content of a file. -/
def readFile (state : State) (path : Value) : Answer × State :=
  match Builtin.pathOf path with
  | .error reason => (.error reason, state)
  | .ok path =>
      let (text, later) := readText state path
      (text.map Value.text, later)

/-- Replaces the content of a file by the text of a value. -/
def writeFile (state : State) (path value : Value) : Answer × State :=
  match Builtin.pathOf path with
  | .error reason => (.error reason, state)
  | .ok path =>
      match state.host.files.write path (state.text value) with
      | .error problem =>
          (.error ("cannot write '" ++ path ++ "': " ++ problem.message),
            state.wishing (.path path))
      | .ok files =>
          (.ok (.bool true),
            (state.wishing (.path path)).asking fun host => { host with files := files })

/-- What a built-in function answers on its own. -/
def answer? (state : State) (action : Action) (first second : Value) : Option (Answer × State) :=
  match action with
  | .clock => some (.ok (.number state.host.readClock.1), state.asking fun host => host.readClock.2)
  | .variable => some (systemVariable state first)
  | .size => some (.ok (.number (size state first)), state)
  | .trim => some (Builtin.trim first, state)
  | .split => some (split state first second)
  | .push => some (push state first second)
  | .text => some (.ok (.text (state.text first)), state)
  | .typeName => some (.ok (.text first.typeName), state)
  | .readFile => some (readFile state first)
  | .writeFile => some (writeFile state first second)
  | .refuse => some (.error (state.text first), state)
  | .runFile => none
  | .apply => none

/-- The first path of a list that leads to a file. -/
def firstFile? (state : State) : List String → Option String × State
  | [] => (none, state)
  | path :: others =>
      if state.host.files.isFile path then (some path, state.wishing (.path path))
      else firstFile? (state.wishing (.path path)) others

/-- The path and the text of a program to include. -/
def located (state : State) (libraries : List String) (path : Value) :
    Except String (String × String) × State :=
  match Builtin.pathOf path with
  | .error reason => (.error reason, state)
  | .ok path =>
      let paths :=
        if Path.isAbsolute path then [path] else path :: libraries.map (Path.join · path)
      match firstFile? state paths with
      | (none, later) => (.error ("cannot find '" ++ path ++ "'"), later)
      | (some found, later) =>
          let (text, latest) := readText later found
          (text.map fun source => (found, source), latest)

/-- The answer when a program that was included has faults. -/
def faulty (found : String) (faults : List Fault) : Answer :=
  .error ("in '" ++ found ++ "':\n" ++ "\n".intercalate (faults.map Fault.text))

/-- The answer when a program that was included ends so. -/
def included (found source : String) : Except Fault Unit → Answer
  | .ok () => .ok .null
  | .error fault => faulty found [fault.withSource source]

/-- The function and the arguments that a function and an array give. -/
def applied? (state : State) (target items : Value) : Option (Definition × List Value) :=
  match target, items with
  | .callable id, .array items =>
      state.functions[id]?.map fun definition => (definition, (state.elements items).toList)
  | _, _ => none

/-- What a call of a built-in function gives that answers so. -/
def outcomeOf (given : Builtin) : Answer → Except Fault Value
  | .ok value => .ok value
  | .error reason => .error (Fault.ofCause (.refusal (given.name ++ "(): " ++ reason)) none)

end Meaning
end Scripting
