import Scripting.Machine
import Scripting.Text.Blank
import Scripting.Text.Lossy

/-!
# Settings

What can be set from outside, by four variables of the surrounding system: where
programs to include are looked for, which program runs first, whether the outline
of every program is shown, and how many calls may be active at once.
-/

namespace Scripting

/-- What can be set from outside. -/
structure Settings where
  /-- Whether the outline of every program that is read is shown. -/
  showOutlines : Bool
  /-- The path of the program that runs first. -/
  startup : Option String
  /-- The directories in which programs to include are looked for. -/
  libraries : List String
  /-- How many calls may be active at once. -/
  limit : Nat
  deriving DecidableEq, Inhabited

namespace Settings

/-- The settings of a system that sets nothing. -/
def standard : Settings where
  showOutlines := false
  startup := none
  libraries := []
  limit := defaultLimit

/-- The name of the startup program in the home directory. -/
def startupName : String := ".ciprrc"

/-- The directories that a variable lists, separated by colons. -/
def directories (value : ByteArray) : List String :=
  ((value.toList.splitOn ':'.toUInt8).filter (· ≠ [])).map Text.lossy

/-- The startup program in a home directory, if there is one. The names of files are
texts, so a directory that is none holds no such file. -/
def homeStartup (files : Files) (home : ByteArray) : Option String :=
  match String.fromUTF8? home with
  | none => none
  | some home =>
      let path := Path.join home startupName
      if files.isFile path then some path else none

/-- The startup program: the one that a variable names, where an empty value names
none, and otherwise the one in the home directory. -/
def startupOf (files : Files) (named home : Option ByteArray) : Option String :=
  match named with
  | some path => if path.isEmpty then none else some (Text.lossy path.toList)
  | none => home.bind (homeStartup files)

/-- Whether the value of a variable switches something on: all values do but four. -/
def isEnabled (value : ByteArray) : Bool :=
  match String.fromUTF8? value with
  | none => true
  | some text => !(["", "0", "false", "off"].contains text)

/-- The greatest limit that can be set. -/
def greatestLimit : Nat := 18446744073709551615

/-- A count in decimal digits, possibly after a plus sign. -/
def count? (text : List Char) : Option Nat :=
  let digits := match text with
    | '+' :: rest => rest
    | _ => text
  if digits.isEmpty || !digits.all Char.isDigit then none
  else
    let count := Decimal.valueOfDigits digits
    if count ≤ greatestLimit then some count else none

/-- The limit that a variable sets, if its value is a count above zero. -/
def limitOf? (value : ByteArray) : Option Nat :=
  match String.fromUTF8? value with
  | none => none
  | some text => (count? (Text.trimBlank text.toList)).filter (0 < ·)

/-- The settings that the variables of a system make. -/
def ofVariables (files : Files) (lookup : String → Option ByteArray) : Settings where
  showOutlines := ((lookup "CIPR_PRINT_AST").map isEnabled).getD false
  startup := startupOf files (lookup "CIPR_STARTUP") (lookup "HOME")
  libraries := ((lookup "CIPR_PATH").map directories).getD []
  limit := ((lookup "CIPR_MAX_DEPTH").bind limitOf?).getD defaultLimit

end Settings
end Scripting
