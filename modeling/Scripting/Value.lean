import Scripting.Tree.Arena

/-!
# Values

What expressions compute.  Arrays and functions are referred to by the place where
a store keeps them, so a copy of such a value shares what it refers to, and two
such values are the same exactly when they refer to one place.
-/

namespace Scripting

/-- Where a store keeps an array. -/
abbrev ArrayId := Nat

/-- Where a store keeps a function. -/
abbrev CallableId := Nat

/-- Where a store keeps the bindings of one scope. -/
abbrev FrameId := Nat

/-- The values of the language. -/
inductive Value where
  | null
  | bool (value : Bool)
  | number (value : Float)
  | text (value : String)
  | array (id : ArrayId)
  | callable (id : CallableId)
  deriving Inhabited

namespace Value

/-- The name of a value's type. -/
def typeName : Value → String
  | null => "null"
  | bool _ => "bool"
  | number _ => "number"
  | text _ => "string"
  | array _ => "array"
  | callable _ => "function"

/-- Whether a value counts as true: all do but null, false, and the number zero. -/
def isTruthy : Value → Bool
  | null => false
  | bool value => value
  | number value => !(value == 0.0)
  | _ => true

/-- Whether two values are the same. Values of different types never are, and
numbers are compared as numbers, so that zero has no sign and what is not a number
differs from itself. -/
def same : Value → Value → Bool
  | null, null => true
  | bool left, bool right => left == right
  | number left, number right => left == right
  | text left, text right => left == right
  | array left, array right => left == right
  | callable left, callable right => left == right
  | _, _ => false

/-- The value of a constant in a program. -/
def ofConstant : Tree.Constant → Value
  | .null => null
  | .bool value => bool value
  | .number value => number value
  | .text value => text value

/-- The value of a constant that may be missing. -/
def ofConstant? (constant : Option Tree.Constant) : Value :=
  ofConstant (constant.getD .null)

@[simp] theorem isTruthy_null : isTruthy null = false := rfl

@[simp] theorem isTruthy_bool (value : Bool) : isTruthy (bool value) = value := rfl

@[simp] theorem same_null : same null null = true := rfl

@[simp] theorem same_array (left right : ArrayId) :
    same (array left) (array right) = (left == right) := rfl

@[simp] theorem same_callable (left right : CallableId) :
    same (callable left) (callable right) = (left == right) := rfl

/-- Only values of one type are the same. -/
theorem typeName_eq_of_same
    {left right : Value}
    (equal : same left right = true) :
    left.typeName = right.typeName := by
  cases left <;> cases right <;> simp_all [same, typeName]

end Value

/-- A place in the nesting of scopes: the innermost one, and those around it from the
inside out. -/
structure Scope where
  frame : FrameId
  outer : List FrameId
  deriving DecidableEq, Inhabited

namespace Scope

/-- The global scope of every machine. -/
def global : Scope := ⟨0, []⟩

/-- The frames in which a name is looked up, in this order. -/
def frames (scope : Scope) : List FrameId :=
  scope.frame :: scope.outer

/-- A scope directly inside another. -/
def inside (scope : Scope) (frame : FrameId) : Scope :=
  ⟨frame, scope.frames⟩

@[simp] theorem frames_global : global.frames = [0] := rfl

@[simp] theorem frames_inside (scope : Scope) (frame : FrameId) :
    (scope.inside frame).frames = frame :: scope.frames := rfl

end Scope

/-- A function that a program declared. -/
structure Function where
  name : String
  parameters : List String
  /-- The block that a call executes. -/
  body : Option Tree.NodeId
  /-- The scope in which the function was declared. -/
  closure : Scope
  deriving Inhabited

/-- What a built-in function does. -/
inductive Action where
  /-- Seconds since the machine was made. -/
  | clock
  /-- The value of a variable of the surrounding system. -/
  | variable
  /-- How long a text or an array is. -/
  | size
  /-- A text without the white space at its ends. -/
  | trim
  /-- The parts of a text between separators. -/
  | split
  /-- Adds an element to the end of an array. -/
  | push
  /-- The text of a value. -/
  | text
  /-- The name of a value's type. -/
  | typeName
  /-- The content of a file. -/
  | readFile
  /-- Replaces the content of a file. -/
  | writeFile
  /-- Runs the program in a file. -/
  | runFile
  /-- Fails with a given text. -/
  | refuse
  /-- Calls a function with the elements of an array. -/
  | apply
  deriving DecidableEq, Inhabited

/-- A function that the machine brings with it. -/
structure Builtin where
  name : String
  arity : Nat
  action : Action
  deriving DecidableEq, Inhabited

/-- What can be called. -/
inductive Callable where
  | function (declared : Function)
  | builtin (given : Builtin)
  deriving Inhabited

namespace Callable

/-- How many arguments a call has to supply. -/
def arity : Callable → Nat
  | function declared => declared.parameters.length
  | builtin given => given.arity

/-- How a function is shown. -/
def description : Callable → String
  | function declared => "<fn " ++ declared.name ++ ">"
  | builtin given => "<native fn " ++ given.name ++ ">"

end Callable
end Scripting
