import Scripting.Value
import Scripting.Fault

/-!
# The store

All that the values of a run refer to: the bindings of every scope, the elements of
every array, and every function.  New ones are added at the end, and none is ever
taken away, so a reference keeps its meaning.

A name is looked up in the frames of a scope from the inside out; an assignment
changes the binding that the look-up finds, and a definition binds the name in the
innermost frame.
-/

namespace Scripting

/-- The names that one scope binds, each once. -/
abbrev Bindings := List (String × Value)

namespace Bindings

/-- The value bound to a name. -/
def find? : Bindings → String → Option Value
  | [], _ => none
  | (bound, value) :: rest, name => if bound = name then some value else find? rest name

/-- Binds a name, replacing its binding if it has one. -/
def bind : Bindings → String → Value → Bindings
  | [], name, value => [(name, value)]
  | (bound, old) :: rest, name, value =>
      if bound = name then (bound, value) :: rest else (bound, old) :: bind rest name value

/-- Whether a name is bound. -/
def binds (bindings : Bindings) (name : String) : Bool :=
  (bindings.find? name).isSome

@[simp] theorem find?_nil (name : String) : find? [] name = none := rfl

@[simp] theorem find?_bind_self
    (bindings : Bindings)
    (name : String)
    (value : Value) :
    (bindings.bind name value).find? name = some value := by
  induction bindings with
  | nil => simp [bind, find?]
  | cons entry rest inductionHypothesis =>
      unfold bind
      split
      next equal => simp [find?, equal]
      next different => simp [find?, different, inductionHypothesis]

theorem find?_bind_of_ne
    (bindings : Bindings)
    {name other : String}
    (value : Value)
    (different : other ≠ name) :
    (bindings.bind name value).find? other = bindings.find? other := by
  induction bindings with
  | nil => simp [bind, find?, different.symm]
  | cons entry rest inductionHypothesis =>
      unfold bind
      split
      next equal =>
          have notOther : ¬ entry.1 = other := fun same => different (same.symm.trans equal)
          simp [find?, notOther]
      next => simp [find?, inductionHypothesis]

end Bindings

/-- What the values of a run refer to. -/
structure Store where
  frames : Array Bindings
  arrays : Array (Array Value)
  callables : Array Callable
  deriving Inhabited

namespace Store

/-- The store of a new machine: an empty global scope. -/
def fresh : Store where
  frames := #[[]]
  arrays := #[]
  callables := #[]

/-- The bindings of a frame. -/
def bindings (store : Store) (frame : FrameId) : Bindings :=
  store.frames[frame]?.getD []

/-- The elements of an array. -/
def elements (store : Store) (id : ArrayId) : Array Value :=
  store.arrays[id]?.getD #[]

/-- The function at a place. -/
def callable? (store : Store) (id : CallableId) : Option Callable :=
  store.callables[id]?

/-- The value of a name in a scope. -/
def lookup (store : Store) (scope : Scope) (name : String) : Option Value :=
  scope.frames.findSome? fun frame => (store.bindings frame).find? name

/-- The first frame of a scope that binds a name. -/
def holder? (store : Store) (scope : Scope) (name : String) : Option FrameId :=
  scope.frames.find? fun frame => (store.bindings frame).binds name

/-- Whether a scope itself, and not one around it, binds a name. -/
def bindsLocally (store : Store) (scope : Scope) (name : String) : Bool :=
  (store.bindings scope.frame).binds name

/-- Binds a name in a frame. -/
def bindIn (store : Store) (frame : FrameId) (name : String) (value : Value) : Store :=
  { store with frames := store.frames.modify frame (·.bind name value) }

/-- Binds a name in the innermost frame of a scope. -/
def define (store : Store) (scope : Scope) (name : String) (value : Value) : Store :=
  store.bindIn scope.frame name value

/-- The fault of a name that no scope binds. -/
def unbound (name : Token) : Fault :=
  Fault.atToken (.undefinedVariable name.lexeme) name

/-- The value of a name, which has to be bound. -/
def get (store : Store) (scope : Scope) (name : Token) : Except Fault Value :=
  match store.lookup scope name.lexeme with
  | some value => .ok value
  | none => .error (unbound name)

/-- Changes the value of a name, which has to be bound. -/
def assign (store : Store) (scope : Scope) (name : Token) (value : Value) :
    Except Fault Store :=
  match store.holder? scope name.lexeme with
  | some frame => .ok (store.bindIn frame name.lexeme value)
  | none => .error (unbound name)

/-- The frame that is added next. -/
def nextFrame (store : Store) : FrameId :=
  store.frames.size

/-- Adds a frame without bindings. -/
def addFrame (store : Store) : Store :=
  { store with frames := store.frames.push [] }

/-- The place of the array that is added next. -/
def nextArray (store : Store) : ArrayId :=
  store.arrays.size

/-- Adds an array. -/
def addArray (store : Store) (items : Array Value) : Store :=
  { store with arrays := store.arrays.push items }

/-- Adds an element to the end of an array. -/
def pushElement (store : Store) (id : ArrayId) (value : Value) : Store :=
  { store with arrays := store.arrays.modify id (·.push value) }

/-- The place of the function that is added next. -/
def nextCallable (store : Store) : CallableId :=
  store.callables.size

/-- Adds a function. -/
def addCallable (store : Store) (callable : Callable) : Store :=
  { store with callables := store.callables.push callable }

@[simp] theorem bindings_fresh : fresh.bindings 0 = [] := rfl

/-- A new frame binds nothing. -/
@[simp] theorem bindings_addFrame (store : Store) (frame : FrameId) :
    store.addFrame.bindings frame = store.bindings frame := by
  simp only [addFrame, bindings, Array.getElem?_push]
  split
  next equal =>
      subst equal
      simp
  · rfl

/-- A binding changes one frame. -/
theorem bindings_bindIn
    (store : Store)
    (frame other : FrameId)
    (name : String)
    (value : Value) :
    (store.bindIn frame name value).bindings other =
      if other = frame ∧ frame < store.frames.size then (store.bindings other).bind name value
      else store.bindings other := by
  simp only [bindIn, bindings, Array.getElem?_modify]
  by_cases equal : frame = other
  · subst equal
    by_cases inside : frame < store.frames.size
    · simp [inside]
    · simp [inside]
  · simp [equal, Ne.symm equal]

/-- Binding names leaves the functions as they are. -/
theorem callables_foldl_bindIn
    (frame : FrameId)
    (bindings : List (String × Value))
    (store : Store) :
    (bindings.foldl (fun store binding => store.bindIn frame binding.1 binding.2)
      store).callables = store.callables := by
  induction bindings generalizing store with
  | nil => rfl
  | cons binding rest inductionHypothesis => exact inductionHypothesis _

@[simp] theorem elements_addArray_nextArray (store : Store) (items : Array Value) :
    (store.addArray items).elements store.nextArray = items := by
  simp [addArray, elements, nextArray]

@[simp] theorem elements_pushElement_self
    (store : Store)
    {id : ArrayId}
    (value : Value)
    (inside : id < store.arrays.size) :
    (store.pushElement id value).elements id = (store.elements id).push value := by
  simp [pushElement, elements, Array.getElem_modify, inside]

@[simp] theorem callable?_addCallable_nextCallable (store : Store) (callable : Callable) :
    (store.addCallable callable).callable? store.nextCallable = some callable := by
  simp [addCallable, callable?, nextCallable]

/-- A function is the added one or was there before. -/
theorem callable?_addCallable_cases
    {store : Store}
    {callable found : Callable}
    {id : CallableId}
    (present : (store.addCallable callable).callable? id = some found) :
    store.callable? id = some found ∨ found = callable := by
  rw [callable?, addCallable, Array.getElem?_push] at present
  split at present
  next => exact .inr (Option.some.inj present).symm
  next => exact .inl present

end Store
end Scripting
