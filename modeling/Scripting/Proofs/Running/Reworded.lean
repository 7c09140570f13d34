import Scripting.Proofs.Running.Regime
import Scripting.Proofs.Running.Texts

/-!
# Machines in other words

A machine in other words has other places and texts for the tokens of its nodes, and binds
other names: in its scopes, and as the parameters of its functions.  As long as different
names are replaced by different ones, the other name is bound where the name is, and
changing the store comes before or after the replacement.  Arrays, and the names by which
functions are shown, stay what they are.

Main statements: `Store.lookup_reworded`, `Store.bindIn_reworded`, `Store.text_reworded`.
-/

namespace Scripting

variable {spell : String → String}

/-! ## Bindings -/

namespace Bindings

/-- The bindings of other names. -/
def reworded (spell : String → String) (bindings : Bindings) : Bindings :=
  bindings.map fun binding => (spell binding.1, binding.2)

theorem reworded_cons (spell : String → String) (binding : String × Value) (rest : Bindings) :
    reworded spell (binding :: rest) = (spell binding.1, binding.2) :: rest.reworded spell := rfl

theorem find?_reworded
    (injective : Function.Injective spell)
    (bindings : Bindings)
    (name : String) :
    (bindings.reworded spell).find? (spell name) = bindings.find? name := by
  induction bindings with
  | nil => rfl
  | cons binding rest inductionHypothesis =>
      rw [reworded_cons, find?, find?, inductionHypothesis]
      simp only [injective.eq_iff]

theorem bind_reworded
    (injective : Function.Injective spell)
    (bindings : Bindings)
    (name : String)
    (value : Value) :
    (bindings.reworded spell).bind (spell name) value =
      (bindings.bind name value).reworded spell := by
  induction bindings with
  | nil => rfl
  | cons binding rest inductionHypothesis =>
      rw [reworded_cons, bind, bind, inductionHypothesis]
      simp only [injective.eq_iff]
      split <;> rfl

end Bindings

/-! ## Stores -/

/-- The function with other names for its parameters. -/
def Callable.reworded (spell : String → String) : Callable → Callable
  | function declared =>
      function { declared with parameters := declared.parameters.map spell }
  | builtin given => builtin given

@[simp] theorem Callable.reworded_arity (spell : String → String) (callable : Callable) :
    (callable.reworded spell).arity = callable.arity := by
  cases callable <;> simp [reworded, arity]

@[simp] theorem Callable.reworded_description (spell : String → String) (callable : Callable) :
    (callable.reworded spell).description = callable.description := by
  cases callable <;> rfl

namespace Store

/-- The store in which other names are bound. -/
def reworded (spell : String → String) (store : Store) : Store where
  frames := store.frames.map (Bindings.reworded spell)
  arrays := store.arrays
  callables := store.callables.map (Callable.reworded spell)

variable (store : Store)

theorem bindings_reworded (spell : String → String) (frame : FrameId) :
    (store.reworded spell).bindings frame = (store.bindings frame).reworded spell := by
  simp only [bindings, reworded, Array.getElem?_map]
  cases store.frames[frame]? <;> rfl

theorem callable?_reworded (spell : String → String) (id : CallableId) :
    (store.reworded spell).callable? id = (store.callable? id).map (Callable.reworded spell) := by
  simp [callable?, reworded]

theorem nextFrame_reworded (spell : String → String) :
    (store.reworded spell).nextFrame = store.nextFrame := by
  simp [nextFrame, reworded]

theorem nextCallable_reworded (spell : String → String) :
    (store.reworded spell).nextCallable = store.nextCallable := by
  simp [nextCallable, reworded]

theorem addFrame_reworded (spell : String → String) :
    (store.reworded spell).addFrame = store.addFrame.reworded spell := by
  simp [addFrame, reworded, Bindings.reworded]

theorem addCallable_reworded (spell : String → String) (callable : Callable) :
    (store.reworded spell).addCallable (callable.reworded spell) =
      (store.addCallable callable).reworded spell := by
  simp [addCallable, reworded]

/-- Values are shown as they were. -/
theorem text_reworded (spell : String → String) (value : Value) :
    (store.reworded spell).text value = store.text value := by
  have arrays : (store.reworded spell).arrays = store.arrays := rfl
  refine text_congr arrays (fun id => ?_) value
  rw [callable?_reworded, Option.map_map]
  congr 1
  funext callable
  exact callable.reworded_description spell

section Injective

variable (injective : Function.Injective spell)

include injective

/-- The other name has the value that the name has. -/
theorem lookup_reworded (scope : Scope) (name : String) :
    (store.reworded spell).lookup scope (spell name) = store.lookup scope name := by
  simp only [lookup, bindings_reworded, Bindings.find?_reworded injective]

/-- The other name is bound where the name is. -/
theorem holder?_reworded (scope : Scope) (name : String) :
    (store.reworded spell).holder? scope (spell name) = store.holder? scope name := by
  simp only [holder?, Bindings.binds, bindings_reworded, Bindings.find?_reworded injective]

theorem bindIn_reworded (frame : FrameId) (name : String) (value : Value) :
    (store.reworded spell).bindIn frame (spell name) value =
      (store.bindIn frame name value).reworded spell := by
  simp only [bindIn, reworded, mk.injEq, and_true]
  refine Array.ext_getElem? fun index => ?_
  simp only [Array.getElem?_modify, Array.getElem?_map]
  split
  · cases store.frames[index]? <;> simp [Bindings.bind_reworded injective]
  · rfl

theorem foldl_bindIn_reworded (frame : FrameId) (bindings : List (String × Value)) :
    (Bindings.reworded spell bindings).foldl
        (fun store binding => store.bindIn frame binding.1 binding.2) (store.reworded spell) =
      (bindings.foldl (fun store binding => store.bindIn frame binding.1 binding.2)
        store).reworded spell := by
  induction bindings generalizing store with
  | nil => rfl
  | cons binding rest inductionHypothesis =>
      rw [Bindings.reworded_cons, List.foldl_cons, List.foldl_cons, bindIn_reworded store injective]
      exact inductionHypothesis _

end Injective
end Store

/-! ## Machines -/

/-- The machine in other words. -/
def Machine.reworded (words : Rewording) (machine : Machine) : Machine :=
  { machine with
    arena := machine.arena.reworded words
    store := machine.store.reworded words.spell }

/-- The parameters of a function have the other names. -/
theorem Tree.Arena.parameterNames_reworded
    (words : Rewording)
    (arena : Tree.Arena)
    (node : Tree.Node) :
    (arena.reworded words).parameterNames (node.reworded words) =
      (arena.parameterNames node).map words.spell := by
  unfold parameterNames
  rw [List.map_filterMap]
  refine List.filterMap_congr fun id _ => ?_
  cases id with
  | none => rfl
  | some id =>
      change ((arena.reworded words).get? id).map Tree.Node.name = _
      rw [get?_reworded]
      change _ = ((arena.get? id).map Tree.Node.name).map words.spell
      cases arena.get? id <;> rfl

theorem Fault.orAt_reworded (words : Rewording) (fault : Fault) (token : Token) :
    (fault.orAt token).reworded words = (fault.reworded words).orAt (token.reworded words) := by
  unfold orAt
  cases placed : fault.span with
  | none =>
      rw [Fault.atToken_reworded]
      simp [reworded, placed]
  | some span => simp [reworded, placed]

end Scripting
