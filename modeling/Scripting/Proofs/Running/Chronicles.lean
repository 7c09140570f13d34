import Scripting.Proofs.Running.Growth
import Scripting.Proofs.Running.Referents

/-!
# The chronicles of runs

A chronicle lists everything that happens in the course of a run, in its order: an errand is
begun, and later it ends.  At every `Happening` some values are at hand: those that are bound
to names or stand in arrays, the arguments of a call that is begun, and the answer to an errand
that ends.

An array literal, the function that splits a text and the declaration of a function make a
value (`Activity.Makes`).  From one happening to the next nothing is taken out of the store,
and what is made was in it at none of the earlier ones (`Store.LastsThrough`).

Main statements: `Moment.Sound.exists_chronicle`, `Store.LastsThrough.pairwise`.
-/

namespace Scripting

open Tree (Node)

variable {α : Type}

/-! ## Happenings -/

/-- The value to which an errand comes, if it ends well and comes to one. -/
def Activity.answer? (activity : Activity) : Option Value :=
  match activity.outcome with
  | .ok answer _ => activity.errand.value? answer
  | .error _ _ => none

/-- An errand makes an array or a function: it evaluates an array literal, splits a text, or
declares a function, which is then bound to its name. -/
inductive Activity.Makes : Activity → Value → Prop
  | literal {id : Option Tree.NodeId} {machine later : Machine} {bound : Nat} {node : Node}
      {value : Value} :
      machine.arena.node? id = some node → node.kind = .array →
      (Run.within bound).evaluate id machine = .ok value later →
        Makes ⟨⟨.evaluate id, machine⟩, bound⟩ value
  | split {given : Builtin} {arguments : List Value} {machine later : Machine} {bound : Nat}
      {value : Value} :
      given.action = .split →
      (Run.within bound).call (.builtin given) arguments machine = .ok value later →
        Makes ⟨⟨.call (.builtin given) arguments, machine⟩, bound⟩ value
  | function {id : Option Tree.NodeId} {machine later : Machine} {bound : Nat} {node : Node}
      {flow : Flow} {value : Value} :
      machine.arena.node? id = some node → node.kind = .function →
      (Run.within bound).execute id machine = .ok flow later →
      (later.store.bindings machine.scope.frame).find? node.name = some value →
        Makes ⟨⟨.execute id, machine⟩, bound⟩ value

/-- What happens in the course of a run: an errand is begun, or it ends. -/
inductive Happening where
  | begins (activity : Activity)
  | ends (activity : Activity)

namespace Happening

/-- The errand that is begun or ends. -/
def activity : Happening → Activity
  | begins activity | ends activity => activity

/-- The machine as it is then. -/
def machine : Happening → Machine
  | begins activity => activity.machine
  | ends activity => machineAfter activity.outcome

/-- A value is at hand: it is bound to a name, it stands in an array, it is an argument of the
call that is begun, or the answer to the errand that ends. -/
inductive Holds : Happening → Value → Prop
  | bound {happening : Happening} {frame : FrameId} {name : String} {value : Value} :
      (happening.machine.store.bindings frame).find? name = some value → Holds happening value
  | element {happening : Happening} {id : ArrayId} {value : Value} :
      value ∈ happening.machine.store.elements id → Holds happening value
  | argument {callable : Callable} {arguments : List Value} {machine : Machine} {bound : Nat}
      {value : Value} :
      value ∈ arguments → Holds (begins ⟨⟨.call callable arguments, machine⟩, bound⟩) value
  | answer {activity : Activity} {value : Value} :
      activity.answer? = some value → Holds (ends activity) value

/-- The value is made by the errand that ends. -/
def Makes : Happening → Value → Prop
  | begins _, _ => False
  | ends activity, value => activity.Makes value

end Happening

/-- What happens in the course of an errand: it is begun, then what it begins happens, and in
the end it ends. -/
def Run.Chronicle : (bound : Nat) → Moment → List Happening → Prop
  | 0, moment, happenings => happenings = [.begins ⟨moment, 0⟩, .ends ⟨moment, 0⟩]
  | bound + 1, moment, happenings =>
      let activity : Activity := ⟨moment, bound + 1⟩
      ∃ links part, activity.Begins links ∧
        (∀ link ∈ links, Chronicle bound link.moment (part link)) ∧
        happenings = .begins activity :: (links.flatMap part ++ [.ends activity])

/-- Whatever is at hand in the course of a sound errand is in the store. -/
theorem Happening.Holds.has
    {happening : Happening}
    {value : Value}
    (holds : happening.Holds value)
    (sound : happening.activity.Sound) :
    happening.machine.store.Has value := by
  have enclosing (activity : Activity) := Steps.Enclosing.within activity.bound
  have complete : happening.machine.store.Complete := by
    cases happening with
    | begins activity => exact sound.complete.store
    | ends activity => exact ((enclosing activity).outcome sound.complete).1.complete
  cases holds with
  | bound isBound => exact complete.names _ _ _ isBound
  | element member => exact complete.elements _ _ member
  | argument member => exact sound.complete.arguments _ _ rfl _ member
  | @answer activity value given =>
      have shown := ((enclosing activity).outcome sound.complete).2
      change activity.toMoment.Sound at sound
      change (machineAfter activity.outcome).store.Has value
      unfold Activity.answer? at given
      cases ended : activity.outcome with
      | ok answer later =>
          rw [ended] at given
          exact shown answer later value ended given
      | error interrupt later =>
          rw [ended] at given
          cases given

/-! ## What is made -/

namespace Activity

theorem outcome_evaluate (id : Option Tree.NodeId) (machine : Machine) (bound : Nat) :
    outcome ⟨⟨.evaluate id, machine⟩, bound + 1⟩ = (Run.within bound).evaluateNode id machine := by
  change (Run.within (bound + 1)).evaluate id machine = _
  rw [Run.within_succ]
  rfl

theorem outcome_execute (id : Option Tree.NodeId) (machine : Machine) (bound : Nat) :
    outcome ⟨⟨.execute id, machine⟩, bound + 1⟩ = (Run.within bound).executeNode id machine := by
  change (Run.within (bound + 1)).execute id machine = _
  rw [Run.within_succ]
  rfl

theorem outcome_call
    (callable : Callable)
    (arguments : List Value)
    (machine : Machine)
    (bound : Nat) :
    outcome ⟨⟨.call callable arguments, machine⟩, bound + 1⟩ =
      (Run.within bound).callCallable callable arguments machine := by
  change (Run.within (bound + 1)).call callable arguments machine = _
  rw [Run.within_succ]
  rfl

end Activity

namespace Steps

variable {steps : Steps} {machine : Machine} {id : Option Tree.NodeId} {node : Node}

theorem evaluateNode_of_array
    (found : machine.arena.node? id = some node)
    (kind : node.kind = .array) :
    steps.evaluateNode id machine =
      (steps.evaluateAll node.children #[] >>= Run.newArray) machine := by
  simp only [Steps.evaluateNode, Run.bind_of_ok (Run.node?_of_eq found), kind]

theorem executeNode_of_function
    (found : machine.arena.node? id = some node)
    (kind : node.kind = .function) :
    steps.executeNode id machine = declareFunction node machine := by
  simp only [Steps.executeNode, Run.bind_of_ok (Run.node?_of_eq found), kind]

/-- A function is added, and bound to its name in the current scope. -/
theorem exists_declareFunction_eq (node : Node) (machine : Machine) :
    ∃ declared, declareFunction node machine = .ok .normal
      { machine with
        store := (machine.store.addCallable (.function declared)).bindIn machine.scope.frame
          node.name (.callable machine.store.nextCallable) } :=
  ⟨_, rfl⟩

/-- A text is split without any steps. -/
theorem exists_perform_eq_newArray
    {given : Builtin}
    (splits : given.action = .split)
    (arguments : List Value) :
    ∃ items, ∀ steps, Builtin.perform steps given arguments = Run.newArray items := by
  obtain ⟨items, made⟩ : ∃ items, Builtin.split (arguments.headD .null)
      (arguments.tail.headD .null) = Run.newArray items >>= fun value => pure (.ok value) := by
    unfold Builtin.split
    split <;> exact ⟨_, rfl⟩
  refine ⟨items, fun steps => ?_⟩
  have answers : Builtin.answer steps given.action arguments =
      Run.newArray items >>= fun value => pure (.ok value) := by
    rw [splits, ← made]
    rfl
  rw [Builtin.perform, answers]
  rfl

/-- The elements of a list are evaluated one after the other, and each leaves what those after it
retain. -/
theorem Enclosing.exists_begins_evaluateAll
    {β : Type}
    (enclosing : steps.Enclosing)
    (rounds : Nat)
    (ids : List (Option Tree.NodeId))
    (values : Array Value)
    (next : Array Value → Run β)
    (complete : machine.store.Complete)
    (has : ∀ value ∈ values, machine.store.Has value) :
    ∃ links, steps.Begins
        (fun steps =>
          (Steps.evaluateAll { steps with rounds := rounds } ids values >>= next) machine) links ∧
      ∀ link ∈ links, (machineAfter (steps.outcome link.moment)).store.Retains
        (machineAfter (steps.evaluateAll ids values machine)).store := by
  induction ids generalizing machine values with
  | nil => exact ⟨[], .nothing _, nofun⟩
  | cons id others inductionHypothesis =>
      let link : Link := .plain ⟨.evaluate id, machine⟩
      have opens : link.Opens
          (fun steps => (Steps.evaluateAll { steps with rounds := rounds } (id :: others) values >>=
            next) machine)
          fun value later steps =>
            (Steps.evaluateAll { steps with rounds := rounds } others (values.push value) >>= next)
              later := by
        intro steps
        simp only [Steps.evaluateAll, bind_assoc]
        rw [Run.bind_eq]
        change Run.goOn _ (steps.evaluate id machine) =
          link.resume _ (steps.evaluate id machine)
        cases steps.evaluate id machine with
        | ok value later => rfl
        | error interrupt later => cases interrupt <;> rfl
      obtain ⟨left, shown⟩ := @Enclosing.outcome steps enclosing ⟨.evaluate id, machine⟩
        ⟨complete, nofun⟩
      change (machineAfter (steps.evaluate id machine)).store.Holds machine.store at left
      cases ends : steps.evaluate id machine with
      | ok value later =>
          rw [ends] at left
          have onward : steps.evaluateAll (id :: others) values machine =
              steps.evaluateAll others (values.push value) later := by
            rw [Steps.evaluateAll, Run.bind_of_ok ends]
          have hasAll : ∀ other ∈ values.push value, later.store.Has other := by
            intro other member
            obtain old | rfl := Array.mem_push.mp member
            · exact (has other old).mono left.retains
            · exact shown _ later _ ends rfl
          have holds : later.store.Holds later.store := ⟨left.complete, .refl _⟩
          obtain ⟨links, begins, each⟩ :=
            inductionHypothesis (values.push value) left.complete hasAll
          refine ⟨link :: links, .answered opens ends begins, List.forall_mem_cons.mpr ⟨?_, ?_⟩⟩
          · have outcome : steps.outcome link.moment = .ok value later := ends
            rw [onward, outcome]
            have further := Run.Encloses.evaluateAll enclosing others hasAll
            exact (further.holds_machineAfter holds).retains
          · rwa [onward]
      | error interrupt later =>
          have stopped : steps.evaluateAll (id :: others) values machine =
              .error interrupt later := by
            rw [Steps.evaluateAll, Run.bind_of_error ends]
          refine ⟨[link], .interrupted opens ends, List.forall_mem_singleton.mpr ?_⟩
          have outcome : steps.outcome link.moment = .error interrupt later := ends
          rw [stopped, outcome]
          exact .refl _

end Steps

/-- A new array is in no earlier store. -/
theorem Store.not_has_nextArray {store later : Store} (retains : store.Retains later) :
    ¬ store.Has (.array later.nextArray) :=
  fun has => Nat.lt_irrefl _ (has.mono retains)

/-- A new function is in no earlier store. -/
theorem Store.not_has_nextCallable {store later : Store} (retains : store.Retains later) :
    ¬ store.Has (.callable later.nextCallable) :=
  fun has => Nat.lt_irrefl _ (has.mono retains)

/-- The value is in the store neither when the errand is begun nor when something ends that is
begun for it. -/
def Activity.Lacks (activity : Activity) (value : Value) : Prop :=
  ¬ activity.machine.store.Has value ∧ ∃ links, activity.Begins links ∧ ∀ link ∈ links,
    ¬ (machineAfter ((Run.within (activity.bound - 1)).outcome link.moment)).store.Has value

namespace Activity

variable {id : Option Tree.NodeId} {machine later : Machine} {bound : Nat} {node : Node}
  {value : Value}

/-- The elements of a literal are evaluated before the array is made. -/
theorem lacks_of_array
    (found : machine.arena.node? id = some node)
    (kind : node.kind = .array)
    (ends : outcome ⟨⟨.evaluate id, machine⟩, bound + 1⟩ = .ok value later)
    (complete : machine.store.Complete) :
    Lacks ⟨⟨.evaluate id, machine⟩, bound + 1⟩ value := by
  have work : Moment.work ⟨.evaluate id, machine⟩ bound = fun steps =>
      (Steps.evaluateAll { steps with rounds := bound } node.children #[] >>= Run.newArray)
        machine :=
    funext fun steps => Steps.evaluateNode_of_array found kind
  have enclosing := Steps.Enclosing.within bound
  have empty : ∀ item ∈ (#[] : Array Value), machine.store.Has item := by simp
  obtain ⟨links, begins, each⟩ :=
    enclosing.exists_begins_evaluateAll bound node.children #[] Run.newArray complete empty
  rw [← work] at begins
  have left := (Run.Encloses.evaluateAll enclosing node.children empty).holds_machineAfter
    ⟨complete, .refl machine.store⟩
  rw [outcome_evaluate, Steps.evaluateNode_of_array found kind] at ends
  cases evaluated : (Run.within bound).evaluateAll node.children #[] machine with
  | error interrupt middle =>
      rw [Run.bind_of_error evaluated] at ends
      cases ends
  | ok items middle =>
      rw [Run.bind_of_ok evaluated] at ends
      rw [evaluated] at left each
      cases ends
      exact ⟨Store.not_has_nextArray left.retains, links, begins,
        fun link member => Store.not_has_nextArray (each link member)⟩

/-- Nothing is begun when a text is split. -/
theorem lacks_of_split
    {given : Builtin}
    {arguments : List Value}
    (splits : given.action = .split)
    (ends : outcome ⟨⟨.call (.builtin given) arguments, machine⟩, bound + 1⟩ = .ok value later) :
    Lacks ⟨⟨.call (.builtin given) arguments, machine⟩, bound + 1⟩ value := by
  obtain ⟨items, performs⟩ := Steps.exists_perform_eq_newArray splits arguments
  have work : Moment.work ⟨.call (.builtin given) arguments, machine⟩ bound = fun _ =>
      Run.newArray items machine :=
    funext fun steps => congrFun (performs { steps with rounds := bound }) machine
  have begins : (Run.within bound).Begins
      (Moment.work ⟨.call (.builtin given) arguments, machine⟩ bound) [] := by
    rw [work]
    exact .nothing _
  rw [outcome_call] at ends
  change Builtin.perform (Run.within bound) given arguments machine = .ok value later at ends
  rw [performs] at ends
  cases ends
  exact ⟨Store.not_has_nextArray (.refl machine.store), [], begins, by simp⟩

/-- Nothing is begun when a function is declared. -/
theorem lacks_of_function
    {flow : Flow}
    (found : machine.arena.node? id = some node)
    (kind : node.kind = .function)
    (ends : outcome ⟨⟨.execute id, machine⟩, bound + 1⟩ = .ok flow later)
    (isBound : (later.store.bindings machine.scope.frame).find? node.name = some value)
    (inside : machine.scope.frame < machine.store.frames.size) :
    Lacks ⟨⟨.execute id, machine⟩, bound + 1⟩ value := by
  have work : Moment.work ⟨.execute id, machine⟩ bound = fun _ =>
      Steps.declareFunction node machine :=
    funext fun steps => Steps.executeNode_of_function found kind
  have begins : (Run.within bound).Begins (Moment.work ⟨.execute id, machine⟩ bound) [] := by
    rw [work]
    exact .nothing _
  obtain ⟨declared, declares⟩ := Steps.exists_declareFunction_eq node machine
  rw [outcome_execute, Steps.executeNode_of_function found kind, declares] at ends
  cases ends
  have isNew : value = .callable machine.store.nextCallable := by
    rw [Store.bindings_bindIn, if_pos ⟨rfl, inside⟩, Bindings.find?_bind_self] at isBound
    exact (Option.some.inj isBound).symm
  subst isNew
  exact ⟨Store.not_has_nextCallable (.refl machine.store), [], begins, by simp⟩

end Activity

namespace Activity.Makes

variable {activity : Activity} {value : Value}

theorem lacks (makes : activity.Makes value) (sound : activity.Sound) : activity.Lacks value := by
  cases makes with
  | @literal id machine later bound node value found kind ends =>
      cases bound with
      | zero => cases ends
      | succ bound => exact lacks_of_array found kind ends sound.complete.store
  | @split given arguments machine later bound value splits ends =>
      cases bound with
      | zero => cases ends
      | succ bound => exact lacks_of_split splits ends
  | @function id machine later bound node flow value found kind ends isBound =>
      cases bound with
      | zero => cases ends
      | succ bound =>
          obtain ⟨around, nests⟩ := sound.holds.2
          exact lacks_of_function found kind ends isBound nests.scope.1

/-- What an errand makes was in the store neither when it was begun nor when something ended that
was begun for it. -/
theorem not_has
    {links : List Link}
    (makes : activity.Makes value)
    (sound : activity.Sound)
    (begins : activity.Begins links) :
    ¬ activity.machine.store.Has value ∧ ∀ link ∈ links,
      ¬ (machineAfter ((Run.within (activity.bound - 1)).outcome link.moment)).store.Has value := by
  obtain ⟨isNew, others, alsoBegins, each⟩ := makes.lacks sound
  refine ⟨isNew, fun link member => ?_⟩
  obtain ⟨moment, bound⟩ := activity
  cases bound with
  | zero =>
      obtain rfl : links = [] := begins
      cases member
  | succ bound =>
      obtain ⟨other, isOther, same⟩ := Steps.Begins.exists_same_moment begins alsoBegins member
      exact same ▸ each other isOther

end Activity.Makes

/-! ## From one happening to the next -/

theorem Store.KeepsPlaces.retains
    {store later : Store}
    (keeps : store.KeepsPlaces later) :
    store.Retains later where
  arrays id inside := by
    obtain ⟨still, same⟩ := keeps.grows id inside
    rw [same]
    exact ⟨still, List.prefix_append _ _⟩
  callables id callable found := by
    obtain ⟨added, whole⟩ := keeps.callables
    rw [Store.callable?, ← Array.getElem?_toList] at found ⊢
    obtain ⟨inside, -⟩ := List.getElem?_eq_some_iff.mp found
    rw [← whole, List.getElem?_append_left inside, found]

/-- From the one store through all happenings to the other nothing is taken away, and what is
made was not there before. -/
def Store.LastsThrough : Store → List Happening → Store → Prop
  | store, [], later => store.Retains later
  | store, happening :: others, later =>
      store.Retains happening.machine.store ∧
      (∀ value, happening.Makes value → ¬ store.Has value) ∧
      happening.machine.store.LastsThrough others later

/-- The one happening comes before the other. -/
structure Happening.Precedes (earlier later : Happening) : Prop where
  retains : earlier.machine.store.Retains later.machine.store
  isNew : ∀ value, later.Makes value → ¬ earlier.machine.store.Has value

namespace Store.LastsThrough

variable {store between later : Store} {happenings others : List Happening}

theorem of_retains
    (retains : store.Retains between)
    (through : between.LastsThrough happenings later) :
    store.LastsThrough happenings later := by
  cases happenings with
  | nil => exact retains.trans through
  | cons happening rest =>
      obtain ⟨here, isNew, onward⟩ := through
      refine ⟨retains.trans here, fun value makes has => ?_, onward⟩
      exact isNew value makes (has.mono retains)

theorem append
    (first : store.LastsThrough happenings between)
    (second : between.LastsThrough others later) :
    store.LastsThrough (happenings ++ others) later := by
  induction happenings generalizing store with
  | nil => exact of_retains first second
  | cons happening rest inductionHypothesis =>
      exact ⟨first.1, first.2.1, inductionHypothesis first.2.2⟩

/-- What the one store has is there at every happening, and nothing of it is made. -/
theorem precedes
    (through : store.LastsThrough happenings later) :
    ∀ happening ∈ happenings, store.Retains happening.machine.store ∧
      ∀ value, happening.Makes value → ¬ store.Has value := by
  induction happenings generalizing store with
  | nil => exact nofun
  | cons happening rest inductionHypothesis =>
      obtain ⟨retains, isNew, onward⟩ := through
      refine List.forall_mem_cons.mpr ⟨⟨retains, isNew⟩, ?_⟩
      exact inductionHypothesis (of_retains retains onward)

theorem pairwise
    (through : store.LastsThrough happenings later) :
    happenings.Pairwise Happening.Precedes := by
  induction happenings generalizing store with
  | nil => exact .nil
  | cons happening rest inductionHypothesis =>
      obtain ⟨-, -, onward⟩ := through
      refine .cons (fun other member => ?_) (inductionHypothesis onward)
      obtain ⟨retains, isNew⟩ := onward.precedes other member
      exact ⟨retains, isNew⟩

end Store.LastsThrough

/-- Where the work itself keeps what is there, nothing is lost through what it begins; and what is
not there when the work begins nor when something has ended is not there in the end. -/
theorem Manner.Along.exists_lastsThrough
    {manner : Manner}
    {steps : Steps}
    {machine : Machine}
    {links : List Link}
    {part : Link → List Happening}
    {ending : Ending α}
    {lacks : Store → Prop}
    (along : manner.Along steps machine links ending)
    (steady : ¬ manner.pushes)
    (start : lacks machine.store)
    (each : ∀ link ∈ links, (∀ later, (link.back later).store = later.store) ∧
      link.moment.machine.store.LastsThrough (part link)
        (machineAfter (steps.outcome link.moment)).store ∧
      lacks (machineAfter (steps.outcome link.moment)).store) :
    ∃ last, lacks last ∧ machine.store.LastsThrough (links.flatMap part) last ∧
      last.Retains (machineAfter ending).store := by
  induction along with
  | @ends machine ending allows =>
      exact ⟨machine.store, start, .refl _, (allows.keeps.resolve_left steady).retains⟩
  | @interrupted machine link interrupt later keeps ends =>
      obtain ⟨back, inside, lacking⟩ := each _ (List.mem_singleton_self _)
      rw [ends] at inside lacking
      rw [List.flatMap_singleton]
      refine ⟨later.store, lacking, .of_retains (keeps.resolve_left steady).retains inside, ?_⟩
      exact (back later).symm ▸ .refl later.store
  | @answered machine link answer later links ending keeps ends _ inductionHypothesis =>
      obtain ⟨⟨back, inside, lacking⟩, others⟩ := List.forall_mem_cons.mp each
      rw [ends] at inside lacking
      rw [List.flatMap_cons]
      obtain ⟨last, isLacking, onward, retains⟩ :=
        inductionHypothesis ((back later).symm ▸ lacking) others
      rw [back] at onward
      refine ⟨last, isLacking, ?_, retains⟩
      exact .of_retains (keeps.resolve_left steady).retains (inside.append onward)

/-- The course of a sound errand: everything that happens is sound, nothing is lost, and what is
made is new. -/
theorem Moment.Sound.exists_chronicle
    {moment : Moment}
    (sound : moment.Sound)
    (bound : Nat) :
    ∃ happenings, Run.Chronicle bound moment happenings ∧
      (∀ happening ∈ happenings, happening.activity.Sound) ∧
      moment.machine.store.LastsThrough happenings
        (machineAfter ((Run.within bound).outcome moment)).store := by
  induction bound generalizing moment with
  | zero =>
      have same : machineAfter ((Run.within 0).outcome moment) = moment.machine := by
        obtain ⟨errand, machine⟩ := moment
        cases errand <;> rfl
      let here : Activity := ⟨moment, 0⟩
      have isNew (value : Value) (makes : here.Makes value) :=
        (makes.not_has sound (rfl : here.Begins [])).1
      have retains : moment.machine.store.Retains
          (machineAfter ((Run.within 0).outcome moment)).store := by
        rw [same]
        exact .refl _
      exact ⟨_, rfl, by simp [Happening.activity, sound], .refl _, nofun, retains, isNew, .refl _⟩
  | succ bound inductionHypothesis =>
      obtain ⟨links, proceeds⟩ := sound.isFit.exists_proceeds bound
      have backs : ∀ link ∈ links, ∀ later, (link.back later).store = later.store :=
        fun link member => (proceeds.leads link member).back_store
      have sounds := sound.of_begins proceeds.begins backs
      have each : ∀ link ∈ links, ∃ part, Run.Chronicle bound link.moment part ∧
          (∀ happening ∈ part, happening.activity.Sound) ∧
          link.moment.machine.store.LastsThrough part
            (machineAfter ((Run.within bound).outcome link.moment)).store :=
        fun link member => inductionHypothesis (sounds link member)
      choose! part chronicle areSound through using each
      let here : Activity := ⟨moment, bound + 1⟩
      have isNew (value : Value) (makes : here.Makes value) :=
        makes.not_has sound proceeds.begins
      obtain ⟨last, lacking, inside, onward⟩ : ∃ last : Store,
          (∀ value, here.Makes value → ¬ last.Has value) ∧
          moment.machine.store.LastsThrough (links.flatMap part) last ∧
          last.Retains (machineAfter here.outcome).store := by
        by_cases pushes : moment.Pushes
        · have nothing : links = [] := List.eq_nil_iff_forall_not_mem.mpr fun link member =>
            (proceeds.leads link member).not_pushes pushes
          subst nothing
          have left := ((Steps.Enclosing.within (bound + 1)).outcome sound.complete).1
          exact ⟨moment.machine.store, fun value makes => (isNew value makes).1, .refl _,
            left.retains⟩
        · exact proceeds.along.exists_lastsThrough pushes
            (fun value makes => (isNew value makes).1) fun link member =>
              ⟨backs link member, through link member,
                fun value makes => (isNew value makes).2 link member⟩
      refine ⟨_, ⟨links, part, proceeds.begins, chronicle, rfl⟩, ?_, .refl _, nofun,
        inside.append ⟨onward, lacking, .refl _⟩⟩
      intro happening member
      obtain rfl | member := List.mem_cons.mp member
      · exact sound
      obtain member | member := List.mem_append.mp member
      · obtain ⟨link, isLink, isPart⟩ := List.mem_flatMap.mp member
        exact areSound link isLink happening isPart
      · obtain rfl := List.mem_singleton.mp member
        exact sound

end Scripting
