import Scripting.Proofs.Alike.Trees
import Scripting.Proofs.Running.Texts
import Scripting.Machine

/-!
# Alike machines

Two machines are alike when they differ in nothing but their arenas and the bodies of
the functions that programs declared, and the bodies are alike.  Work agrees with
other work when from alike machines both end in the same way, with alike values, on
machines that are alike again; the work may hold on to nodes that are alike already,
since arenas only grow.

Main statements: work that agrees can be followed by work that agrees
(`Agrees.bind`), and the steps of a machine agree with themselves (`agrees_define`
and the others).
-/

namespace Scripting

open Tree (Arena Arenas Exchange TokensAlike)

variable {exchange : Exchange} {arenas later : Arenas} {α β γ δ : Type}

/-! ## Faults -/

mutual

/-- Faults with alike causes, blamed on alike tokens or on none. The lines of the
source are the same when the places are. -/
inductive Fault.Alike (exchange : Exchange) (arenas : Arenas) : Fault → Fault → Prop
  | placed {token twin : Token} {cause twinCause : Cause} {line twinLine : Option String} :
      TokensAlike exchange arenas token twin →
      Cause.Alike exchange arenas cause twinCause →
      (token.span = twin.span → line = twinLine) →
      Fault.Alike exchange arenas
        { Fault.atToken cause token with sourceLine := line }
        { Fault.atToken twinCause twin with sourceLine := twinLine }
  | unplaced {cause twinCause : Cause} :
      Cause.Alike exchange arenas cause twinCause →
      Fault.Alike exchange arenas (Fault.ofCause cause none) (Fault.ofCause twinCause none)

/-- Causes that are the same, or quote alike faults. -/
inductive Cause.Alike (exchange : Exchange) (arenas : Arenas) : Cause → Cause → Prop
  | same (cause : Cause) : Cause.Alike exchange arenas cause cause
  | quoting (before : String) {fault twin : Fault} :
      Fault.Alike exchange arenas fault twin →
      Cause.Alike exchange arenas (.refusal (before ++ fault.text)) (.refusal (before ++ twin.text))

end

mutual

theorem Fault.Alike.mono
    (before : arenas ≤ later) :
    ∀ {fault twin : Fault}, fault.Alike exchange arenas twin → fault.Alike exchange later twin
  | _, _, .placed tokens cause lines => .placed (tokens.mono before) (cause.mono before) lines
  | _, _, .unplaced cause => .unplaced (cause.mono before)

theorem Cause.Alike.mono
    (before : arenas ≤ later) :
    ∀ {cause twin : Cause}, cause.Alike exchange arenas twin → cause.Alike exchange later twin
  | _, _, .same cause => .same cause
  | _, _, .quoting text fault => .quoting text (fault.mono before)

end

mutual

/-- Where no token stands for another, alike faults are the same. -/
theorem Fault.Alike.eq :
    ∀ {fault twin : Fault}, fault.Alike .unchanged arenas twin → fault = twin
  | _, _, .placed tokens cause lines => by
      obtain ⟨_, _, _, _, _, _, _, _, same⟩ := tokens
      cases same
      rw [cause.eq, lines rfl]
  | _, _, .unplaced cause => by rw [cause.eq]

/-- Where no token stands for another, alike causes are the same. -/
theorem Cause.Alike.eq :
    ∀ {cause twin : Cause}, cause.Alike .unchanged arenas twin → cause = twin
  | _, _, .same _ => rfl
  | _, _, .quoting _ fault => by rw [fault.eq]

end

/-- A fault blamed on a token, with the line of a source that it is on. -/
theorem Fault.withSource_atToken
    (cause : Cause)
    (token : Token)
    (line : Option String)
    (source : String) :
    ({ Fault.atToken cause token with sourceLine := line }).withSource source =
      { Fault.atToken cause token with
        sourceLine :=
          if token.span.line = 0 then line
          else match (Text.lines source.toList)[token.span.line - 1]? with
            | none => line
            | some found => some (String.ofList found) } := by
  unfold Fault.withSource Fault.atToken
  by_cases zero : token.span.line = 0
  · simp [zero]
  · cases found : (Text.lines source.toList)[token.span.line - 1]? <;> simp [zero, found]

theorem Fault.Alike.withSource
    {fault twin : Fault}
    (alike : fault.Alike exchange arenas twin)
    (source : String) :
    (fault.withSource source).Alike exchange arenas (twin.withSource source) := by
  cases alike with
  | placed tokens cause lines =>
      rw [Fault.withSource_atToken, Fault.withSource_atToken]
      refine .placed tokens cause fun same => ?_
      rw [same, lines same]
  | unplaced cause => exact .unplaced cause

theorem Fault.Alike.orAt
    {fault twin : Fault}
    {token twinToken : Token}
    (alike : fault.Alike exchange arenas twin)
    (tokens : TokensAlike exchange arenas token twinToken) :
    (fault.orAt token).Alike exchange arenas (twin.orAt twinToken) := by
  cases alike with
  | placed placedTokens cause lines => exact .placed placedTokens cause lines
  | unplaced cause => exact .placed tokens cause fun _ => rfl

/-! ## Machines -/

/-- What can be called, with alike bodies of functions. -/
inductive Callable.Alike (exchange : Exchange) (arenas : Arenas) : Callable → Callable → Prop
  | builtin (given : Builtin) : Callable.Alike exchange arenas (.builtin given) (.builtin given)
  | function (name : String) (parameters : List String) (closure : Scope)
      {body twin : Option Tree.NodeId} :
      Tree.Alike exchange arenas body twin →
      Callable.Alike exchange arenas (.function ⟨name, parameters, body, closure⟩)
        (.function ⟨name, parameters, twin, closure⟩)

namespace Callable.Alike

variable {callable twin : Callable}

/-- Functions stay alike while nodes are added, and with an exchange that admits more
of their tokens. -/
theorem change
    {wider : Exchange}
    (alike : callable.Alike exchange arenas twin)
    (before : arenas ≤ later)
    (admits : ∀ {id token twinToken}, id < arenas.left.size →
      exchange.admits id token twinToken → wider.admits id token twinToken) :
    callable.Alike wider later twin := by
  cases alike with
  | builtin given => exact .builtin given
  | function name parameters closure body =>
      exact .function name parameters closure (body.change before admits)

theorem mono
    (alike : callable.Alike exchange arenas twin)
    (before : arenas ≤ later) :
    callable.Alike exchange later twin :=
  alike.change before fun _ admitted => admitted

theorem arity_eq (alike : callable.Alike exchange arenas twin) : twin.arity = callable.arity := by
  cases alike <;> rfl

theorem description_eq (alike : callable.Alike exchange arenas twin) :
    twin.description = callable.description := by
  cases alike <;> rfl

end Callable.Alike

/-- The store with other functions. -/
def Store.withCallables (store : Store) (callables : Array Callable) : Store :=
  { store with callables := callables }

namespace Machine

/-- The machine with another arena and other functions. -/
def exchanging (machine : Machine) (arena : Arena) (callables : Array Callable) : Machine :=
  { machine with arena := arena, store := machine.store.withCallables callables }

/-- The arenas of two machines. -/
def together (machine twin : Machine) : Arenas :=
  ⟨machine.arena, twin.arena⟩

/-- The machines differ only in their arenas and in the bodies of functions, and these
are alike. No node that is added will have another token. -/
structure Alike (exchange : Exchange) (machine twin : Machine) : Prop where
  rest : twin = machine.exchanging twin.arena twin.store.callables
  count : twin.store.callables.size = machine.store.callables.size
  callables (id : CallableId) :
    Option.Rel (Callable.Alike exchange (machine.together twin)) (machine.store.callable? id)
      (twin.store.callable? id)
  fresh (id : Tree.NodeId) (token : Token) :
    machine.arena.size ≤ id → exchange.admits id token token

/-- What is related is related more widely. -/
theorem rel_of_rel
    {related wider : α → β → Prop}
    {first : Option α}
    {second : Option β}
    (relation : Option.Rel related first second)
    (implies : ∀ {value other}, related value other → wider value other) :
    Option.Rel wider first second := by
  cases relation with
  | none => exact .none
  | some values => exact .some (implies values)

/-- The machines stay alike when nodes are added to them, with an exchange that admits
more tokens at the old nodes. -/
theorem Alike.change
    {wider : Exchange}
    {machine twin : Machine}
    (alike : machine.Alike exchange twin)
    {arena other : Arena}
    (grown : machine.arena ≤ arena)
    (twinGrown : twin.arena ≤ other)
    (admits : ∀ {id token twinToken}, id < machine.arena.size →
      exchange.admits id token twinToken → wider.admits id token twinToken)
    (fresh : ∀ id token, arena.size ≤ id → wider.admits id token token) :
    ({ machine with arena := arena }).Alike wider { twin with arena := other } where
  rest := by
    conv => lhs; rw [alike.rest]
    rfl
  count := alike.count
  callables id :=
    rel_of_rel (alike.callables id) fun callables => callables.change ⟨grown, twinGrown⟩ admits
  fresh := fresh

/-- The machines stay alike when nodes are added to them. -/
theorem Alike.adding
    {machine twin : Machine}
    (alike : machine.Alike exchange twin)
    {arena other : Arena}
    (grown : machine.arena ≤ arena)
    (twinGrown : twin.arena ≤ other) :
    ({ machine with arena := arena }).Alike exchange { twin with arena := other } :=
  alike.change grown twinGrown (fun _ admitted => admitted) fun id token bound =>
    alike.fresh id token (Nat.le_trans (Arena.size_le_of_le grown) bound)

/-- What is computed from related values in the same way is the same. -/
theorem map_eq_of_rel
    {related : α → β → Prop}
    {first : Option α}
    {second : Option β}
    {left : α → γ}
    {right : β → γ}
    (relation : Option.Rel related first second)
    (same : ∀ {value other}, related value other → right other = left value) :
    second.map right = first.map left := by
  cases relation with
  | none => rfl
  | some values => exact congrArg some (same values)

/-- What depends neither on the arena nor on the functions is the same on alike
machines. -/
theorem Alike.field_eq
    {machine twin : Machine}
    (alike : machine.Alike exchange twin)
    (field : Machine → α)
    (same : ∀ machine arena callables,
      field (machine.exchanging arena callables) = field machine) :
    field twin = field machine :=
  (congrArg field alike.rest).trans (same _ _ _)

/-- What changes neither the arena nor the functions keeps machines alike. -/
theorem Alike.keeping
    {machine twin : Machine}
    (alike : machine.Alike exchange twin)
    (changed : Machine)
    (arena : changed.arena = machine.arena)
    (callables : changed.store.callables = machine.store.callables) :
    changed.Alike exchange (changed.exchanging twin.arena twin.store.callables) where
  rest := rfl
  count := by rw [callables, ← alike.count]; rfl
  callables id := by
    have related := alike.callables id
    unfold Store.callable? at related ⊢
    rw [callables]
    unfold together at related ⊢
    rw [arena]
    exact related
  fresh id token := by
    rw [arena]
    exact alike.fresh id token

theorem Alike.text_eq
    {machine twin : Machine}
    (alike : machine.Alike exchange twin)
    (value : Value) :
    twin.store.text value = machine.store.text value := by
  refine Store.text_congr ?_ (fun id => ?_) value
  · exact alike.field_eq (fun machine => machine.store.arrays) fun _ _ _ => rfl
  · exact map_eq_of_rel (alike.callables id) fun callables => callables.description_eq

end Machine

/-! ## Work that agrees -/

/-- Two pieces of work end in the same way: on alike machines with alike values, or
interrupted by alike faults or because the bound is used up. -/
inductive EndAlike
    (exchange : Exchange)
    (arenas : Arenas)
    (same : Arenas → α → β → Prop) :
    EStateM.Result Interrupt Machine α → EStateM.Result Interrupt Machine β → Prop
  | ok {value : α} {other : β} {machine twin : Machine} :
      machine.Alike exchange twin →
      arenas ≤ machine.together twin →
      same (machine.together twin) value other →
      EndAlike exchange arenas same (.ok value machine) (.ok other twin)
  | fault {fault other : Fault} {machine twin : Machine} :
      machine.Alike exchange twin →
      arenas ≤ machine.together twin →
      fault.Alike exchange (machine.together twin) other →
      EndAlike exchange arenas same (.error (.fault fault) machine) (.error (.fault other) twin)
  | exhausted {machine twin : Machine} :
      machine.Alike exchange twin →
      arenas ≤ machine.together twin →
      EndAlike exchange arenas same (.error .exhausted machine) (.error .exhausted twin)

/-- From alike machines whose arenas come after the given ones, the two pieces of work
end in the same way. -/
def Agrees
    (exchange : Exchange)
    (arenas : Arenas)
    (same : Arenas → α → β → Prop)
    (work : Run α)
    (other : Run β) : Prop :=
  ∀ machine twin : Machine, machine.Alike exchange twin → arenas ≤ machine.together twin →
    EndAlike exchange (machine.together twin) same (work machine) (other twin)

/-- The values are the same. -/
abbrev Same : Arenas → α → α → Prop :=
  fun _ value other => other = value

namespace EndAlike

variable {same : Arenas → α → β → Prop}

theorem earlier
    {first : EStateM.Result Interrupt Machine α}
    {second : EStateM.Result Interrupt Machine β}
    (ends : EndAlike exchange later same first second)
    (before : arenas ≤ later) :
    EndAlike exchange arenas same first second := by
  cases ends with
  | ok alike after values => exact .ok alike (Arenas.le_trans before after) values
  | fault alike after faults => exact .fault alike (Arenas.le_trans before after) faults
  | exhausted alike after => exact .exhausted alike (Arenas.le_trans before after)

end EndAlike

namespace Agrees

variable {same : Arenas → α → β → Prop} {sameNext : Arenas → γ → δ → Prop}

theorem pure
    {value : α}
    {other : β}
    (values : ∀ {later}, arenas ≤ later → same later value other) :
    Agrees exchange arenas same (Pure.pure value) (Pure.pure other) :=
  fun _ _ alike after => .ok alike (Arenas.le_refl _) (values after)

theorem exhausted : Agrees exchange arenas same (throw .exhausted) (throw .exhausted) :=
  fun _ _ alike _ => .exhausted alike (Arenas.le_refl _)

theorem bind
    {work : Run α}
    {other : Run β}
    {next : α → Run γ}
    {otherNext : β → Run δ}
    (first : Agrees exchange arenas same work other)
    (second : ∀ {later value twinValue}, arenas ≤ later → same later value twinValue →
      Agrees exchange later sameNext (next value) (otherNext twinValue)) :
    Agrees exchange arenas sameNext (work >>= next) (other >>= otherNext) := by
  intro machine twin alike before
  have ends := first machine twin alike before
  simp only [Bind.bind, EStateM.bind]
  generalize work machine = left at ends ⊢
  generalize other twin = right at ends ⊢
  cases ends with
  | ok between after values =>
      exact (second (Arenas.le_trans before after) values _ _ between (Arenas.le_refl _)).earlier
        after
  | fault between after faults => exact .fault between after faults
  | exhausted between after => exact .exhausted between after

/-- Work that agrees is followed by work that uses the same value. -/
theorem bind_same
    {work other : Run α}
    {next : α → Run γ}
    {otherNext : α → Run δ}
    (first : Agrees exchange arenas Same work other)
    (second : ∀ {later} value, arenas ≤ later →
      Agrees exchange later sameNext (next value) (otherNext value)) :
    Agrees exchange arenas sameNext (work >>= next) (other >>= otherNext) :=
  first.bind fun before values => values ▸ second _ before

theorem fail
    {cause twinCause : Cause}
    {token twin : Token}
    (tokens : TokensAlike exchange arenas token twin)
    (causes : cause.Alike exchange arenas twinCause) :
    Agrees exchange arenas same (Run.fail cause token) (Run.fail twinCause twin) :=
  fun _ _ alike after =>
    .fault alike (Arenas.le_refl _) (.placed (tokens.mono after) (causes.mono after) fun _ => rfl)

end Agrees

/-! ## The steps of a machine -/

section Steps

open Tree (NodeId)

/-- Work that succeeds on every machine, changing neither the arena nor the functions and
not looking at them, agrees with itself. -/
theorem agrees_of_commutes
    {work : Run α}
    (value : Machine → α)
    (change : Machine → Machine)
    (succeeds : ∀ machine, work machine = .ok (value machine) (change machine))
    (keeps : ∀ machine, (change machine).arena = machine.arena ∧
      (change machine).store.callables = machine.store.callables)
    (commutes : ∀ machine arena callables,
      value (machine.exchanging arena callables) = value machine ∧
        change (machine.exchanging arena callables) =
          (change machine).exchanging arena callables) :
    Agrees exchange arenas Same work work := by
  intro machine twin alike before
  obtain ⟨sameValue, sameMachine⟩ := commutes machine twin.arena twin.store.callables
  rw [← alike.rest] at sameValue sameMachine
  rw [succeeds machine, succeeds twin, sameMachine]
  refine .ok (alike.keeping _ (keeps machine).1 (keeps machine).2) ?_ sameValue
  unfold Machine.together
  rw [(keeps machine).1]
  exact Arenas.le_refl _

theorem agrees_elementsOf (id : ArrayId) :
    Agrees exchange arenas Same (Run.elementsOf id) (Run.elementsOf id) :=
  agrees_of_commutes (fun machine => machine.store.elements id) (fun machine => machine)
    (fun _ => rfl) (fun _ => ⟨rfl, rfl⟩) fun _ _ _ => ⟨rfl, rfl⟩

theorem agrees_define (name : String) (value : Value) :
    Agrees exchange arenas Same (Run.define name value) (Run.define name value) :=
  agrees_of_commutes (fun _ => ())
    (fun machine => { machine with
      store := machine.store.bindIn machine.scope.frame name value })
    (fun _ => rfl) (fun _ => ⟨rfl, rfl⟩) fun _ _ _ => ⟨rfl, rfl⟩

theorem agrees_newArray (items : Array Value) :
    Agrees exchange arenas Same (Run.newArray items) (Run.newArray items) :=
  agrees_of_commutes (fun machine => .array machine.store.nextArray)
    (fun machine => { machine with store := machine.store.addArray items })
    (fun _ => rfl) (fun _ => ⟨rfl, rfl⟩) fun _ _ _ => ⟨rfl, rfl⟩

theorem agrees_pushElement (id : ArrayId) (value : Value) :
    Agrees exchange arenas Same (Run.changeStore (·.pushElement id value))
      (Run.changeStore (·.pushElement id value)) :=
  agrees_of_commutes (fun _ => ())
    (fun machine => { machine with store := machine.store.pushElement id value })
    (fun _ => rfl) (fun _ => ⟨rfl, rfl⟩) fun _ _ _ => ⟨rfl, rfl⟩

theorem agrees_get :
    Agrees exchange arenas (fun _ machine twin => machine.Alike exchange twin) get get :=
  fun _ _ alike _ => .ok alike (Arenas.le_refl _) alike

theorem agrees_textOf (value : Value) :
    Agrees exchange arenas Same (Run.textOf value) (Run.textOf value) :=
  fun _ _ alike _ => .ok alike (Arenas.le_refl _) (alike.text_eq value)

theorem agrees_node?
    {id other : Option NodeId}
    (alike : Tree.Alike exchange arenas id other) :
    Agrees exchange arenas
      (fun later => Option.Rel (Tree.Node.Alike exchange later)) (Run.node? id) (Run.node? other) :=
  fun _ _ machines before => .ok machines (Arenas.le_refl _) (alike.mono before).nodes

theorem agrees_callableAt? (id : CallableId) :
    Agrees exchange arenas (fun later => Option.Rel (Callable.Alike exchange later))
      (Run.callableAt? id) (Run.callableAt? id) :=
  fun _ _ alike _ => .ok alike (Arenas.le_refl _) (alike.callables id)

theorem agrees_valueOf
    {name twin : Token}
    (tokens : TokensAlike exchange arenas name twin) :
    Agrees exchange arenas Same (Run.valueOf name) (Run.valueOf twin) := by
  intro machine other alike before
  have found : other.store.lookup other.scope twin.lexeme =
      machine.store.lookup machine.scope name.lexeme := by
    rw [tokens.lexeme_eq, alike.rest]
    rfl
  unfold Run.valueOf Store.get
  rw [found]
  cases machine.store.lookup machine.scope name.lexeme with
  | some value => exact .ok alike (Arenas.le_refl _) rfl
  | none =>
      unfold Store.unbound
      rw [tokens.lexeme_eq]
      exact .fault alike (Arenas.le_refl _) (.placed (tokens.mono before) (.same _) fun _ => rfl)

theorem agrees_assign
    {name twin : Token}
    (tokens : TokensAlike exchange arenas name twin)
    (value : Value) :
    Agrees exchange arenas Same (Run.assign name value) (Run.assign twin value) := by
  intro machine other alike before
  have found : other.store.holder? other.scope twin.lexeme =
      machine.store.holder? machine.scope name.lexeme := by
    rw [tokens.lexeme_eq, alike.rest]
    rfl
  unfold Run.assign
  rw [found]
  cases machine.store.holder? machine.scope name.lexeme with
  | some frame =>
      have changed := alike.keeping
        { machine with store := machine.store.bindIn frame name.lexeme value } rfl rfl
      have same : { other with store := other.store.bindIn frame twin.lexeme value } =
          ({ machine with store := machine.store.bindIn frame name.lexeme value }).exchanging
            other.arena other.store.callables := by
        rw [tokens.lexeme_eq, alike.rest]
        rfl
      simp only [same]
      exact .ok changed (Arenas.le_refl _) rfl
  | none =>
      unfold Store.unbound
      rw [tokens.lexeme_eq]
      exact .fault alike (Arenas.le_refl _) (.placed (tokens.mono before) (.same _) fun _ => rfl)

/-- Bindings change neither the functions nor what they do with other ones. -/
theorem foldl_bindIn_withCallables
    (frame : FrameId)
    (bindings : List (String × Value))
    (store : Store)
    (callables : Array Callable) :
    bindings.foldl (fun store binding => store.bindIn frame binding.1 binding.2)
        (store.withCallables callables) =
      (bindings.foldl (fun store binding => store.bindIn frame binding.1 binding.2)
        store).withCallables callables := by
  induction bindings generalizing store with
  | nil => rfl
  | cons binding rest inductionHypothesis =>
      exact inductionHypothesis (store.bindIn frame binding.1 binding.2)

theorem agrees_newScope (outer : Scope) (bindings : List (String × Value)) :
    Agrees exchange arenas Same (Run.newScope outer bindings) (Run.newScope outer bindings) := by
  refine agrees_of_commutes (fun machine => outer.inside machine.store.nextFrame)
    (fun machine => { machine with
      store := bindings.foldl
        (fun store binding => store.bindIn machine.store.nextFrame binding.1 binding.2)
        machine.store.addFrame })
    (fun _ => rfl) (fun machine => ⟨rfl, Store.callables_foldl_bindIn _ _ _⟩)
    fun machine arena callables => ⟨rfl, ?_⟩
  have same := foldl_bindIn_withCallables machine.store.nextFrame bindings
    machine.store.addFrame callables
  simp only [Machine.exchanging, ← same]
  rfl

theorem agrees_newCallable
    {callable twin : Callable}
    (alike : callable.Alike exchange arenas twin) :
    Agrees exchange arenas Same (Run.newCallable callable) (Run.newCallable twin) := by
  intro machine other machines before
  have places : other.store.nextCallable = machine.store.nextCallable := machines.count
  refine .ok ?_ (Arenas.le_refl _) (congrArg Value.callable places)
  refine ⟨?_, ?_, fun id => ?_, machines.fresh⟩
  · have rest := machines.rest
    simp only [Machine.exchanging, Store.withCallables, Store.addCallable] at rest ⊢
    rw [rest]
  · simp [Store.addCallable, machines.count]
  · have related := machines.callables id
    unfold Store.callable? at related ⊢
    simp only [Store.addCallable, Array.getElem?_push, machines.count]
    by_cases last : id = machine.store.callables.size
    · simp only [last, if_true]
      exact .some (alike.mono before)
    · simp only [last, if_false]
      exact related

theorem agrees_write
    (text : String)
    {token twin : Token}
    (tokens : TokensAlike exchange arenas token twin) :
    Agrees exchange arenas Same (Run.write text token) (Run.write text twin) := by
  intro machine other alike before
  have host : other.host = machine.host := alike.field_eq Machine.host fun _ _ _ => rfl
  have changed := alike.keeping { machine with host := machine.host.append text } rfl rfl
  have same : { other with host := machine.host.append text } =
      ({ machine with host := machine.host.append text }).exchanging other.arena
        other.store.callables := by
    conv => lhs; rw [alike.rest]
    rfl
  unfold Run.write
  rw [host]
  cases machine.host.sink with
  | refusingText reason =>
      exact .fault alike (Arenas.le_refl _) (.placed (tokens.mono before) (.same _) fun _ => rfl)
  | accepting =>
      simp only [same]
      exact .ok changed (Arenas.le_refl _) rfl
  | refusingFlush reason =>
      simp only [same]
      exact .ok changed (Arenas.le_refl _) rfl

theorem agrees_flush : Agrees exchange arenas Same Run.flush Run.flush := by
  intro machine other alike before
  have host : other.host = machine.host := alike.field_eq Machine.host fun _ _ _ => rfl
  unfold Run.flush
  rw [host]
  cases machine.host.flush with
  | ok done => exact .ok alike (Arenas.le_refl _) rfl
  | error reason => exact .fault alike (Arenas.le_refl _) (.unplaced (.same _))

/-- A source is read with the same faults, and without any as alike trees. -/
theorem agrees_readSource (source : String) :
    Agrees exchange arenas
      (fun later found other => other.2 = found.2 ∧
        (found.2 = [] → Tree.Alike exchange later (some found.1) (some other.1)))
      (Run.readSource source) (Run.readSource source) := by
  intro machine twin alike before
  let tokens := (Token.Scan.ofSource source).sequence
  have sameFaults : (Tree.readProgram tokens twin.arena).faults =
      (Tree.readProgram tokens machine.arena).faults := by
    rw [Tree.readProgram_faults, Tree.readProgram_faults tokens machine.arena]
  have grown := Tree.le_readProgram tokens machine.arena
  have twinGrown := Tree.le_readProgram tokens twin.arena
  refine .ok (alike.adding grown twinGrown) ⟨grown, twinGrown⟩ ⟨?_, fun faultless => ?_⟩
  · change List.map _ (_ ++ (Tree.readProgram tokens twin.arena).faults) = List.map _ _
    rw [sameFaults]
  · have programFaults : (Tree.readProgram tokens machine.arena).faults = [] :=
      (List.append_eq_nil_iff.mp (List.map_eq_nil_iff.mp faultless)).2
    exact Tree.alike_readProgram rfl machine.arena twin.arena alike.fresh programFaults

/-! ## Work inside other work -/

section Around

variable {same : Arenas → α → β → Prop} {work : Run α} {other : Run β}

/-- How faults that are taken as values are alike. -/
inductive AttemptAlike (exchange : Exchange) (same : Arenas → α → β → Prop) (arenas : Arenas) :
    Except Fault α → Except Fault β → Prop
  | ok {value : α} {twin : β} :
      same arenas value twin → AttemptAlike exchange same arenas (.ok value) (.ok twin)
  | error {fault twin : Fault} :
      fault.Alike exchange arenas twin →
      AttemptAlike exchange same arenas (.error fault) (.error twin)

theorem agrees_attempt (agrees : Agrees exchange arenas same work other) :
    Agrees exchange arenas (AttemptAlike exchange same) (Run.attempt work) (Run.attempt other) := by
  intro machine twin alike before
  have ends := agrees machine twin alike before
  unfold Run.attempt
  generalize work machine = left at ends ⊢
  generalize other twin = right at ends ⊢
  cases ends with
  | ok between after values => exact .ok between after (.ok values)
  | fault between after faults => exact .ok between after (.error faults)
  | exhausted between after => exact .exhausted between after

/-- Changing the same parts of alike machines, but neither their arenas nor their
functions, leaves them alike. -/
theorem Machine.Alike.changing
    {machine twin : Machine}
    (alike : machine.Alike exchange twin)
    (change : Machine → Machine)
    (arena : ∀ machine, (change machine).arena = machine.arena)
    (callables : ∀ machine, (change machine).store.callables = machine.store.callables)
    (commutes : ∀ machine arena callables,
      change (machine.exchanging arena callables) = (change machine).exchanging arena callables) :
    (change machine).Alike exchange (change twin) := by
  have same : change twin =
      (change machine).exchanging twin.arena twin.store.callables := by
    conv => lhs; rw [alike.rest]
    exact commutes _ _ _
  rw [same]
  exact alike.keeping _ (arena machine) (callables machine)

theorem agrees_inScope
    (scope : Scope)
    (agrees : Agrees exchange arenas same work other) :
    Agrees exchange arenas same (Run.inScope scope work) (Run.inScope scope other) := by
  intro machine twin alike before
  have scopes : twin.scope = machine.scope :=
    alike.field_eq Machine.scope fun _ _ _ => rfl
  have inside := alike.changing (fun machine => { machine with scope := scope })
    (fun _ => rfl) (fun _ => rfl) fun _ _ _ => rfl
  have ends := agrees _ _ inside before
  have restored : ∀ {left right : Machine}, left.Alike exchange right →
      ({ left with scope := machine.scope }).Alike exchange
        { right with scope := machine.scope } :=
    fun between => between.changing (fun machine' => { machine' with scope := machine.scope })
      (fun _ => rfl) (fun _ => rfl) fun _ _ _ => rfl
  unfold Run.inScope
  simp only [scopes]
  generalize work { machine with scope := scope } = left at ends ⊢
  generalize other { twin with scope := scope } = right at ends ⊢
  cases ends with
  | ok between after values => exact .ok (restored between) after values
  | fault between after faults => exact .fault (restored between) after faults
  | exhausted between after => exact .exhausted (restored between) after

theorem agrees_inCall
    {token twinToken : Token}
    (tokens : TokensAlike exchange arenas token twinToken)
    (agrees : Agrees exchange arenas same work other) :
    Agrees exchange arenas same (Run.inCall token work) (Run.inCall twinToken other) := by
  intro machine twin alike before
  have depths : twin.depth = machine.depth :=
    alike.field_eq Machine.depth fun _ _ _ => rfl
  have inside := alike.changing (fun current => { current with depth := machine.depth + 1 })
    (fun _ => rfl) (fun _ => rfl) fun _ _ _ => rfl
  have ends := agrees _ _ inside before
  have restored : ∀ {left right : Machine}, left.Alike exchange right →
      ({ left with depth := left.depth - 1 }).Alike exchange
        { right with depth := right.depth - 1 } :=
    fun between => between.changing (fun current => { current with depth := current.depth - 1 })
      (fun _ => rfl) (fun _ => rfl) fun _ _ _ => rfl
  unfold Run.inCall
  simp only [depths]
  generalize work { machine with depth := machine.depth + 1 } = left at ends ⊢
  generalize other { twin with depth := machine.depth + 1 } = right at ends ⊢
  cases ends with
  | ok between after values => exact .ok (restored between) after values
  | fault between after faults =>
      exact .fault (restored between) after
        (faults.orAt (tokens.mono (Arenas.le_trans before after)))
  | exhausted between after => exact .exhausted (restored between) after

theorem agrees_atTopLevel (agrees : Agrees exchange arenas same work other) :
    Agrees exchange arenas same (Run.atTopLevel work) (Run.atTopLevel other) := by
  intro machine twin alike before
  have scopes : twin.scope = machine.scope :=
    alike.field_eq Machine.scope fun _ _ _ => rfl
  have bases : twin.base = machine.base :=
    alike.field_eq Machine.base fun _ _ _ => rfl
  have inside := alike.changing
    (fun current => { current with scope := Scope.global, base := current.depth })
    (fun _ => rfl) (fun _ => rfl) fun _ _ _ => rfl
  have ends := agrees _ _ inside before
  have restored : ∀ {left right : Machine}, left.Alike exchange right →
      ({ left with scope := machine.scope, base := machine.base }).Alike exchange
        { right with scope := machine.scope, base := machine.base } :=
    fun between => between.changing
      (fun current => { current with scope := machine.scope, base := machine.base })
      (fun _ => rfl) (fun _ => rfl) fun _ _ _ => rfl
  unfold Run.atTopLevel
  simp only [scopes, bases]
  generalize work { machine with scope := Scope.global, base := machine.depth } = left at ends ⊢
  generalize other { twin with scope := Scope.global, base := twin.depth } = right at ends ⊢
  cases ends with
  | ok between after values => exact .ok (restored between) after values
  | fault between after faults => exact .fault (restored between) after faults
  | exhausted between after => exact .exhausted (restored between) after

end Around

end Steps

end Scripting
