import Scripting.Proofs.Running.Declared
import Scripting.Proofs.Running.Frame
import Scripting.Proofs.Running.Manners
import Scripting.Proofs.Running.Moments

/-!
# Plans of work

Whatever the steps answer, work that has a `Plan` begins errands of a known kind only, ends
as soon as an errand gives back a value, does by itself what is in its manner, and leaves a
machine that may come after the one it began with (`Machine.Becomes`).  A plan is made in
the way in which work is put together: there is one for work that begins nothing, for work
that is left to the steps, for work done one after the other and for work in another scope.

The machines are those that arise in sessions: all their nodes have been read, and the
functions that no program has declared are the standard ones (`Machine.Standard`).

Main statements: `Plan.bind`, `Plan.inScope`, `Plan.exists_begins`.
-/

namespace Scripting

open Tree (Arena Node)

variable {α β : Type}

/-! ## Machines as they arise -/

/-- The nodes of the machine have been read, its functions are declared by them, and all
others are the standard ones. -/
structure Machine.Standard (machine : Machine) : Prop extends machine.Parsed where
  builtins : ∀ place given, machine.store.callable? place = some (.builtin given) →
    given ∈ Builtin.standard

namespace Machine

variable {machine between inner later : Machine}

namespace Standard

theorem of_callables
    (standard : machine.Standard)
    (parsed : later.Parsed)
    (callables : later.store.callables = machine.store.callables) :
    later.Standard where
  toParsed := parsed
  builtins place given stored := by
    rw [Store.callable?, callables] at stored
    exact standard.builtins place given stored

/-- Only the nodes and the functions of a machine make it a standard one. -/
theorem of_same
    (standard : machine.Standard)
    (arena : later.arena = machine.arena)
    (callables : later.store.callables = machine.store.callables) :
    later.Standard := by
  refine standard.of_callables ⟨?isRead, fun place declared stored => ?declared⟩ callables
  case isRead =>
    rw [arena]
    exact standard.isRead
  case declared =>
    rw [Store.callable?, callables] at stored
    rw [arena]
    exact standard.functions place declared stored

theorem step (standard : machine.Standard) (step : machine.Step later) : later.Standard := by
  have parsed := standard.toParsed.step step
  cases step with
  | declare present kind =>
      refine ⟨parsed, fun place given stored => ?_⟩
      obtain before | same := Store.callable?_addCallable_cases stored
      · exact standard.builtins place given before
      · cases same
  | _ => exact standard.of_callables parsed rfl

theorem visits
    {calls : Machine → Callable → Prop}
    {back : Machine → Machine}
    (standard : machine.Standard)
    (visits : machine.Visits calls inner back) :
    inner.Standard := by
  have parsed := standard.toParsed.visits visits
  cases visits with
  | block | body => exact standard.of_callables parsed (by simp)
  | call | program => exact standard.of_callables parsed rfl

theorem visited
    {calls : Machine → Callable → Prop}
    {back : Machine → Machine}
    (standard : later.Standard)
    (visits : machine.Visits calls inner back) :
    (back later).Standard := by
  have parsed := standard.toParsed.visited visits
  cases visits <;> exact standard.of_callables parsed rfl

end Standard
end Machine

/-- What all runs keep to that begin on a standard machine. -/
def Regime.standard : Regime :=
  let origin := Regime.parsed (.bare (.ofFiles ⟨[]⟩ []))
  have held {machine : Machine} (standard : machine.Standard) : origin.holds machine :=
    ⟨⟨List.nil_prefix, List.nil_prefix⟩, standard.toParsed⟩
  { holds := Machine.Standard
    leads := Machine.Later
    evaluates := origin.evaluates
    executes := origin.executes
    calls := origin.calls
    refl := Course.later.refl
    trans := Course.later.trans
    evaluates_mono := origin.evaluates_mono
    executes_mono := origin.executes_mono
    calls_mono := origin.calls_mono
    operand := fun standard => origin.operand (held standard)
    statement := fun standard => origin.statement (held standard)
    part := fun standard => origin.part (held standard)
    expression := fun standard => origin.expression (held standard)
    body := fun standard => origin.body (held standard)
    root := fun source standard => origin.root source (held standard)
    found := fun standard => origin.found (held standard)
    step := fun standard step =>
      ⟨standard.step step, (Course.later.regime.step trivial step).2⟩
    enter := fun standard visits => standard.visits visits
    leave := fun _ visits inside standard leads =>
      ⟨standard.visited visits,
        (Course.later.regime.leave trivial (visits.imp fun _ _ _ => trivial) inside trivial
          leads).2⟩ }

namespace Machine

/-- In the course of some work the machine may become the later one. -/
abbrev Becomes (machine later : Machine) : Prop :=
  Regime.standard.Reaches machine later

variable {machine inner later : Machine}

theorem Becomes.isLater (becomes : machine.Becomes later) : machine.Later later :=
  becomes.leads

theorem Becomes.of_visit
    {back : Machine → Machine}
    (inside : inner.Becomes later)
    (standard : machine.Standard)
    (visits : machine.Visits Regime.standard.calls inner back) :
    machine.Becomes (back later) :=
  let kept := Regime.standard.leave standard visits inside.grows inside.holds inside.leads
  ⟨visits.grows_back inside.grows, kept.1, kept.2⟩

/-- What a machine becomes does not depend on the scope in which it works. -/
theorem Becomes.inScope (becomes : machine.Becomes later) (scope : Scope) :
    Becomes { machine with scope := scope } { later with scope := scope } where
  grows := ⟨becomes.grows.arena, becomes.grows.callables⟩
  holds := becomes.holds.of_same rfl rfl
  leads :=
    have after := becomes.isLater
    ⟨rfl, after.depth, after.base, after.limit, after.libraries, after.sink, after.output,
      after.arena⟩

end Machine

/-- The errand may be begun on the machine. -/
structure Moment.Fits (moment : Moment) : Prop where
  standard : moment.machine.Standard
  fits : Regime.standard.fits moment.errand moment.machine

/-- However an errand ends that may be begun, its machine has become the one it leaves. -/
theorem Moment.Fits.becomes
    {moment : Moment}
    (fits : moment.Fits)
    (bound : Nat) :
    moment.machine.Becomes (machineAfter ((Run.within bound).outcome moment)) := by
  have obey : Regime.standard.StepsObey _ (Run.watched (fun _ _ => True) .exhausted bound) :=
    Regime.obeys_within (fun _ _ _ _ => trivial) .exhausted bound
  obtain ⟨errand, machine⟩ := moment
  obtain ⟨standard, fit⟩ := fits
  cases errand with
  | evaluate id => exact (obey.evaluate fit machine (.refl machine) standard).2
  | execute id => exact (obey.execute fit machine (.refl machine) standard).2
  | call callable arguments => exact (obey.call arguments fit machine (.refl machine) standard).2

/-! ## Plans -/

/-- How work goes on that has ended so far in some way. -/
def Run.goOn (next : α → Run β) : Ending α → Ending β
  | .ok result later => next result later
  | .error interrupt later => .error interrupt later

theorem Run.bind_eq (work : Run α) (next : α → Run β) (machine : Machine) :
    (work >>= next) machine = goOn next (work machine) := by
  simp only [Bind.bind, EStateM.bind]
  cases work machine <;> rfl

/-- The same errand, begun by work that goes back to a scope. -/
def Link.inScope (link : Link) (scope : Scope) : Link :=
  { link with back := fun later => { link.back later with scope := scope } }

/-- The answer to an errand gives back a value, as a statement does. -/
def Errand.GivesBack : (errand : Errand) → errand.Result → Value → Prop
  | .execute _, flow, value => flow = .returning value
  | _, _, _ => False

/-- How the work is put together that begins on a machine, whatever the steps are. It begins
errands that are led to; when one gives back a value, the work does, too; and by itself it
does what is in its manner. -/
inductive Plan
    (leads : Link → Prop)
    (gives : Value → α → Prop)
    (manner : Manner) : Machine → (work : Steps → Ending α) → Prop
  | ends {machine : Machine} {ending : Ending α} :
      machine.Becomes (machineAfter ending) →
      manner.Allows machine ending →
        Plan leads gives manner machine fun _ => ending
  | begins {machine : Machine} {work : Steps → Ending α} {link : Link}
      {next : link.moment.errand.Result → Machine → Steps → Ending α} :
      leads link →
      link.Opens work next →
      manner.Keeps machine link.moment.machine →
      (∀ later, link.moment.machine.Becomes later → machine.Becomes (link.back later)) →
      (∀ answer value later, link.moment.errand.GivesBack answer value →
        link.moment.machine.depth ≠ link.moment.machine.base →
          ∃ result, gives value result ∧
            next answer later = fun _ => .ok result (link.back later)) →
      (∀ answer later, link.moment.machine.Becomes later →
        Plan leads gives manner (link.back later) (next answer later)) →
        Plan leads gives manner machine work

namespace Plan

variable
  {leads : Link → Prop}
  {gives : Value → α → Prop}
  {manner : Manner}
  {machine later : Machine}

/-- What is planned for a machine is planned for those it may have been before. -/
theorem of_becomes
    {work : Steps → Ending α}
    (plan : Plan leads gives manner later work)
    (becomes : machine.Becomes later)
    (keeps : manner.Keeps machine later) :
    Plan leads gives manner machine work := by
  cases plan with
  | ends after allows => exact .ends (becomes.trans after) (allows.of_keeps keeps)
  | begins led opens kept back given goes =>
      exact .begins led opens (keeps.trans kept)
        (fun last inside => becomes.trans (back last inside)) given goes

theorem gives_imp
    {other : Value → α → Prop}
    {work : Steps → Ending α}
    (plan : Plan leads gives manner machine work)
    (given : ∀ value result, gives value result → other value result) :
    Plan leads other manner machine work := by
  induction plan with
  | ends becomes allows => exact .ends becomes allows
  | begins led opens keeps back gave _ inductionHypothesis =>
      refine .begins led opens keeps back (fun answer value later gaveBack inFunction => ?_)
        inductionHypothesis
      obtain ⟨result, isGiven, same⟩ := gave answer value later gaveBack inFunction
      exact ⟨result, given value result isGiven, same⟩

/-- How often loops go round is nothing that the steps are asked for. -/
theorem rounding
    {work : Steps → Ending α}
    (plan : Plan leads gives manner machine work)
    (rounds : Steps → Nat) :
    Plan leads gives manner machine fun steps => work { steps with rounds := rounds steps } := by
  induction plan with
  | ends becomes allows => exact .ends becomes allows
  | @begins machine work link next led opens keeps back given _ inductionHypothesis =>
      have opened : link.Opens (fun steps => work { steps with rounds := rounds steps })
          fun answer later steps => next answer later { steps with rounds := rounds steps } :=
        fun steps => opens { steps with rounds := rounds steps }
      refine .begins led opened keeps back (fun answer value later gaveBack inFunction => ?_)
        inductionHypothesis
      obtain ⟨result, isGiven, same⟩ := given answer value later gaveBack inFunction
      exact ⟨result, isGiven, by rw [same]⟩

/-- Work that begins nothing. -/
theorem steady
    {work : Run α}
    (standard : machine.Standard)
    (obeys : Regime.standard.Obeys machine work work)
    (uncounted : Uncounted work)
    (tame : Tame manner.fails work) :
    Plan leads gives manner machine fun _ => work machine :=
  .ends (obeys machine (.refl machine) standard).2
    ⟨.inr (tame.keeps machine), fun later ended => absurd ended (uncounted.tireless machine later),
      fun _ _ => tame.fails⟩

/-- A result without any work. -/
theorem result
    (standard : machine.Standard)
    (result : α) :
    Plan leads gives manner machine fun _ => .ok result machine :=
  .ends (.refl standard) (.ok (.refl machine) result)

/-- A fault without any work. -/
theorem fault
    {fault : Fault}
    (standard : machine.Standard)
    (fails : manner.fails fault) :
    Plan leads gives manner machine fun _ => .error (.fault fault) machine :=
  .ends (.refl standard) (.fault (.refl machine) fails)

/-- An errand is left to the steps. -/
theorem ask
    (moment : Moment)
    {leads : Link → Prop}
    {manner : Manner}
    (led : leads ⟨moment, id, id⟩) :
    Plan leads (fun value answer => moment.errand.GivesBack answer value) manner moment.machine
      fun steps => steps.outcome moment := by
  have opens : Link.Opens ⟨moment, id, id⟩ (fun steps => steps.outcome moment)
      fun answer later _ => .ok answer later := by
    intro steps
    change steps.outcome moment = Link.resume ⟨moment, id, id⟩ _ (steps.outcome moment)
    cases steps.outcome moment with
    | ok answer later => rfl
    | error interrupt later => cases interrupt <;> rfl
  exact .begins led opens (.refl moment.machine) (fun _ becomes => becomes)
    (fun answer value later given _ => ⟨answer, given, rfl⟩)
    fun answer later becomes => .result becomes.holds answer

theorem goOn
    {given : Value → α → Prop}
    {gives : Value → β → Prop}
    {work : Steps → Ending α}
    {next : Steps → α → Run β}
    (first : Plan leads given manner machine work)
    (passes : ∀ value result, given value result →
      ∃ last, gives value last ∧ ∀ steps, next steps result = pure last)
    (second : ∀ result later, machine.Becomes later →
      Plan leads gives manner later fun steps => next steps result later) :
    Plan leads gives manner machine fun steps => Run.goOn (next steps) (work steps) := by
  induction first with
  | @ends machine ending becomes allows =>
      cases ending with
      | ok result later => exact (second result later becomes).of_becomes becomes allows.keeps
      | error interrupt later => exact .ends becomes allows.interrupted
  | @begins machine work link goOn led opens keeps back given goes inductionHypothesis =>
      have opened : link.Opens (fun steps => Run.goOn (next steps) (work steps))
          fun answer later steps => Run.goOn (next steps) (goOn answer later steps) := by
        intro steps
        simp only [opens steps]
        cases steps.outcome link.moment <;> rfl
      refine .begins led opened keeps back (fun answer value later gaveBack inFunction => ?_)
        fun answer later becomes => inductionHypothesis answer later becomes
          fun result last after => second result last ((back later becomes).trans after)
      obtain ⟨result, isGiven, same⟩ := given answer value later gaveBack inFunction
      obtain ⟨last, isLast, passed⟩ := passes value result isGiven
      refine ⟨last, isLast, funext fun steps => ?_⟩
      rw [same]
      exact congrFun (passed steps) (link.back later)

/-- Works are done one after the other. What the first one gives back, the second one passes
on. -/
theorem bind
    {given : Value → α → Prop}
    {gives : Value → β → Prop}
    {work : Steps → Run α}
    {next : Steps → α → Run β}
    (first : Plan leads given manner machine fun steps => work steps machine)
    (passes : ∀ value result, given value result →
      ∃ last, gives value last ∧ ∀ steps, next steps result = pure last)
    (second : ∀ result later, machine.Becomes later →
      Plan leads gives manner later fun steps => next steps result later) :
    Plan leads gives manner machine fun steps => (work steps >>= next steps) machine := by
  simp only [Run.bind_eq]
  exact goOn first passes second

/-- Works are done one after the other of which the first one gives nothing back. -/
theorem andThen
    {gives : Value → β → Prop}
    {work : Steps → Run α}
    {next : Steps → α → Run β}
    (first : Plan leads (fun _ _ => False) manner machine fun steps => work steps machine)
    (second : ∀ result later, machine.Becomes later →
      Plan leads gives manner later fun steps => next steps result later) :
    Plan leads gives manner machine fun steps => (work steps >>= next steps) machine :=
  bind first (fun _ _ given => given.elim) second

/-- Work in another scope is led to what it would be led to without it, but for the scope to
which it goes back. -/
theorem inScope
    {inside : Link → Prop}
    {work : Steps → Ending α}
    (plan : Plan inside gives manner machine work)
    (scope : Scope)
    (led : ∀ link, inside link → leads (link.inScope scope)) :
    Plan leads gives manner { machine with scope := scope }
      fun steps => resultIn scope (work steps) := by
  induction plan with
  | @ends machine ending after allows =>
      refine .ends ?_ ((allows.inScope scope).of_keeps (.inr (.of_eq rfl rfl)))
      rw [machineAfter_resultIn]
      exact after.inScope scope
  | @begins machine work link goOn isInside opens keeps back given goes inductionHypothesis =>
      have opened : (link.inScope scope).Opens (fun steps => resultIn scope (work steps))
          fun answer later steps => resultIn scope (goOn answer later steps) := by
        intro steps
        simp only [opens steps]
        change resultIn scope (link.resume _ (steps.outcome link.moment)) =
          (link.inScope scope).resume _ (steps.outcome link.moment)
        cases steps.outcome link.moment <;> rfl
      refine .begins (led link isInside) opened keeps
        (fun later after => (back later after).inScope scope)
        (fun answer value later gaveBack inFunction => ?_) inductionHypothesis
      obtain ⟨result, isGiven, same⟩ := given answer value later gaveBack inFunction
      exact ⟨result, isGiven, by rw [same]; rfl⟩

end Plan

/-! ## What is begun according to a plan -/

/-- When the errand gives back a value in a function, it is the last one that is begun, and
the work gives back the value. -/
def Link.PassesOn
    (link : Link)
    (steps : Steps)
    (gives : Value → α → Prop)
    (links : List Link)
    (ending : Ending α) : Prop :=
  ∀ answer value later, steps.outcome link.moment = .ok answer later →
    link.moment.errand.GivesBack answer value →
    link.moment.machine.depth ≠ link.moment.machine.base →
      (∃ before, links = before ++ [link]) ∧
      ∃ result, gives value result ∧ ending = .ok result (link.back later)

/-- What the work does between the errands that it begins is in its manner: before the first
one, after each that has been answered, and in the end, unless an errand is interrupted. -/
inductive Manner.Along (manner : Manner) (steps : Steps) :
    (machine : Machine) → List Link → (ending : Ending α) → Prop
  | ends {machine : Machine} {ending : Ending α} :
      manner.Allows machine ending → Along manner steps machine [] ending
  | interrupted {machine : Machine} {link : Link} {interrupt : Interrupt} {later : Machine} :
      manner.Keeps machine link.moment.machine →
      steps.outcome link.moment = .error interrupt later →
        Along manner steps machine [link] (.error (interrupt.told link.tell) (link.back later))
  | answered {machine : Machine} {link : Link} {answer : link.moment.errand.Result}
      {later : Machine} {links : List Link} {ending : Ending α} :
      manner.Keeps machine link.moment.machine →
      steps.outcome link.moment = .ok answer later →
      Along manner steps (link.back later) links ending →
        Along manner steps machine (link :: links) ending

/-- With steps that leave machines which may come after those they began with, the errands
that are begun are led to, what they give back is passed on, and everything else is in the
manner of the work. -/
theorem Plan.exists_begins
    {leads : Link → Prop}
    {gives : Value → α → Prop}
    {manner : Manner}
    {machine : Machine}
    {work : Steps → Ending α}
    (plan : Plan leads gives manner machine work)
    (steps : Steps)
    (becomes : ∀ link, leads link →
      link.moment.machine.Becomes (machineAfter (steps.outcome link.moment))) :
    machine.Becomes (machineAfter (work steps)) ∧
    ∃ links, steps.Begins work links ∧ manner.Along steps machine links (work steps) ∧
      ∀ link ∈ links, leads link ∧
        (link.back (machineAfter (steps.outcome link.moment))).Becomes
          (machineAfter (work steps)) ∧
        link.PassesOn steps gives links (work steps) := by
  induction plan with
  | ends after allows =>
      exact ⟨after, [], .nothing _, .ends allows, fun _ member => nomatch member⟩
  | @begins machine work link next led opens keeps back given goes inductionHypothesis =>
      have reached := becomes link led
      have isBack := back _ reached
      cases ends : steps.outcome link.moment with
      | error interrupt later =>
          have goesOn : work steps = .error (interrupt.told link.tell) (link.back later) := by
            rw [opens, ends]
            rfl
          rw [ends] at isBack
          rw [goesOn]
          refine ⟨isBack, [link], .interrupted opens ends, .interrupted keeps ends,
            List.forall_mem_singleton.mpr ⟨led, ?_, ?_⟩⟩
          · rw [ends]
            exact .refl isBack.holds
          intro answer value last answered
          rw [ends] at answered
          cases answered
      | ok answer later =>
          rw [ends] at reached isBack
          have goesOn : work steps = next answer later steps := by
            rw [opens, ends]
            rfl
          have answered {other last} (ended : steps.outcome link.moment = .ok other last) :
              answer = other ∧ later = last := by simpa [ends] using ended
          obtain ⟨onward, links, begins, along, each⟩ := inductionHypothesis answer later reached
          have returns : (link.back (machineAfter (steps.outcome link.moment))).Becomes
              (machineAfter (work steps)) := by
            rwa [ends, goesOn]
          refine ⟨by rw [goesOn]; exact isBack.trans onward, ?_⟩
          by_cases last : (∃ value, link.moment.errand.GivesBack answer value) ∧
              link.moment.machine.depth ≠ link.moment.machine.base
          · obtain ⟨⟨value, gaveBack⟩, inFunction⟩ := last
            obtain ⟨_, _, same⟩ := given answer value later gaveBack inFunction
            refine ⟨[link], .answered opens ends (same ▸ .nothing _),
              .answered keeps ends (.ends ?_),
              List.forall_mem_singleton.mpr ⟨led, returns, ?_⟩⟩
            · rw [goesOn, same]
              exact .ok (.refl _) _
            intro other value last ended gaveBack _
            obtain ⟨rfl, rfl⟩ := answered ended
            obtain ⟨result, isGiven, same⟩ := given answer value later gaveBack inFunction
            exact ⟨⟨[], rfl⟩, result, isGiven, by rw [goesOn, same]⟩
          · refine ⟨link :: links, .answered opens ends begins,
              .answered keeps ends (goesOn ▸ along),
              List.forall_mem_cons.mpr ⟨⟨led, returns, ?_⟩, fun other member => ?_⟩⟩
            · intro other value between ended gaveBack inFunction
              obtain ⟨rfl, -⟩ := answered ended
              exact absurd ⟨⟨value, gaveBack⟩, inFunction⟩ last
            · obtain ⟨isLed, ahead, passesOn⟩ := each other member
              refine ⟨isLed, by rwa [goesOn],
                fun answer value later ended gaveBack inFunction => ?_⟩
              obtain ⟨⟨before, whole⟩, gave⟩ :=
                passesOn answer value later ended gaveBack inFunction
              exact ⟨⟨link :: before, by rw [whole, List.cons_append]⟩, by rwa [goesOn]⟩

end Scripting
