import Scripting.Proofs.Running.Calls
import Scripting.Proofs.Running.Raised
import Scripting.Proofs.Sessions.Restored
import Scripting.Proofs.Sessions.Standard

/-!
# What a limit on calls cuts short

A run under a larger limit on the number of active calls may come to a call for which there
is no room under a smaller one.  Up to the first such call (`Excess`) both runs are the same.
There the run under the smaller limit fails, when the arguments have been evaluated and
before anything is done in the call, and its fault passes through everything that is under
way (`Point.Tells`).  A run that comes to no such call is the same under both limits.

The run under the smaller limit is the one under the larger limit in which the number of
active calls is watched (`Run.sparing`).

Main statement: `Session.limit_cuts_short`.
-/

namespace Scripting

open Tree (Node)

variable {α : Type}

/-! ## A run that is watched -/

/-- As many calls more may be active. -/
def Machine.Spares (spare : Nat) (_ : Errand) (machine : Machine) : Prop :=
  machine.depth + spare ≤ machine.limit

/-- What happens when a call more than may be is active. -/
def Interrupt.tooMany : Interrupt :=
  .fault (Fault.ofCause .callsTooDeep none)

/-- The steps, but that so many calls less may be active. -/
noncomputable abbrev Run.sparing (spare bound : Nat) : Steps :=
  watched (Machine.Spares spare) .tooMany bound

section Watched

variable {spare : Nat}

/-- As long as no more calls are active than may be without further room, nothing is seen of
the watch. -/
theorem Raised.guarded
    {work other : Run α}
    (raised : Raised 0 spare work other)
    (errand : Errand) :
    Raised 0 spare work (Run.guarded (Machine.Spares spare errand) .tooMany other) := by
  intro machine room
  have spares : Machine.Spares spare errand (machine.raised 0 spare) :=
    Nat.add_le_add_right room spare
  rw [Run.guarded_of_allowed spares]
  exact raised machine room

theorem StepsRaised.guarded
    {steps other : Steps}
    (rounds : other.rounds = steps.rounds)
    (evaluate : ∀ id, Raised 0 spare (steps.evaluate id) (other.evaluate id))
    (execute : ∀ id, Raised 0 spare (steps.execute id) (other.execute id))
    (call : ∀ callable arguments,
      Raised 0 spare (steps.call callable arguments) (other.call callable arguments)) :
    StepsRaised 0 spare steps (other.guarded (Machine.Spares spare) .tooMany) where
  rounds := rounds
  evaluate id := (evaluate id).guarded _
  execute id := (execute id).guarded _
  call callable arguments := (call callable arguments).guarded _
  callFound paren := by
    refine Raised.callFound (fun callable arguments => (call callable arguments).guarded _)
      (Nat.zero_le spare) paren fun machine callable arguments full arity => ?_
    rw [Steps.callFound_some, if_neg (not_not.mpr arity)]
    split
    · rfl
    · have crowded : ¬ Machine.Spares spare (.call callable arguments.toList)
          { machine.raised 0 spare with depth := (machine.raised 0 spare).depth + 1 } := by
        change ¬ machine.depth + 0 + 1 + spare ≤ machine.limit + spare
        omega
      change Run.callEnd paren (Run.guarded _ _ _ _) = _
      unfold Run.guarded
      rw [if_neg crowded]
      rfl

/-- The run under the smaller limit is the one in which the number of calls is watched. -/
theorem StepsRaised.sparing (spare bound : Nat) :
    StepsRaised 0 spare (Run.within bound) (Run.sparing spare bound) := by
  induction bound with
  | zero =>
      exact guarded rfl (fun _ => .interrupted _) (fun _ => .interrupted _)
        fun _ _ => .interrupted _
  | succ bound inductionHypothesis =>
      rw [Run.within_succ]
      exact guarded (congrArg (· + 1) inductionHypothesis.rounds)
        (Raised.evaluateNode inductionHypothesis) (Raised.executeNode inductionHypothesis)
        (Raised.callCallable inductionHypothesis)

theorem Run.outcome_sparing_zero
    {moment : Moment}
    (spares : Machine.Spares spare moment.errand moment.machine) :
    (sparing spare 0).outcome moment = (within 0).outcome moment :=
  Steps.outcome_guarded_of_allowed _ _ spares

theorem Run.outcome_sparing_succ
    (bound : Nat)
    {moment : Moment}
    (spares : Machine.Spares spare moment.errand moment.machine) :
    (sparing spare (bound + 1)).outcome moment = moment.work bound (sparing spare bound) := by
  have rounds : (sparing spare bound).rounds = bound := (StepsRaised.sparing spare bound).rounds
  have same : moment.work bound (sparing spare bound) =
      (sparing spare bound).next.outcome moment := by
    unfold Moment.work
    nth_rewrite 1 [← rounds]
    rfl
  rw [same]
  exact Steps.outcome_guarded_of_allowed _ _ spares

theorem Run.outcome_sparing_of_crowded
    (bound : Nat)
    {moment : Moment}
    (crowded : ¬ Machine.Spares spare moment.errand moment.machine) :
    (sparing spare bound).outcome moment = .error .tooMany moment.machine := by
  cases bound <;> exact Steps.outcome_guarded_of_not_allowed _ _ crowded

end Watched

/-! ## Active calls -/

/-- How many calls of functions, declared or built-in, are under way. -/
def Point.active : Point → Nat
  | [] => 0
  | activity :: around => active around + activity.errand.entered

/-! ## A call that is one too many -/

/-- The token of a call is its closing parenthesis. -/
theorem Tree.Layout.closes
    {kind : Tree.NodeKind}
    {token : Token}
    {value : Option Constant}
    {roles : List Tree.Role}
    (layout : Tree.Layout kind token value roles)
    (isCall : kind = .call) :
    token.kind = .rightParen := by
  subst isCall
  cases layout with
  | call _ closes => exact closes

/-- The first call among the points of a run with which more calls than so many are
active. -/
structure Excess (small : Nat) (points : List Point) where
  before : List Point
  after : List Point
  /-- What is under way around the expression that calls. -/
  around : Point
  /-- The expression that calls. -/
  id : Option Tree.NodeId
  node : Node
  /-- The machine on which it is evaluated. -/
  machine : Machine
  bound : Nat
  callable : Callable
  arguments : Array Value
  /-- The machine on which the function is called. -/
  ready : Machine
  whole : points = before ++
    (⟨⟨.call callable arguments.toList, { ready with depth := ready.depth + 1 }⟩, bound⟩ ::
      ⟨⟨.evaluate id, machine⟩, bound + 1⟩ :: around) :: after
  earlier : ∀ point ∈ before, point.active ≤ small
  full : around.active = small
  found : machine.arena.node? id = some node
  kind : node.kind = .call
  closing : node.token.kind = .rightParen
  readies : (Run.within bound).Readies node machine callable arguments ready

/-- What is under way when the call is attempted. -/
def Excess.outside {small : Nat} {points : List Point} (excess : Excess small points) : Point :=
  ⟨⟨.evaluate excess.id, excess.machine⟩, excess.bound + 1⟩ :: excess.around

/-- The first one among some points is the first one among more points. -/
def Excess.among
    {small : Nat}
    {points : List Point}
    (excess : Excess small points)
    {prior : List Point}
    (earlier : ∀ point ∈ prior, point.active ≤ small)
    (rest : List Point) :
    Excess small (prior ++ points ++ rest) :=
  { excess with
    before := prior ++ excess.before
    after := excess.after ++ rest
    whole := by
      conv_lhs => rw [excess.whole]
      simp
    earlier := List.forall_mem_append.mpr ⟨earlier, excess.earlier⟩ }

/-- How a fault is told after it has passed from the call that is one too many through
everything under way, the outermost errand last. The call blames it on its closing
parenthesis. -/
inductive Point.Tells (paren : Token) : Point → Fault → Prop
  | raised (caller : Activity) : Tells paren [caller] (.atToken .callsTooDeep paren)
  | passed {inside : Point} {fault : Fault} {activity : Activity} :
      Tells paren inside fault →
      (∀ given arguments, activity.errand ≠ .call (.builtin given) arguments) →
        Tells paren (inside ++ [activity]) fault
  /-- A call blames a fault without a place on its own closing parenthesis. -/
  | placed {inside : Point} {fault : Fault} {activity : Activity} {node : Node} :
      Tells paren inside fault →
      (∃ id, activity.errand = .evaluate id) → activity.node? = some node → node.kind = .call →
        Tells paren (inside ++ [activity]) (fault.orAt node.token)
  /-- A built-in function that runs a program tells the program's fault in its own. -/
  | told {inside : Point} {fault : Fault} {activity : Activity} {given : Builtin}
      {arguments : List Value} (found source : String) :
      Tells paren inside fault → activity.errand = .call (.builtin given) arguments →
        Tells paren (inside ++ [activity]) (Link.refusal given found [fault.withSource source])

/-- If no program is included, the fault is told as it is raised. -/
theorem Point.Tells.eq_raised
    {paren : Token}
    {inside : Point}
    {fault : Fault}
    (tells : Point.Tells paren inside fault)
    (includesNone : ∀ activity ∈ inside, ∀ given arguments,
      activity.errand ≠ .call (.builtin given) arguments) :
    fault = .atToken .callsTooDeep paren := by
  induction tells with
  | raised => rfl
  | passed _ _ inductionHypothesis =>
      exact inductionHypothesis (List.forall_mem_append.mp includesNone).1
  | placed _ _ _ _ inductionHypothesis =>
      rw [inductionHypothesis (List.forall_mem_append.mp includesNone).1]
      rfl
  | told _ _ _ isBuiltin _ =>
      obtain ⟨-, last⟩ := List.forall_mem_append.mp includesNone
      exact absurd isBuiltin (List.forall_mem_singleton.mp last _ _)

/-- The first call that is one too many ends the run. Its fault passes through what is under
way around it, and nothing else is done; the run without the smaller limit writes what has
been written so far, and perhaps more. -/
def Run.CutsShort
    (small : Nat)
    (points : List Point)
    (around : Point)
    (outer : Machine)
    (short long : Ending α) : Prop :=
  ∃ (excess : Excess small points) (inside : Point) (fault : Fault) (text : String),
    excess.outside = inside ++ around ∧ Point.Tells excess.node.token inside fault ∧
      short = .error (.fault fault) (excess.ready.restedAs outer) ∧
      (machineAfter long).host.output = excess.ready.host.output ++ text

/-- An errand that is begun with no more than so many active calls ends under the smaller
limit as it does without it if no more calls are ever active, and is cut short if there
are. -/
def Moment.MeetsLimit
    (small spare bound : Nat)
    (around : Point)
    (moment : Moment)
    (points : List Point) : Prop :=
  (∃ rest, points = (⟨moment, bound⟩ :: around) :: rest) ∧
    (moment.machine.depth = Point.active (⟨moment, bound⟩ :: around) →
      moment.machine.limit = small + spare → moment.machine.depth ≤ small →
      ((∀ point ∈ points, point.active ≤ small) ∧
        (Run.sparing spare bound).outcome moment = (Run.within bound).outcome moment) ∨
      Run.CutsShort small points around moment.machine
        ((Run.sparing spare bound).outcome moment) ((Run.within bound).outcome moment))

/-- A fault passes through the errand that led to where it comes from. -/
theorem Point.Tells.through
    {paren : Token}
    {inside : Point}
    {fault : Fault}
    {activity : Activity}
    {link : Link}
    (tells : Point.Tells paren inside fault)
    (leads : activity.toMoment.Leads link) :
    Point.Tells paren (inside ++ [activity]) (link.tell fault) := by
  obtain ⟨moment, bound⟩ := activity
  dsimp only at leads
  cases leads with
  | operand found _ _ =>
      refine .passed tells fun given arguments isBuiltin => ?_
      dsimp only at isBuiltin
      rw [Moment.node?, isBuiltin] at found
      cases found
  | part | inner | body => exact .passed tells fun _ _ isBuiltin => nomatch isBuiltin
  | call found kind _ _ _ _ => exact .placed tells ⟨_, rfl⟩ found kind
  | program found source _ _ => exact .told found source tells rfl

namespace Run.CutsShort

variable
  {small bound : Nat}
  {around : Point}
  {prior rest : List Point}
  (earlier : ∀ point ∈ prior, point.active ≤ small)

include earlier

/-- What cuts an errand short, cuts the one short that has begun it. -/
theorem through
    {activity : Activity}
    {link : Link}
    {points : List Point}
    {innerShort innerLong : Ending link.moment.errand.Result}
    {short long : Ending α}
    (leads : activity.toMoment.Leads link)
    (cuts : CutsShort small points (activity :: around) link.moment.machine innerShort innerLong)
    (ends : ∀ interrupt later, innerShort = .error interrupt later →
      short = .error (interrupt.told link.tell) (link.back later))
    (onward : (link.back (machineAfter innerLong)).Becomes (machineAfter long)) :
    CutsShort small (prior ++ points ++ rest) around activity.machine short long := by
  obtain ⟨excess, inside, fault, text, outside, tells, isShort, isLong⟩ := cuts
  obtain ⟨more, written⟩ := onward.isLater.output
  rw [leads.back_host, isLong, String.append_assoc] at written
  refine ⟨excess.among earlier rest, inside ++ [activity], link.tell fault, text ++ more, ?_,
    tells.through leads, ?_, written⟩
  · exact outside.trans (by simp)
  · rw [ends _ _ isShort, leads.back_restedAs]
    rfl

/-- A call that is one too many cuts the expression short that calls. -/
theorem of_call
    {id : Option Tree.NodeId}
    {machine later : Machine}
    {node : Node}
    {callable : Callable}
    {values : Array Value}
    {others : List Point}
    {short long : Ending α}
    (found : machine.arena.node? id = some node)
    (kind : node.kind = .call)
    (becomes : machine.Becomes later)
    (readies : (Run.within bound).Readies node machine callable values later)
    (full : around.active = small)
    (ends : short = .error (.fault (.atToken .callsTooDeep node.token)) later)
    (onward : later.Becomes (machineAfter long)) :
    CutsShort small
      (prior ++
        ((⟨⟨.call callable values.toList, { later with depth := later.depth + 1 }⟩, bound⟩ ::
          ⟨⟨.evaluate id, machine⟩, bound + 1⟩ :: around) :: others) ++ rest)
      around machine short long := by
  have closing : node.token.kind = .rightParen := by
    obtain ⟨index, rfl, present⟩ := Tree.Arena.exists_of_node? found
    obtain ⟨roles, layout, -⟩ := becomes.holds.isRead.wellFormed.shaped index node
      (Tree.Arena.get?_of_le becomes.isLater.arena present)
    exact layout.closes kind
  obtain ⟨text, written⟩ := onward.isLater.output
  let excess : Excess small
      (prior ++
        ((⟨⟨.call callable values.toList, { later with depth := later.depth + 1 }⟩, bound⟩ ::
          ⟨⟨.evaluate id, machine⟩, bound + 1⟩ :: around) :: others) ++ rest) :=
    { before := prior
      after := others ++ rest
      around, id, node, machine, bound, callable, ready := later
      arguments := values
      whole := by simp
      earlier, full, found, kind, closing, readies }
  refine ⟨excess, [⟨⟨.evaluate id, machine⟩, bound + 1⟩], _, text, rfl, .raised _, ?_, written⟩
  exact ends.trans (congrArg (EStateM.Result.error _) becomes.isLater.restedAs.symm)

end Run.CutsShort

namespace Moment.MeetsLimit

variable {small spare bound : Nat} {around : Point} {moment : Moment}

theorem zero : moment.MeetsLimit small spare 0 around [⟨moment, 0⟩ :: around] := by
  refine ⟨⟨[], rfl⟩, fun depth limit room => .inl ⟨?_, Run.outcome_sparing_zero ?_⟩⟩
  · exact List.forall_mem_singleton.mpr (depth ▸ room)
  · unfold Machine.Spares
    omega

/-- Something holds of all errands, or there is a first one of which it does not hold. -/
theorem exists_first
    {holds : Link → Prop}
    (links : List Link) :
    (∀ link ∈ links, holds link) ∨
      ∃ prior link rest, links = prior ++ link :: rest ∧ (∀ other ∈ prior, holds other) ∧
        ¬ holds link := by
  induction links with
  | nil => exact .inl fun _ member => nomatch member
  | cons first others inductionHypothesis =>
      by_cases holdsFirst : holds first
      · obtain all | ⟨prior, link, rest, rfl, before, differs⟩ := inductionHypothesis
        · exact .inl (List.forall_mem_cons.mpr ⟨holdsFirst, all⟩)
        · exact .inr ⟨first :: prior, link, rest, rfl,
            List.forall_mem_cons.mpr ⟨holdsFirst, before⟩, differs⟩
      · exact .inr ⟨[], first, others, rfl, (fun _ member => nomatch member), holdsFirst⟩

theorem succ
    {links : List Link}
    {part : Link → List Point}
    (starts : Activity.Starts ⟨moment, bound + 1⟩ links)
    (each : ∀ link ∈ links,
      link.moment.MeetsLimit small spare bound (⟨moment, bound + 1⟩ :: around) (part link)) :
    moment.MeetsLimit small spare (bound + 1) around
      ((⟨moment, bound + 1⟩ :: around) :: links.flatMap part) := by
  refine ⟨⟨_, rfl⟩, fun depth limit room => ?_⟩
  have spares : Machine.Spares spare moment.errand moment.machine := by
    unfold Machine.Spares
    omega
  have begins : (Run.within bound).Begins (moment.work bound) links := starts.begins
  have here : Point.active (⟨moment, bound + 1⟩ :: around) ≤ small := depth ▸ room
  rw [Run.outcome_sparing_succ bound spares, Run.outcome_within_succ]
  let alike (link : Link) : Prop := (∀ point ∈ part link, point.active ≤ small) ∧
    (Run.sparing spare bound).outcome link.moment = (Run.within bound).outcome link.moment
  obtain all | ⟨prior, link, rest, rfl, alike, differs⟩ : (∀ link ∈ links, alike link) ∨ _ :=
    exists_first links
  · refine .inl ⟨List.forall_mem_cons.mpr ⟨here, fun point member => ?_⟩,
      begins.ending_eq fun link member => (all link member).2⟩
    obtain ⟨link, isLink, inside⟩ := List.mem_flatMap.mp member
    exact (all link isLink).1 point inside
  · right
    have member : link ∈ prior ++ link :: rest := by simp
    have leads := starts.leads link member
    have onward := starts.onward link member
    obtain ⟨depths, limits⟩ := leads.counts
    dsimp only at depths limits
    have earlier : ∀ point ∈ (⟨moment, bound + 1⟩ :: around : Point) :: prior.flatMap part,
        Point.active point ≤ small := by
      refine List.forall_mem_cons.mpr ⟨here, fun point member => ?_⟩
      obtain ⟨other, isOther, inside⟩ := List.mem_flatMap.mp member
      exact (alike other isOther).1 point inside
    have whole : (⟨moment, bound + 1⟩ :: around : Point) :: (prior ++ link :: rest).flatMap part =
        ((⟨moment, bound + 1⟩ :: around) :: prior.flatMap part) ++ part link ++
          rest.flatMap part := by
      simp
    have ends (interrupt : Interrupt) (later : Machine) (interrupted :
        (Run.sparing spare bound).outcome link.moment = .error interrupt later) :
        moment.work bound (Run.sparing spare bound) =
          .error (interrupt.told link.tell) (link.back later) :=
      begins.ending_of_interrupt (fun other member => (alike other member).2) interrupted
    obtain ⟨⟨others, first⟩, inside⟩ := each link member
    rw [whole, ← Run.outcome_within_succ]
    by_cases inRoom : link.moment.machine.depth ≤ small
    · obtain same | cuts := inside (depths.trans (by rw [depth]; rfl)) (limits.trans limit) inRoom
      · exact absurd same differs
      · exact cuts.through earlier leads ends onward
    · obtain ⟨id, machine, later, node, callable, arguments, rfl, rfl, found, kind, becomes⟩ :=
        leads.eq_ofCall (by omega)
      rw [Moment.work_call found kind] at begins
      obtain ⟨values, rfl, readies⟩ := begins.readies member
      change machine.depth = around.active + 0 at depth
      change later.depth + 1 = machine.depth + 1 at depths
      change later.limit = machine.limit at limits
      change ¬ later.depth + 1 ≤ small at inRoom
      change machine.limit = small + spare at limit
      change machine.depth ≤ small at room
      have crowded : ¬ Machine.Spares spare (.call callable values.toList)
          { later with depth := later.depth + 1 } := by
        change ¬ later.depth + 1 + spare ≤ later.limit
        omega
      have called := (leads.fits.becomes bound).of_visit becomes.holds .call
      rw [first]
      exact .of_call earlier found kind becomes readies (by omega)
        (ends _ _ (Run.outcome_sparing_of_crowded bound crowded)) (called.trans onward)

end Moment.MeetsLimit

/-! ## Programs -/

/-- With more room only, work ends as it does without, but for the limit. -/
theorem Raised.eq_limited
    {spare : Nat}
    {work other : Run α}
    (raised : Raised 0 spare work other)
    {machine : Machine}
    (room : machine.depth ≤ machine.limit) :
    work machine =
      leftAs (·.limited machine.limit) (other (machine.limited (machine.limit + spare))) := by
  obtain ⟨same, counts⟩ := raised machine room
  have entered : machine.raised 0 spare = machine.limited (machine.limit + spare) := rfl
  rw [← entered, same]
  cases ends : work machine with
  | ok value later | error interrupt later =>
      rw [ends] at counts
      have limit : later.limit = machine.limit := counts.limit
      simp only [leftAs, Machine.limited, Machine.raised, Machine.counting, ← limit, Nat.add_zero]

theorem Excess.exists_lt
    {small : Nat}
    {points : List Point}
    (excess : Excess small points) :
    ∃ point ∈ points, small < Point.active point := by
  refine ⟨_, excess.whole ▸ List.mem_append_right _ List.mem_cons_self, ?_⟩
  change small < excess.around.active + 0 + 1
  rw [excess.full]
  exact Nat.lt_succ_self small

/-- A program that is run while no call is active meets a smaller limit in one of two
ways. -/
theorem Machine.Standard.exists_meetsLimit
    {machine : Machine}
    (standard : machine.Standard)
    {small spare : Nat}
    (idle : machine.depth = 0)
    (limit : machine.limit = small + spare)
    (source : String)
    (bound : Nat) :
    ∃ points, Run.History bound (Run.programWith · source) machine points ∧
      ((∀ point ∈ points, point.active ≤ small) ∧
        Run.programWith (Run.sparing spare bound) source machine =
          Run.programWith (Run.within bound) source machine ∨
      Run.CutsShort small points [] machine
        (Run.programWith (Run.sparing spare bound) source machine)
        (Run.programWith (Run.within bound) source machine)) := by
  obtain ⟨points, unfolds, -, meets⟩ := Run.exists_unfolds
    (motive := fun bound around moment points => moment.MeetsLimit small spare bound around points)
    (fun _ _ => .zero) (fun _ _ _ _ _ proceeds => .succ proceeds.toStarts) bound []
    (standard.fits_rootOf source)
  have begins := Run.begins_programWith (Run.within bound) source machine
  refine ⟨points, Run.history_of_unfolds unfolds, ?_⟩
  obtain ⟨few, same⟩ | ⟨excess, inside, fault, text, outside, tells, short, long⟩ :=
    meets idle limit (by rw [show (machine.rootOf source).machine.depth = 0 from idle]; omega)
  · exact .inl ⟨few, begins.ending_eq (List.forall_mem_singleton.mpr same)⟩
  · refine .inr ⟨excess, inside, fault, text, outside, tells, ?_, ?_⟩
    · have none : ∀ link ∈ ([] : List Link), (Run.sparing spare bound).outcome link.moment =
          (Run.within bound).outcome link.moment :=
        fun _ member => nomatch member
      exact begins.ending_of_interrupt none short
    · rw [Run.programWith_eq, Run.machineAfter_leave]
      exact long

namespace Session

/-- What a limit on calls cuts short, from any state of a session and within any bound. A
program whose run under the larger limit comes to no point at which more calls are active
than the smaller limit allows ends in the same way under both. Otherwise it fails under the
smaller limit, at the first call that is one too many, with all that it has written so far.
In particular an input that is clean under the smaller limit is the same under the larger
one. -/
theorem limit_cuts_short
    {session : Session}
    (reachable : session.Reachable)
    (source : String)
    {small large : Nat}
    (order : small ≤ large) :
    (∀ bound,
      let under (limit : Nat) :=
        Run.programWith (Run.within bound) source (session.limited limit).machine
      ∃ points,
        Run.History bound (Run.programWith · source) (session.limited large).machine points ∧
        ((∀ point ∈ points, point.active ≤ small) →
          under small = leftAs (·.limited small) (under large)) ∧
        ((∃ point ∈ points, small < Point.active point) →
          Run.CutsShort small points [] (session.limited small).machine (under small)
            (under large))) ∧
    (((session.limited small).run source).1.isClean = true →
      ((session.limited large).run source).1 = ((session.limited small).run source).1 ∧
      ((session.limited large).run source).2.machine =
        ((session.limited small).run source).2.machine.limited large) := by
  obtain ⟨spare, rfl⟩ := Nat.exists_eq_add_of_le order
  have standard := reachable.standard_limited (small + spare)
  have idle : session.machine.depth = 0 := reachable.atRest.depth
  have room : (session.limited small).machine.depth ≤ small := idle.symm ▸ Nat.zero_le small
  have raised (bound : Nat) := Raised.programWith (StepsRaised.sparing spare bound) source
  refine ⟨fun bound => ?_, fun clean => ?_⟩
  · have under := (raised bound).eq_limited room
    obtain ⟨points, history, meets⟩ := standard.exists_meetsLimit idle rfl source bound
    refine ⟨points, history, fun few => ?_, fun many => ?_⟩
    · obtain ⟨-, same⟩ | ⟨excess, -⟩ := meets
      · exact under.trans (congrArg (leftAs (·.limited small)) same)
      · obtain ⟨point, member, above⟩ := excess.exists_lt
        exact absurd (few point member) (Nat.not_le_of_lt above)
    · obtain ⟨few, -⟩ | ⟨excess, inside, fault, text, outside, tells, short, long⟩ := meets
      · obtain ⟨point, member, above⟩ := many
        exact absurd (few point member) (Nat.not_le_of_lt above)
      · exact ⟨excess, inside, fault, text, outside, tells,
          under.trans (congrArg (leftAs (·.limited small)) short), long⟩
  · let under (limit : Nat) :=
      Run.programWith (Run.within Run.ample) source (session.limited limit).machine
    by_cases faultless : faultsOf source = []
    · obtain ⟨smallReport, smallMachine⟩ := (session.limited small).run_of_faultless faultless
      obtain ⟨largeReport, largeMachine⟩ :=
        (session.limited (small + spare)).run_of_faultless faultless
      -- To execute what has been read is to run the program.
      change _ = reportOf source (under small) at smallReport
      change _ = machineAfter (under small) at smallMachine
      change _ = reportOf source (under (small + spare)) at largeReport
      change _ = machineAfter (under (small + spare)) at largeMachine
      obtain ⟨later, ends⟩ : ∃ later, under small = .ok () later := by
        rw [smallReport] at clean
        cases ends : under small with
        | ok value later => exact ⟨later, rfl⟩
        | error interrupt later =>
            rw [ends] at clean
            cases interrupt <;> cases clean
      obtain ⟨same, counts⟩ := raised Run.ample (session.limited small).machine room
      have endsLarge : under (small + spare) = .ok () (later.raised 0 spare) := by
        obtain ⟨_, _, ⟨-, unseen⟩ | ⟨_, _, _, _, _, _, short, _⟩⟩ :=
          standard.exists_meetsLimit idle rfl source Run.ample
        · exact unseen.symm.trans (same.trans (congrArg (leftAs (·.raised 0 spare)) ends))
        · cases short.symm.trans (same.trans (congrArg (leftAs (·.raised 0 spare)) ends))
      have limit : later.limit = small := by
        have kept := counts.limit
        rwa [show Run.programWith _ _ _ = _ from ends] at kept
      rw [smallReport, smallMachine, largeReport, largeMachine, ends, endsLarge, ← limit]
      exact ⟨rfl, rfl⟩
    · rw [((session.limited small).run_of_faults faultless).1] at clean
      exact absurd (List.isEmpty_iff.mp clean) faultless

/-- A function that calls another one needs room for two calls. -/
theorem limit_cuts_short_of_two_calls :
    let session := ofSettings .standard (.ofFiles ⟨[]⟩ [])
    let source :=
      "fn g() \x7b echo \"g\"; \x7d fn f() \x7b echo \"f\"; g(); echo \"h\"; \x7d f();"
    let under (limit : Nat) :=
      Run.programWith (Run.within 20) source (session.limited limit).machine
    session.Reachable ∧ 1 ≤ 2 ∧
      (machineAfter (under 1)).host.output = "f\n" ∧
      (machineAfter (under 2)).host.output = "f\ng\nh\n" ∧
      ((session.limited 3).run source).1.isClean = true ∧
      ∃ points,
        Run.History 20 (Run.programWith · source) (session.limited 2).machine points ∧
        Run.CutsShort 1 points [] (session.limited 1).machine (under 1) (under 2) := by
  intro session source under
  have reachable : session.Reachable := .new _ _
  have short : (machineAfter (under 1)).host.output = "f\n" := by decide +kernel
  have long : (machineAfter (under 2)).host.output = "f\ng\nh\n" := by decide +kernel
  have clean : ((session.limited 2).run source).1.isClean = true := by decide +kernel
  have oneMore : 1 ≤ 2 := by decide
  have anotherOne : 2 ≤ 3 := by decide
  have raising := (limit_cuts_short reachable source anotherOne).2 clean
  obtain ⟨points, history, same, cuts⟩ := (limit_cuts_short reachable source oneMore).1 20
  refine ⟨reachable, oneMore, short, long, raising.1 ▸ clean, points, history, cuts ?_⟩
  refine Classical.byContradiction fun none => ?_
  have ended : under 1 = leftAs (·.limited 1) (under 2) := same fun point member =>
    Nat.le_of_not_lt fun above => none ⟨point, member, above⟩
  -- The outputs differ.
  have written : (machineAfter (under 1)).host.output = (machineAfter (under 2)).host.output := by
    rw [ended]
    cases under 2 <;> rfl
  rw [short, long] at written
  exact absurd written (by decide)

end Session
end Scripting
