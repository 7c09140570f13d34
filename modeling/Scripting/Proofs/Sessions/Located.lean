import Scripting.Proofs.Reading.Stages
import Scripting.Proofs.Running.Raising
import Scripting.Proofs.Sessions.Drivers
import Scripting.Proofs.Sessions.Standard

/-!
# The tokens that faults are blamed on

The fault of a run has been raised at one errand, for one node, and is blamed on the token of
that node (`Run.Unfolds.exists_raises`).  The node has been made while a text was read, so its
token is one of that text (`Arena.exists_token_of_readAll`), and which token it is follows
from the cause (`Token.Bears`).  The only fault that is blamed on no token is that of output
which cannot be passed on after everything else has ended well.

Main statement: `Session.faults_located`.
-/

namespace Scripting

open Tree (Arena Node)

/-! ## Which tokens bear which faults -/

/-- The token is of the kind that a running program blames for the cause: the name of a
variable, an operator, the closing parenthesis of a call, the closing bracket of an index,
or the word of a statement. -/
def Token.Bears (token : Token) : Cause → Prop
  | .undefinedVariable name => token.kind = .identifier ∧ token.lexeme = name
  | .operandNotNumber => token.kind = .minus
  | .operandsNotNumbers => token.kind ∈ Token.numeric
  | .operandsNotAddable => token.kind = .plus
  | .divisionByZero => token.kind = .slash
  | .notCallable | .wrongArity _ _ | .callsTooDeep | .refusal _ => token.kind = .rightParen
  | .notIndexable _ | .indexNotNumber | .indexOutOfBounds _ _ => token.kind = .rightBracket
  | .returnOutsideFunction => token.kind = .keyword .returnWord
  | .transfer _ => token.kind = .keyword .echoWord
  | _ => False

namespace Token.Bears

variable {token : Token} {cause : Cause}

/-- No fault is blamed on the end of the input. -/
theorem kind_ne (bears : token.Bears cause) : token.kind ≠ .endOfInput := by
  intro ended
  cases cause <;> simp_all [Bears, Token.numeric]

/-- Only running programs blame tokens in this way. -/
theorem stage_eq (bears : token.Bears cause) : cause.stage = .running := by
  cases cause with
  | unexpectedCharacter | unterminatedText | expected | expectedExpression
  | invalidAssignmentTarget => exact bears.elim
  | _ => rfl

end Token.Bears

section Shaped

variable {arena : Arena} {node : Node}

/-- The token of a call is its closing parenthesis. -/
theorem Tree.Node.Shaped.kind_of_call (shaped : node.Shaped arena) (isCall : node.kind = .call) :
    node.token.kind = .rightParen := by
  obtain ⟨roles, layout, -⟩ := shaped
  obtain ⟨kind, token, constant, children⟩ := node
  cases isCall
  cases layout
  assumption

/-- The token of a node bears the faults with which the work of the node may fail. -/
theorem Tree.Node.Fails.bears
    {cause : Cause}
    (fails : node.Fails cause)
    (shaped : node.Shaped arena) :
    node.token.Bears cause := by
  obtain ⟨kind, token, constant, children⟩ := node
  obtain ⟨roles, layout, -⟩ := id shaped
  cases fails with
  | unbound isName =>
      obtain same | same := isName
      all_goals
        cases same
        cases layout
        exact ⟨by assumption, rfl⟩
  | operand _ isMinus => exact isMinus
  | operands _ isNumeric => exact isNumeric
  | addends _ isPlus => exact isPlus
  | divisor _ isSlash => exact isSlash
  | target isCall | arity _ _ isCall | tooDeep isCall => exact shaped.kind_of_call isCall
  | notArray _ isOther | position isOther | outside _ _ isOther | noFunction isOther
  | output _ isOther =>
      cases isOther
      cases layout
      assumption

end Shaped

/-- The token of a node for which a fault has been raised bears the fault. -/
theorem Activity.Raises.bears
    {activity : Activity}
    {arena : Arena}
    {node : Node}
    {cause : Cause}
    (raises : activity.Raises node cause)
    (shaped : node.Shaped arena) :
    node.token.Bears cause := by
  cases raises with
  | byItself _ fails _ _ => exact fails.bears shaped
  | byRefusal _ isCall _ _ _ _ => exact shaped.kind_of_call isCall

/-! ## The texts that have been read -/

/-- Some texts have been read into the arena, and in the course of a run some more are. -/
def Regime.texts : Regime where
  holds machine := ∃ texts, machine.arena = Arena.empty.readAll texts
  leads machine later := ∃ texts, later.arena = machine.arena.readAll texts
  evaluates _ _ := True
  executes _ _ := True
  calls _ _ := True
  refl _ := ⟨[], rfl⟩
  trans := by
    rintro _ _ _ ⟨texts, first⟩ ⟨others, second⟩
    exact ⟨texts ++ others, by rw [second, first, Arena.readAll_append]⟩
  evaluates_mono _ _ := trivial
  executes_mono _ _ := trivial
  calls_mono _ _ := trivial
  operand _ _ _ _ _ := trivial
  statement _ _ _ _ := trivial
  part _ _ _ _ _ _ := by split <;> trivial
  expression _ _ _ _ := trivial
  body _ _ _ _ := trivial
  root _ _ := trivial
  found _ _ := trivial
  step {machine later} holds step := by
    have leads : ∃ texts, later.arena = machine.arena.readAll texts := by
      cases step with
      | read source => exact ⟨[source], rfl⟩
      | _ => exact ⟨[], rfl⟩
    obtain ⟨texts, before⟩ := holds
    obtain ⟨others, after⟩ := leads
    exact ⟨⟨texts ++ others, by rw [after, before, Arena.readAll_append]⟩, others, after⟩
  enter holds visits := by
    obtain ⟨texts, before⟩ := holds
    cases visits with
    | program source =>
        refine ⟨texts ++ [source], ?_⟩
        rw [Arena.readAll_append, ← before]
        rfl
    | _ => exact ⟨texts, before⟩
  leave {machine inner later back} _ visits _ after leads := by
    obtain ⟨texts, inside⟩ := leads
    cases visits with
    | program source => exact ⟨after, source :: texts, inside⟩
    | _ => exact ⟨after, texts, inside⟩

/-- Nothing has been read into the arena of a new session. -/
theorem Session.texts_ofSettings (settings : Settings) (host : Host) :
    Regime.texts.holds (ofSettings settings host).machine :=
  holds_ofSettings Regime.texts.holds (fun _ => ⟨[], rfl⟩) (fun _ _ holds => holds)
    (fun _ _ _ holds => holds) settings host

/-! ## Faults of runs -/

/-- The fault is blamed on the token, which bears it and is no end of the input. -/
structure Fault.Blames (fault : Fault) (token : Token) : Prop where
  inside : token.kind ≠ .endOfInput
  bears : token.Bears fault.cause
  span : fault.span = some token.span
  lexeme : fault.lexeme = some token.lexeme

/-- Why a run has ended in the fault that came to these points, when these texts have been
read. -/
inductive Fault.Explained (fault : Fault) (points : List Point) (texts : List String)
    (host : Host) : Prop
  /-- The fault has been raised at one of the points, for a node whose token is one of a text
  that has been read, and is blamed on that token. -/
  | raised {inner : Point} {node : Node} {text : String} :
      inner ∈ points →
      inner.Raises (Fault.atToken fault.cause node.token) node fault.cause →
      text ∈ texts → node.token ∈ (tokensOf text).body → fault.Blames node.token →
        Explained fault points texts host
  /-- Everything else has ended well, and the output cannot be passed on. -/
  | unflushed {program : Activity} {answer : program.errand.Result} {after : Machine}
      {reason : String} :
      [program] ∈ points → program.outcome = .ok answer after →
      host.sink = .refusingFlush reason →
      fault = Fault.ofCause (.transfer ("cannot write output: " ++ reason)) none →
        Explained fault points texts host

namespace Fault.Explained

variable {fault : Fault} {points : List Point} {texts : List String} {host : Host}

theorem stage_eq (explained : fault.Explained points texts host) : fault.stage = .running := by
  cases explained with
  | raised _ _ _ _ blames => exact blames.bears.stage_eq
  | unflushed _ _ _ same =>
      subst same
      rfl

/-- Showing the line of a source in which a fault is does not change why it is a fault. -/
theorem withSource (explained : fault.Explained points texts host) (source : String) :
    (fault.withSource source).Explained points texts host := by
  cases explained with
  | raised isPoint raises isText stands blames =>
      refine .raised isPoint ?_ isText stands ⟨blames.inside, ?_, ?_, ?_⟩
      · rwa [withSource_cause]
      · rw [withSource_cause]
        exact blames.bears
      · rw [withSource_span]
        exact blames.span
      · rw [withSource_lexeme]
        exact blames.lexeme
  | unflushed isPoint ended sink same =>
      subst same
      exact .unflushed isPoint ended sink rfl

end Fault.Explained

theorem Fault.blames_atToken
    {token : Token}
    {cause : Cause}
    (bears : token.Bears cause) :
    (Fault.atToken cause token).Blames token where
  inside := bears.kind_ne
  bears := bears
  span := rfl
  lexeme := if_neg bears.kind_ne

/-- When the root of a program is executed, some texts are read. -/
theorem Machine.exists_texts_rootAt
    {machine : Machine}
    {earlier : List String}
    (known : machine.arena = Arena.empty.readAll earlier)
    (root : Tree.NodeId)
    (bound : Nat) :
    ∃ included, (machineAfter ((Run.within bound).outcome (machine.rootAt root))).arena =
      machine.arena.readAll included := by
  have obey : Regime.texts.StepsObey _ (Run.watched (fun _ _ => True) .exhausted bound) :=
    Regime.obeys_within (fun _ _ _ _ => trivial) .exhausted bound
  have allowed : Regime.texts.executes machine.arena (some root) := trivial
  have executes := obey.execute allowed
  exact (executes (machine.rootAt root).machine ⟨Arena.le_refl _, List.prefix_refl _⟩
    ⟨earlier, known⟩).2.leads

/-- Output that is passed on after a program is refused, or the program has ended in the
fault. -/
theorem Run.leave_cases
    {scope : Scope}
    {base : Nat}
    {ending : Ending Flow}
    {fault : Fault}
    {later : Machine}
    (failed : leave scope base ending = .error (.fault fault) later) :
    (∃ inner, ending = .error (.fault fault) inner) ∨
      ∃ flow inner reason, ending = .ok flow inner ∧ inner.host.sink = .refusingFlush reason ∧
        fault = Fault.ofCause (.transfer ("cannot write output: " ++ reason)) none := by
  cases ending with
  | error interrupt inner =>
      cases failed
      exact .inl ⟨inner, rfl⟩
  | ok flow inner =>
      refine .inr ⟨flow, inner, ?_⟩
      cases sink : inner.host.sink with
      | refusingFlush reason =>
          simp only [leave, flush, Host.flush, sink] at failed
          cases failed
          exact ⟨reason, rfl, rfl, rfl⟩
      | _ =>
          simp only [leave, flush, Host.flush, sink] at failed
          cases failed

/-- A program that has been read and ends in a fault comes to a point at which the fault has
been raised, or its output cannot be passed on. -/
theorem Machine.Standard.explains_interpretWith
    {machine : Machine}
    (standard : machine.Standard)
    {earlier : List String}
    (known : machine.arena = Arena.empty.readAll earlier)
    {root : Tree.NodeId}
    (isRoot : machine.arena.IsA .program root)
    (bound : Nat) :
    ∃ points included,
      Run.History bound (Run.interpretWith · root) machine points ∧
      (machineAfter (Run.interpretWith (Run.within bound) root machine)).arena =
        machine.arena.readAll included ∧
      ∀ fault later,
        Run.interpretWith (Run.within bound) root machine = .error (.fault fault) later →
          fault.Explained points (earlier ++ included) machine.host := by
  have fits := standard.fits_rootAt isRoot
  obtain ⟨points, unfolds, first⟩ := Run.exists_unfolds
    (motive := fun bound around moment points => (⟨moment, bound⟩ :: around : Point) ∈ points)
    (fun _ _ => List.mem_singleton_self _) (fun _ _ _ _ _ _ _ => List.mem_cons_self)
    bound [] fits
  obtain ⟨included, read⟩ := Machine.exists_texts_rootAt known root bound
  have begins := Run.begins_interpretWith (Run.within bound) root machine
  refine ⟨points, included, ⟨_, fun _ => points, begins, List.forall_mem_singleton.mpr unfolds,
    by simp⟩, ?_, fun fault later failed => ?_⟩
  · rw [Run.interpretWith_eq, Run.machineAfter_leave]
    exact read
  · rw [Run.interpretWith_eq] at failed
    obtain ⟨inner, failed⟩ | ⟨flow, inner, reason, ended, sink, same⟩ := Run.leave_cases failed
    · obtain ⟨here, node, cause, isPoint, raises, id, found⟩ :=
        unfolds.exists_raises fits (by rintro _ ⟨_, ⟨⟩⟩) failed
      have reached := fits.becomes bound
      rw [show (Run.within bound).outcome (machine.rootAt root) = _ from failed] at read reached
      have shaped := reached.holds.isRead.wellFormed.shaped id node found
      obtain ⟨activity, outside, rfl, raised⟩ := raises.raised
      have bears := raised.bears shaped
      have whole : inner.arena = Arena.empty.readAll (earlier ++ included) := by
        rw [Arena.readAll_append, ← known]
        exact read
      rw [whole] at found
      obtain ⟨text, isText, stands⟩ := Arena.exists_token_of_readAll found bears.kind_ne
      have same := raises.blames
      subst same
      rw [List.append_nil] at isPoint
      exact .raised isPoint raises isText stands (Fault.blames_atToken bears)
    · refine .unflushed first ended ?_ same
      have kept := (Course.follows_within Course.later bound).execute (some root)
        (machine.rootAt root).machine
      rw [show (Run.within bound).execute (some root) (machine.rootAt root).machine = _ from
        ended] at kept
      exact kept.sink.symm.trans sink

/-- The program of a source is explained as one that has been read, after the source. -/
theorem Machine.Standard.explains_programWith
    {machine : Machine}
    (standard : machine.Standard)
    {earlier : List String}
    (known : machine.arena = Arena.empty.readAll earlier)
    (source : String)
    (bound : Nat) :
    ∃ points included,
      Run.History bound (Run.programWith · source) machine points ∧
      (machineAfter (Run.programWith (Run.within bound) source machine)).arena =
        machine.arena.readAll (source :: included) ∧
      ∀ fault later,
        Run.programWith (Run.within bound) source machine = .error (.fault fault) later →
          fault.Explained points (earlier ++ source :: included) machine.host := by
  have reads : (machine.readSource source).2.arena = Arena.empty.readAll (earlier ++ [source]) := by
    rw [Arena.readAll_append, ← known]
    rfl
  obtain ⟨points, included, history, after, explains⟩ :=
    (Regime.standard.step standard (.read machine source)).1.explains_interpretWith reads
      (Tree.isA_root rfl standard.isRead.wellFormed) bound
  refine ⟨points, included, history, after, fun fault later failed => ?_⟩
  have explained := explains fault later failed
  rwa [List.append_assoc] at explained

/-- A fault of a running program is not found while its source is read. -/
theorem stage_ne_running
    {source : String}
    {fault : Fault}
    (member : fault ∈ faultsOf source) :
    fault.stage ≠ .running := by
  rw [faultsOf_eq, List.mem_append] at member
  obtain lexical | structural := member
  · rw [(lexical_faults_ordered source).1 fault lexical]
    decide
  · rw [structural_faults_staged source fault structural]
    decide

namespace Session

/-- In whatever session, a fault of a running program has been raised at one of the points to
which its run comes, and has the place and the text of one and the same token that is no end
of the input: the token of the node for which it was raised, which was read from one of the
texts, among them the source that is run and the programs that it includes. The token is an
operator, a name, a closing parenthesis or bracket, or a word, as the cause has it. Only when
everything has ended well, and the output cannot be passed on, the fault has no place. -/
theorem faults_located
    {session : Session}
    (reachable : session.Reachable) :
    let machine := session.machine
    ∃ earlier, machine.arena = Arena.empty.readAll earlier ∧
      (∀ root, machine.arena.IsA .program root →
        ∃ points included,
          Run.History Run.ample (Run.interpretWith · root) machine points ∧
          ∀ fault later, Run.interpret root machine = .error (.fault fault) later →
            later.arena = machine.arena.readAll included ∧
            fault.Explained points (earlier ++ included) machine.host) ∧
      ∀ source, ∃ points included,
        Run.History Run.ample (Run.programWith · source) machine points ∧
        (∀ faults later, Run.source source machine = .ok faults later →
          ∀ fault ∈ faults, fault.stage = .running →
            later.arena = machine.arena.readAll (source :: included) ∧
            fault.Explained points (earlier ++ source :: included) machine.host) ∧
        ∀ fault ∈ (session.run source).1.faults, fault.stage = .running →
          (session.run source).2.machine.arena = machine.arena.readAll (source :: included) ∧
          fault.Explained points (earlier ++ source :: included) machine.host := by
  intro machine
  have standard : machine.Standard := reachable.standard
  obtain ⟨earlier, known⟩ := Reachable.holds Regime.texts texts_ofSettings reachable
  refine ⟨earlier, known, fun root isRoot => ?program, fun source => ?source⟩
  case program =>
    obtain ⟨points, included, history, read, explains⟩ :=
      standard.explains_interpretWith known isRoot Run.ample
    refine ⟨points, included, history, fun fault later failed => ⟨?_, explains fault later failed⟩⟩
    rw [show Run.interpretWith (Run.within Run.ample) root machine = _ from failed] at read
    exact read
  case source =>
    obtain ⟨points, included, history, read, explains⟩ :=
      standard.explains_programWith known source Run.ample
    have answered : ∀ faults later, Run.Answered source machine faults later →
        ∀ fault ∈ faults, fault.stage = .running →
          later.arena = machine.arena.readAll (source :: included) ∧
          fault.Explained points (earlier ++ source :: included) machine.host := by
      intro faults later answered fault member running
      cases answered with
      | rejected => exact absurd running (stage_ne_running member)
      | completed => exact absurd member List.not_mem_nil
      | failed _ failed =>
          obtain rfl := List.mem_singleton.mp member
          rw [failed] at read
          exact ⟨read, (explains _ _ failed).withSource source⟩
    refine ⟨points, included, history,
      fun faults later ended => answered faults later (Run.answered_source ended),
      fun fault member => ?_⟩
    cases ended : (session.run source).1 with
    | done faults =>
        rw [ended] at member
        exact answered faults _ (answered_run ended) fault member
    | exhausted =>
        rw [ended] at member
        exact absurd member List.not_mem_nil

/-- A function of an earlier input divides by zero. -/
theorem faults_located_of_division :
    let session :=
      ((ofSettings .standard (.ofFiles ⟨[]⟩ [])).run "fn f(a) \x7b return a / 0; \x7d").2
    session.Reachable ∧
      (session.run "f(1);").1.faults.map (fun fault => (fault.cause, fault.span, fault.lexeme)) =
        [(.divisionByZero, some ⟨19, 20, 1, 20⟩, some "/")] ∧
      ∃ earlier points included,
        session.machine.arena = Arena.empty.readAll earlier ∧
        Run.History Run.ample (Run.programWith · "f(1);") session.machine points ∧
        ∀ fault ∈ (session.run "f(1);").1.faults, fault.stage = .running ∧
          fault.Explained points (earlier ++ "f(1);" :: included) session.machine.host := by
  intro session
  have reachable : session.Reachable := .run _ (.new _ _)
  have running : ∀ fault ∈ (session.run "f(1);").1.faults, fault.stage = .running := by
    decide +kernel
  obtain ⟨earlier, known, -, ran⟩ := faults_located reachable
  obtain ⟨points, included, history, -, located⟩ := ran "f(1);"
  exact ⟨reachable, by decide +kernel, earlier, points, included, known, history,
    fun fault member => ⟨running fault member, (located fault member (running fault member)).2⟩⟩

end Session
end Scripting
