import Scripting.Proofs.Sessions.Rejected
import Scripting.Proofs.Reading.Lines
import Scripting.Proofs.Running.TopLevel

/-!
# One input or two

Two inputs that a session accepts can be given to it one after the other, or as one
input of which the second begins on a line of its own.  If the first of them ends
without a fault, both ways lead to the same output, the same outcome and the same
values, and only the tokens of the second one have other places.  If it ends with a
fault, so does the one input, and nothing of the second one is executed.

Main statement: `Session.run_joined`.
-/

namespace Scripting

open Tree (Arena Arenas Exchange Statement)

/-! ## Reading -/

/-- The text in front of a source that stands behind another one. -/
def linesOf (front : String) : List Char :=
  front.toList ++ ['\n']

/-- A source with another one after its last line. -/
def joined (front source : String) : String :=
  front ++ "\n" ++ source

/-- The tokens of the one source, and then those of the other one behind it. -/
theorem tokensOf_joined
    {front source : String}
    (frontClean : (Token.Scan.ofSource front).faults = #[])
    (clean : (Token.Scan.ofSource source).faults = #[]) :
    (Token.Scan.ofSource (joined front source)).faults = #[] ∧
      (tokensOf (joined front source)).body =
        (tokensOf front).body ++ (tokensOf source).body.map (Token.behind (linesOf front)) := by
  have chars : (joined front source).toList = front.toList ++ '\n' :: source.toList := by
    simp [joined]
  have scanned := Token.Scan.ofText_join frontClean clean
  rw [← chars] at scanned
  exact scanned

/-- The statements below the root of a program that is read over other nodes are alike
the same statements with changed tokens. -/
theorem root_alike
    {exchange : Exchange}
    {change : Token → Token}
    {tokens : Token.Sequence}
    {trees : List Statement}
    (derivation : Statement.Derives .declarations tokens.body [] trees)
    (nearest : Statement.AllElseNearest trees)
    (base right : Arena)
    (admits : ∀ id token, base.size ≤ id → id < (Tree.readProgram tokens base).arena.size →
      exchange.admits id token (change token))
    {others : List (Option Tree.NodeId)}
    (stand : Tree.Rose.AllStandAt right
      (Tree.Rose.mapAll change (Statement.roses trees)) others) :
    ∃ ids,
      (Tree.readProgram tokens base).arena.get? (Tree.readProgram tokens base).root =
          some ⟨.statements, tokens.ending, none, ids⟩ ∧
        Tree.AllAlike exchange ⟨(Tree.readProgram tokens base).arena, right⟩ ids others := by
  obtain ⟨-, -, stands⟩ := Tree.readProgram_of_derives tokens derivation nearest .empty
  obtain ⟨index, ids, root, found, below⟩ := (Tree.Rose.standsAt_node ..).mp stands
  obtain rfl := Option.some.inj root
  have same := Tree.readProgram_eq_extended tokens base
  rw [same] at admits ⊢
  refine ⟨_, ?_, Tree.allAlike_of_standAt (fun id token least most => ?_) below stand⟩
  · simp only
    rw [Arena.get?_extended_behind, found]
    rfl
  · rw [Nat.add_comm, ← Arena.size_extended] at most
    exact admits id token least most

/-! ## Tokens behind lines -/

/-- The tokens of the nodes from one index to another stand behind lines of text, and
all other tokens are unchanged. -/
def Tree.Exchange.behind (lines : List Char) (first last : Nat) : Exchange where
  admits id token twin :=
    twin = if first ≤ id ∧ id < last then token.behind lines else token
  kind_eq same := by
    rw [same]
    split <;> rfl
  lexeme_eq same := by
    rw [same]
    split <;> rfl

/-- The fault without the line of the source that it is on. -/
def Fault.bare (fault : Fault) : Fault :=
  { fault with sourceLine := none }

theorem Fault.bare_withSource (fault : Fault) (source : String) :
    (fault.withSource source).bare = fault.bare := by
  unfold Fault.withSource
  split
  · rfl
  · split
    · rfl
    · split <;> rfl

theorem Fault.Alike.bare
    {exchange : Exchange}
    {arenas : Arenas}
    {fault twin : Fault}
    (alike : fault.Alike exchange arenas twin) :
    fault.bare.Alike exchange arenas twin.bare := by
  cases alike with
  | placed tokens cause _ => exact .placed tokens cause fun _ => rfl
  | unplaced cause => exact .unplaced cause

/-- Two runs came to their ends in the same way. The lines of the sources are not
compared. -/
inductive Report.Alike (exchange : Exchange) (arenas : Arenas) : Report → Report → Prop
  | clean : Report.Alike exchange arenas (.done []) (.done [])
  | fault {fault twin : Fault} :
      fault.bare.Alike exchange arenas twin.bare →
      Report.Alike exchange arenas (.done [fault]) (.done [twin])
  | exhausted : Report.Alike exchange arenas .exhausted .exhausted

/-! ## Running -/

/-- The report without the lines of the sources. -/
def Report.bare : Report → Report
  | .done faults => .done (faults.map Fault.bare)
  | .exhausted => .exhausted

section Ends

variable {exchange : Exchange} {arenas : Arenas}

/-- Statements that end in the same way let their programs end in the same way. -/
theorem EndAlike.leave
    {first second : EStateM.Result Interrupt Machine Flow}
    (ends : EndAlike exchange arenas Same first second)
    (scope : Scope)
    (base : Nat) :
    EndAlike exchange arenas Same (Run.leave scope base first) (Run.leave scope base second) := by
  have restored {left right : Machine} (between : left.Alike exchange right) :
      ({ left with scope := scope, base := base }).Alike exchange
        { right with scope := scope, base := base } :=
    between.changing (fun machine => { machine with scope := scope, base := base })
      (fun _ => rfl) (fun _ => rfl) fun _ _ _ => rfl
  cases ends with
  | ok between after _ =>
      exact (agrees_flush _ _ (restored between) (Arenas.le_refl _)).earlier after
  | fault between after faults => exact .fault (restored between) after faults
  | exhausted between after => exact .exhausted (restored between) after

/-- Programs that end in the same way have alike reports. -/
theorem EndAlike.reports
    {first second : EStateM.Result Interrupt Machine Unit}
    (ends : EndAlike exchange arenas Same first second)
    (source other : String) :
    (Session.reportOf source first).Alike exchange
        ((machineAfter first).together (machineAfter second))
        (Session.reportOf other second) ∧
      (machineAfter first).Alike exchange (machineAfter second) := by
  cases ends with
  | ok between _ _ => exact ⟨.clean, between⟩
  | @fault fault twin _ _ between _ faults =>
      refine ⟨.fault ?_, between⟩
      rw [Fault.bare_withSource, Fault.bare_withSource]
      exact faults.bare
  | exhausted between _ => exact ⟨.exhausted, between⟩

end Ends

/-- Where no token stands for another, alike reports are the same. -/
theorem Report.Alike.bare_eq
    {arenas : Arenas}
    {report twin : Report}
    (alike : report.Alike .unchanged arenas twin) :
    twin.bare = report.bare := by
  cases alike with
  | clean => rfl
  | fault faults => simp only [Report.bare, List.map_cons, List.map_nil, faults.eq]
  | exhausted => rfl

/-- Reads a source and executes it, whether or not it has faults. -/
def Run.program (source : String) : Run Unit := fun machine =>
  Run.interpret (machine.readSource source).1.1 (machine.readSource source).2

/-- The nodes that the machine adds when it reads a source have tokens that stand behind
the lines of another one. -/
def Machine.moving (machine : Machine) (front source : String) : Exchange :=
  .behind (linesOf front) machine.arena.size (machine.readSource source).2.arena.size

/-- The machine with other nodes, at the top level of a program. -/
def Machine.atTop (machine : Machine) (arena : Arena) : Machine :=
  { machine with arena := arena, scope := Scope.global, base := machine.depth }

/-- A source that is executed after other statements ends as its statements do behind those
of another source. -/
theorem program_behind
    {machine twin : Machine}
    (alike : machine.Alike .unchanged twin)
    (global : machine.scope = Scope.global)
    (top : machine.base = machine.depth)
    (scope : Scope)
    (base : Nat)
    (front : String)
    {source : String}
    {trees : List Statement}
    (derivation : Statement.Derives .declarations (tokensOf source).body [] trees)
    (nearest : Statement.AllElseNearest trees)
    {others : List (Option Tree.NodeId)}
    (stand : Tree.Rose.AllStandAt twin.arena
      (Tree.Rose.mapAll (Token.behind (linesOf front)) (Statement.roses trees)) others) :
    ∃ arenas,
      EndAlike (machine.moving front source) arenas Same
        (Run.program source { machine with scope := scope, base := base })
        (Run.leave scope base (Run.statements others twin)) := by
  obtain ⟨ids, found, idsAlike⟩ :
      ∃ ids, _ ∧ Tree.AllAlike (machine.moving front source) ⟨_, _⟩ ids others :=
    root_alike derivation nearest machine.arena twin.arena
      (fun id token least most => (if_pos ⟨least, most⟩).symm) stand
  have run : Run.program source { machine with scope := scope, base := base } =
      Run.leave scope base
        (Run.statements ids (machine.atTop (machine.readSource source).2.arena)) :=
    Run.interpret_of_root found
  have grown := Tree.le_readProgram (tokensOf source) machine.arena
  have moved : (machine.atTop (machine.readSource source).2.arena).Alike
      (machine.moving front source) twin := by
    have same : machine.atTop (machine.readSource source).2.arena =
        { machine with arena := (machine.readSource source).2.arena } := by
      unfold Machine.atTop
      rw [← global, ← top]
    rw [same]
    exact alike.change grown (Arena.le_refl _)
      (fun old same => same.trans (if_neg fun new => Nat.not_lt.mpr new.1 old).symm)
      fun id token new => (if_neg fun old => Nat.not_lt.mpr new old.2).symm
  rw [run]
  exact ⟨_, (Steps.agrees_executeAll (agree_within Run.enough) idsAlike _ _ moved
    (Arenas.le_refl _)).leave scope base⟩

/-- Two sources are executed as the one source that they make up, if the first of them
ends without a fault; otherwise that source ends in the same way. -/
theorem program_joined
    {machine : Machine}
    (alike : machine.Alike .unchanged machine)
    (passes : machine.host.flush = .ok ())
    {front source : String}
    (frontAccepted : accepts front = true)
    (accepted : accepts source = true) :
    accepts (joined front source) = true ∧
      match Run.program front machine with
      | .ok () between =>
          ∃ arenas, EndAlike (between.moving front source) arenas Same
            (Run.program source between) (Run.program (joined front source) machine)
      | .error interrupt between =>
          ∃ arenas, EndAlike .unchanged arenas Same (.error interrupt between)
            (Run.program (joined front source) machine) := by
  obtain ⟨frontClean, frontTrees, frontDerivation, frontNearest⟩ := derives_of_accepts frontAccepted
  obtain ⟨clean, trees, derivation, nearest⟩ := derives_of_accepts accepted
  obtain ⟨wholeClean, body⟩ := tokensOf_joined frontClean clean
  let change := Token.behind (linesOf front)
  have wholeDerivation : Statement.Derives .declarations (tokensOf (joined front source)).body []
      (frontTrees ++ Statement.mapAll change trees) := by
    have before := frontDerivation.append ((tokensOf source).body.map change)
    have behind := derivation.map change (fun _ => rfl) fun _ => rfl
    rw [body]
    exact before.declarations_append behind
  have wholeNearest : Statement.AllElseNearest (frontTrees ++ Statement.mapAll change trees) :=
    (Statement.allElseNearest_append ..).mpr
      ⟨frontNearest, (Statement.allElseNearest_mapAll ..).mpr nearest⟩
  obtain ⟨faultless, grown, stands⟩ :=
    Tree.readProgram_of_derives _ wholeDerivation wholeNearest machine.arena
  refine ⟨accepts_of_faultless wholeClean faultless, ?_⟩
  obtain ⟨index, whole, root, found, below⟩ := (Tree.Rose.standsAt_node ..).mp stands
  obtain rfl := Option.some.inj root
  rw [Statement.roses_append, Statement.roses_mapAll] at below
  obtain ⟨first, second, rfl, firstStand, secondStand⟩ := (Tree.Rose.allStandAt_append ..).mp below
  rw [← Tree.Rose.mapAll_id (Statement.roses frontTrees)] at firstStand
  obtain ⟨ids, frontFound, idsAlike⟩ : ∃ ids, _ ∧ Tree.AllAlike .unchanged ⟨_, _⟩ ids first :=
    root_alike frontDerivation frontNearest machine.arena _ (fun _ _ _ _ => rfl) firstStand
  have frontRun : Run.program front machine =
      Run.leave machine.scope machine.base
        (Run.statements ids (machine.atTop (machine.readSource front).2.arena)) :=
    Run.interpret_of_root frontFound
  have wholeRun : Run.program (joined front source) machine =
      Run.leave machine.scope machine.base
        (Run.statements (first ++ second)
          (machine.atTop (machine.readSource (joined front source)).2.arena)) :=
    Run.interpret_of_root found
  have startAlike : (machine.atTop (machine.readSource front).2.arena).Alike .unchanged
      (machine.atTop (machine.readSource (joined front source)).2.arena) :=
    (alike.adding (Tree.le_readProgram _ _) grown).changing
      (fun machine => { machine with scope := Scope.global, base := machine.depth })
      (fun _ => rfl) (fun _ => rfl) fun _ _ _ => rfl
  have ends : EndAlike .unchanged _ Same
      (Run.statements ids (machine.atTop (machine.readSource front).2.arena))
      (Run.statements first (machine.atTop (machine.readSource (joined front source)).2.arena)) :=
    Steps.agrees_executeAll (agree_within Run.enough) idsAlike _ _ startAlike (Arenas.le_refl _)
  have course := Run.later_statements ids (machine.atTop (machine.readSource front).2.arena)
  rw [frontRun, wholeRun, Run.statements_append rfl]
  generalize Run.statements ids _ = frontEnd at ends course ⊢
  generalize Run.statements first _ = wholeEnd at ends ⊢
  cases ends with
  | @ok flow _ between twin betweenAlike after _ =>
      have course : (machine.atTop (machine.readSource front).2.arena).Later between := course
      have stillPasses : between.host.flush = .ok () := by
        unfold Host.flush at passes ⊢
        rw [course.sink]
        exact passes
      have left : Run.leave machine.scope machine.base (.ok flow between) =
          .ok () { between with scope := machine.scope, base := machine.base } := by
        simp only [Run.leave, Run.flush, stillPasses]
      rw [left]
      exact program_behind betweenAlike course.scope (course.base.trans course.depth.symm) _ _ _
        derivation nearest (secondStand.mono after.2)
  | fault betweenAlike after faults =>
      exact ⟨_, (EndAlike.fault betweenAlike after faults).leave machine.scope machine.base⟩
  | exhausted betweenAlike after =>
      exact ⟨_, (EndAlike.exhausted betweenAlike after).leave machine.scope machine.base⟩

namespace Session

theorem run_of_accepts
    (session : Session)
    {source : String}
    (accepted : accepts source = true) :
    (session.run source).1 = reportOf source (Run.program source session.machine) ∧
      (session.run source).2.machine = machineAfter (Run.program source session.machine) :=
  session.run_of_faultless (List.isEmpty_iff.mp accepted)

/-- What the first of two accepted inputs does decides what they do as one input.

If it ends without a fault, the one input does what both do one after the other: the
reports and the machines are alike, and the tokens of the second input stand behind the
lines of the first one. Otherwise the one input ends as the first one does. -/
theorem run_joined
    {session : Session}
    (reachable : session.Reachable)
    (passes : session.machine.host.flush = .ok ())
    {front source : String}
    (frontAccepted : accepts front = true)
    (accepted : accepts source = true) :
    let first := session.run front
    let second := first.2.run source
    let whole := session.run (front ++ "\n" ++ source)
    let exchange := first.2.machine.moving front source
    accepts (front ++ "\n" ++ source) = true ∧
      (first.1.isClean = true →
        second.1.Alike exchange (second.2.machine.together whole.2.machine) whole.1 ∧
          second.2.machine.Alike exchange whole.2.machine ∧
          whole.2.output = second.2.output) ∧
      (first.1.isClean = false →
        whole.1.bare = first.1.bare ∧
          first.2.machine.Alike .unchanged whole.2.machine ∧
          whole.2.output = first.2.output) := by
  intro first second whole exchange
  obtain ⟨wholeAccepted, ends⟩ :=
    program_joined reachable.alike passes frontAccepted accepted
  refine ⟨wholeAccepted, ?_⟩
  obtain ⟨firstReport, firstMachine⟩ := session.run_of_accepts frontAccepted
  obtain ⟨wholeReport, wholeMachine⟩ := session.run_of_accepts wholeAccepted
  change first.1 = _ at firstReport
  change first.2.machine = _ at firstMachine
  change whole.1 = _ at wholeReport
  change whole.2.machine = _ at wholeMachine
  have outputs {exchange : Exchange} {left right : Session}
      (alike : left.machine.Alike exchange right.machine) : right.output = left.output :=
    alike.field_eq (fun machine => machine.host.output) fun _ _ _ => rfl
  cases program : Run.program front session.machine with
  | ok done between =>
      rw [program] at ends firstReport firstMachine
      obtain ⟨arenas, ends⟩ := ends
      have alike := ends.reports source (joined front source)
      obtain ⟨secondReport, secondMachine⟩ := first.2.run_of_accepts accepted
      have reached : first.2.machine = between := firstMachine
      rw [← reached, ← secondReport, ← secondMachine, ← wholeReport, ← wholeMachine] at alike
      refine ⟨fun _ => ⟨alike.1, alike.2, outputs alike.2⟩, fun failed => ?_⟩
      rw [firstReport] at failed
      cases failed
  | error interrupt between =>
      rw [program] at ends firstReport firstMachine
      obtain ⟨arenas, ends⟩ := ends
      have alike := ends.reports front (joined front source)
      rw [← firstReport, ← firstMachine, ← wholeReport, ← wholeMachine] at alike
      refine ⟨fun clean => ?_, fun _ => ⟨alike.1.bare_eq, alike.2, outputs alike.2⟩⟩
      rw [firstReport] at clean
      cases interrupt <;> cases clean

/-- Two inputs that refer to one variable, on a new session. -/
theorem run_joined_of_two :
    let session := ofSettings .standard (.ofFiles ⟨[]⟩ [])
    let first := session.run "let a = true;"
    session.Reachable ∧ session.machine.host.flush = .ok () ∧
      accepts "let a = true;" = true ∧ accepts "echo a;" = true ∧ first.1.isClean = true ∧
      (session.run ("let a = true;" ++ "\n" ++ "echo a;")).2.output =
        (first.2.run "echo a;").2.output := by
  have start := Reachable.new .standard (.ofFiles ⟨[]⟩ [])
  have frontAccepted : accepts "let a = true;" = true := by decide +kernel
  have accepted : accepts "echo a;" = true := by decide +kernel
  have clean :
      ((ofSettings .standard (.ofFiles ⟨[]⟩ [])).run "let a = true;").1.isClean = true := by
    decide +kernel
  have both := (run_joined start rfl frontAccepted accepted).2.1 clean
  exact ⟨start, rfl, frontAccepted, accepted, clean, both.2.2⟩

end Session
end Scripting
