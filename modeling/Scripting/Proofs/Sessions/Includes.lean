import Scripting.Proofs.Paths
import Scripting.Proofs.Reading.Advance
import Scripting.Proofs.Running.Raised
import Scripting.Proofs.Running.TopLevel
import Scripting.Proofs.Sessions.Scopes

/-!
# An included program runs as it would alone

A built-in function that runs a program does so in the global scope and at a top level of its
own, however many calls are active.  So the program does what it would do if it were run
while nothing else is under way and as many further calls may be active (`Machine.alone`),
and what it leaves is what is left then, in the scope and with the counts of the caller
(`Run.includedEnd`).

Main statement: `includes_run_alone`.
-/

namespace Scripting

open Tree (Node)

variable {α : Type}

/-! ## Programs and where they are begun -/

/-- The machine at rest, with room for as many further calls. -/
def Machine.alone (machine : Machine) : Machine :=
  { machine with
    scope := Scope.global
    depth := 0
    base := 0
    limit := machine.limit - machine.depth }

/-- The machine in another scope, and with another count of the calls below the top level. -/
def Machine.standing (machine : Machine) (scope : Scope) (base : Nat) : Machine :=
  { machine with scope := scope, base := base }

namespace Run

variable (steps : Steps) (source : String) (machine : Machine) (scope : Scope) (base : Nat)

/-- A program does not look at the scope in which it is begun, nor at the top level around
it. -/
theorem programWith_standing :
    programWith steps source (machine.standing scope base) =
      leftAs (·.standing scope base) (programWith steps source machine) := by
  rw [programWith_eq, programWith_eq]
  have started : (machine.standing scope base).starting source = machine.starting source := rfl
  have root : ((machine.standing scope base).readSource source).1.1 =
      (machine.readSource source).1.1 := rfl
  rw [started, root]
  cases steps.execute (some (machine.readSource source).1.1) (machine.starting source) with
  | ok flow later =>
      change flush { later with scope := scope, base := base } =
        leftAs _ (flush { later with scope := machine.scope, base := machine.base })
      unfold flush
      dsimp only
      split <;> rfl
  | error interrupt later => rfl

theorem sourceWith_standing :
    sourceWith steps source (machine.standing scope base) =
      leftAs (·.standing scope base) (sourceWith steps source machine) := by
  rw [sourceWith_eq, sourceWith_eq]
  have faults : ((machine.standing scope base).readSource source).1.2 =
      (machine.readSource source).1.2 := rfl
  rw [faults]
  split
  · simp only [bind_eq, attempt, programWith_standing]
    cases programWith steps source machine with
    | ok value later => rfl
    | error interrupt later => cases interrupt <;> rfl
  · rfl

/-- A program that is run in the midst of calls does what it does alone. -/
theorem sourceWith_eq_alone
    {machine : Machine}
    (room : machine.depth ≤ machine.limit)
    (source : String)
    (bound : Nat) :
    sourceWith (within bound) source machine =
      leftAs (·.restedAs machine) (sourceWith (within bound) source machine.alone) := by
  obtain ⟨same, counts⟩ := Raised.sourceWith (StepsRaised.within machine.depth bound) source
    machine.alone (Nat.zero_le _)
  have inside : (machine.alone.raised machine.depth machine.depth).standing machine.scope
      machine.base = machine := by
    simp only [Machine.standing, Machine.raised, Machine.counting, Machine.alone, Nat.zero_add,
      Nat.sub_add_cancel room]
  have standing := sourceWith_standing (within bound) source
    (machine.alone.raised machine.depth machine.depth) machine.scope machine.base
  rw [inside, same] at standing
  rw [standing]
  have left (later : Machine) (counts : machine.alone.SameCounts later) :
      (later.raised machine.depth machine.depth).standing machine.scope machine.base =
        later.restedAs machine := by
    have depth : later.depth = 0 := counts.depth
    have limit : later.limit = machine.limit - machine.depth := counts.limit
    simp only [Machine.standing, Machine.raised, Machine.counting, Machine.restedAs, depth, limit,
      Nat.zero_add, Nat.sub_add_cancel room]
  cases ends : sourceWith (within bound) source machine.alone with
  | ok faults later | error interrupt later =>
      rw [ends] at counts
      simp only [leftAs, left later counts]

end Run

/-! ## The call that includes a program -/

/-- How the call of a built-in function ends that runs a program. The faults of the program
are told in one fault, at the closing parenthesis of the call. -/
def Run.includedEnd (given : Builtin) (found : String) (paren : Token) (machine : Machine) :
    Ending (List Fault) → Ending Value
  | .ok [] later => .ok .null (later.restedAs machine)
  | .ok faults later =>
      .error (.fault (.atToken (Link.refusal given found faults).cause paren))
        (later.restedAs machine)
  | .error interrupt later => .error interrupt (later.restedAs machine)

/-- A built-in function that runs programs is called with the path of a program that can be
read, while one call more may be active. -/
structure Includes
    (machine : Machine)
    (place : CallableId)
    (given : Builtin)
    (path : Value)
    (found source : String)
    (sought : Machine) : Prop where
  stored : machine.store.callable? place = some (.builtin given)
  runs : given.action = .runFile
  arity : given.arity = 1
  room : machine.depth < machine.limit
  located : Meaning.locate path { machine with depth := machine.depth + 1 } =
    .ok (.ok (found, source)) sought

/-- A built-in function that runs a program answers with null if it has no faults. -/
theorem Builtin.perform_of_located
    {given : Builtin}
    (runs : given.action = .runFile)
    {path : Value}
    {found source : String}
    {machine sought : Machine}
    (located : Meaning.locate path machine = .ok (.ok (found, source)) sought)
    (steps : Steps) :
    perform steps given [path] machine =
      Run.goOn (fun faults => match faults with
        | [] => pure .null
        | faults => Run.failing (Link.refusal given found faults))
        (Run.sourceWith steps source sought) := by
  have answers : answer steps given.action [path] machine =
      Meaning.runLocated steps (.ok (found, source)) sought := by
    rw [runs]
    change runFile steps path machine = _
    rw [Meaning.runFile_eq, Run.bind_of_ok located]
  unfold perform
  simp only [Run.bind_eq, answers, Meaning.runLocated]
  cases Run.sourceWith steps source sought with
  | ok faults later => cases faults <;> rfl
  | error interrupt later => rfl

namespace Includes

variable
  {machine sought : Machine}
  {place : CallableId}
  {given : Builtin}
  {path : Value}
  {found source : String}
  (includes : Includes machine place given path found source sought)

include includes

/-- To find and read a file changes nothing but what has been asked for. -/
theorem exists_wishes :
    ∃ wishes, sought = { machine with
      depth := machine.depth + 1
      host := { machine.host with wishes := wishes } } := by
  obtain ⟨result, wishes, ends⟩ :=
    AsksForFiles.locate path { machine with depth := machine.depth + 1 }
  rw [includes.located] at ends
  cases ends
  exact ⟨wishes, rfl⟩

theorem callValue_eq (paren : Token) (bound : Nat) :
    (Run.within (bound + 1)).callValue paren (.callable place) #[path] machine =
      Run.includedEnd given found paren machine
        (Run.sourceWith (Run.within bound) source sought.alone) := by
  have callable : Run.callableAt? place machine = .ok (some (.builtin given)) machine := by
    rw [← includes.stored]
    rfl
  have called : (Run.within (bound + 1)).call = (Run.within bound).callCallable := by
    rw [Run.within_succ]
    rfl
  obtain ⟨wishes, isSought⟩ := includes.exists_wishes
  have room : sought.depth ≤ sought.limit := by
    rw [isSought]
    exact includes.room
  have fits : ¬ (#[path] : Array Value).size ≠ Callable.arity (.builtin given) :=
    not_not.mpr includes.arity.symm
  rw [Steps.callValue_eq]
  dsimp only
  rw [Run.bind_of_ok callable, Steps.callFound_some, if_neg fits,
    if_neg (Nat.not_le_of_lt includes.room), called]
  change Run.callEnd paren (Builtin.perform (Run.within bound) given [path] _) = _
  rw [Builtin.perform_of_located includes.runs includes.located, Run.sourceWith_eq_alone room]
  subst isSought
  cases ends : Run.sourceWith (Run.within bound) source _ with
  | ok faults later => cases faults <;> rfl
  | error interrupt later =>
      cases interrupt with
      | fault fault => exact absurd ends (Run.sourceWith_ne_fault _ _ _ fault later)
      | exhausted => rfl

/-- The program binds names in the global scope and in scopes of its own. -/
theorem binds_iff
    (nested : machine.ScopesNested)
    (bound : Nat)
    {frame : FrameId}
    (earlier : frame < machine.store.frames.size)
    (isLocal : frame ≠ Scope.global.frame)
    (name : String) :
    (machineAfter (Run.sourceWith (Run.within bound) source sought.alone)).store.Binds frame name ↔
      machine.store.Binds frame name := by
  obtain ⟨wishes, rfl⟩ := includes.exists_wishes
  obtain ⟨around, nests, -⟩ := nested
  let start := Machine.alone { machine with
    depth := machine.depth + 1, host := { machine.host with wishes := wishes } }
  have holds : Regime.scopes.holds start :=
    ⟨around, nests.globals, nests.outermost, nests.inside, ⟨nests.globals, nests.outermost.symm⟩,
      nests.closures⟩
  have obey : Regime.scopes.StepsObey _ (Run.watched (fun _ _ => True) .exhausted bound) :=
    Regime.obeys_within (fun _ _ _ _ => trivial) .exhausted bound
  have keeps : start.KeepsScopes
      (machineAfter (Run.sourceWith (Run.within bound) source start)) :=
    (Regime.Obeys.sourceWith obey source start (.refl start) holds).2.leads
  refine ⟨fun binds => ?_, keeps.kept frame earlier name⟩
  obtain before | isGlobal | ⟨isGlobal, -⟩ := keeps.added frame earlier name binds
  · exact before
  · exact absurd isGlobal isLocal
  · exact absurd isGlobal isLocal

end Includes

/-! ## A `return` at the top level -/

/-- The statements of a program that is read on the machine. -/
def Machine.statementsOf (machine : Machine) (source : String) : List (Option Tree.NodeId) :=
  (Tree.readDeclarations (Token.Scan.ofSource source).sequence machine.arena).1

/-- A program fails at a `return` among its statements, if those before it end. -/
theorem Run.sourceWith_of_return
    {source : String}
    {machine between : Machine}
    {node : Node}
    {ids others : List (Option Tree.NodeId)}
    {id : Option Tree.NodeId}
    (faultless : (machine.readSource source).1.2 = [])
    (whole : machine.statementsOf source = ids ++ id :: others)
    {bound : Nat}
    (before : (within (bound + 1)).executeAll ids (machine.starting source) = .ok .normal between)
    (found : between.arena.node? id = some node)
    (isReturn : node.kind = .giveBack) :
    sourceWith (within (bound + 2)) source machine =
      .ok [(Fault.atToken .returnOutsideFunction node.token).withSource source]
        (between.standing machine.scope machine.base) := by
  have after : (machine.starting source).Later between := by
    have follows := Course.Follows.executeAll (Course.later.follows_within (bound + 1)) ids
      (machine.starting source)
    rwa [before] at follows
  have top : between.depth = between.base := after.depth.trans after.base.symm
  have statements : (within (bound + 2)).execute (some (machine.readSource source).1.1)
      (machine.starting source) =
        .error (.fault (.atToken .returnOutsideFunction node.token)) between := by
    rw [within_succ]
    change (within (bound + 1)).executeNode _ _ = _
    unfold Steps.executeNode
    have root : (machine.starting source).arena.node? (some (machine.readSource source).1.1) = _ :=
      Tree.get?_root rfl machine.arena
    rw [bind_of_ok (node?_of_eq root)]
    change (within (bound + 1)).executeAll (machine.statementsOf source) _ = _
    rw [whole, Steps.executeAll_append, bind_of_ok before]
    dsimp only
    unfold Steps.executeAll
    have fails := execute_giveBack found isReturn bound
    rw [if_pos top] at fails
    exact bind_of_error fails
  rw [sourceWith_eq, faultless]
  simp only [List.isEmpty_nil, if_true, bind_eq, attempt, programWith_eq, statements]
  rfl

/-! ## Included programs -/

@[simp] theorem Run.machineAfter_includedEnd
    (given : Builtin)
    (found : String)
    (paren : Token)
    (machine : Machine)
    (ending : Ending (List Fault)) :
    machineAfter (includedEnd given found paren machine ending) =
      (machineAfter ending).restedAs machine := by
  cases ending with
  | ok faults later => cases faults <;> rfl
  | error interrupt later => rfl

/-- An included program runs as it would alone, wherever the call stands that includes it and
however many calls are active. The machine on which it would run alone is that of the caller,
but for its scope and counts, and for the note of the files that have been asked for. What
the program leaves, the call leaves, with the scope and the counts of the caller, whether the
program is clean, fails or does not come to an end; all faults of the program are told in the
one fault of the call, at its closing parenthesis. Of the scopes that were there, which are
nested in the course of every session, the global one is the only one in which the program
binds names. A `return` among its statements is a fault. -/
theorem includes_run_alone
    {machine sought : Machine}
    {place : CallableId}
    {given : Builtin}
    {path : Value}
    {found source : String}
    (includes : Includes machine place given path found source sought)
    (paren : Token) :
    let alone (bound : Nat) := Run.sourceWith (Run.within bound) source sought.alone
    let included (bound : Nat) :=
      (Run.within (bound + 1)).callValue paren (.callable place) #[path] machine
    (∃ wishes, sought.alone =
      { machine with
        scope := Scope.global
        depth := 0
        base := 0
        limit := machine.limit - (machine.depth + 1)
        host := { machine.host with wishes := wishes } }) ∧
    (∀ bound,
      included bound = Run.includedEnd given found paren machine (alone bound) ∧
      (∀ fault later, alone bound ≠ .error (.fault fault) later) ∧
      (machine.ScopesNested → ∀ frame < machine.store.frames.size,
        frame ≠ Scope.global.frame → ∀ name,
          (machineAfter (included bound)).store.Binds frame name ↔
            machine.store.Binds frame name)) ∧
    ∀ bound ids id others between node,
      (sought.alone.readSource source).1.2 = [] →
      sought.alone.statementsOf source = ids ++ id :: others →
      (Run.within (bound + 1)).executeAll ids (sought.alone.starting source) =
        .ok .normal between →
      between.arena.node? id = some node → node.kind = .giveBack →
        let fault := (Fault.atToken .returnOutsideFunction node.token).withSource source
        (∃ later, alone (bound + 2) = .ok [fault] later) ∧
          ∃ later, included (bound + 2) =
            .error (.fault (.atToken (Link.refusal given found [fault]).cause paren)) later := by
  intro alone included
  have same (bound : Nat) :
      included bound = Run.includedEnd given found paren machine (alone bound) :=
    includes.callValue_eq paren bound
  refine ⟨?_, fun bound => ⟨same bound, ?_, ?_⟩, ?_⟩
  · obtain ⟨wishes, rfl⟩ := includes.exists_wishes
    exact ⟨wishes, rfl⟩
  · exact fun fault later => Run.sourceWith_ne_fault _ _ _ fault later
  · intro nested frame earlier isLocal name
    rw [same, Run.machineAfter_includedEnd]
    exact includes.binds_iff nested bound earlier isLocal name
  · intro bound ids id others between node faultless whole before present isReturn fault
    have fails := Run.sourceWith_of_return faultless whole before present isReturn
    exact ⟨⟨_, fails⟩, ⟨_, (same (bound + 2)).trans
      (congrArg (Run.includedEnd given found paren machine) fails)⟩⟩

/-- A file at the path itself is found before any other. -/
theorem Meaning.locate_of_isFile
    {machine : Machine}
    {path source : String}
    (isFile : machine.host.files.isFile path = true)
    (read : machine.host.files.read path = .ok source) :
    Meaning.locate (.text path) machine = .ok (.ok (path, source)) { machine with
      host := (machine.host.wishing (.path path)).wishing (.path path) } := by
  have first (others : List String) :
      Builtin.firstFile? (path :: others) machine =
        .ok (some path) { machine with host := machine.host.wishing (.path path) } := by
    unfold Builtin.firstFile?
    rw [Run.bind_of_ok (rfl : Builtin.seekFiles path machine = _)]
    simp only [isFile, if_true]
    rfl
  have found : Builtin.programPath? path machine =
      .ok (some path) { machine with host := machine.host.wishing (.path path) } := by
    change (if Path.isAbsolute path then _ else _ : Run (Option String)) machine = _
    split <;> exact first _
  let asked : Machine := { machine with host := machine.host.wishing (.path path) }
  have text : Builtin.readText path asked =
      .ok (.ok source) { asked with host := asked.host.wishing (.path path) } := by
    have reads : (machine.host.wishing (.path path)).files.read path = .ok source := read
    unfold Builtin.readText
    rw [Run.bind_of_ok (rfl : Builtin.seekFiles path asked = _)]
    dsimp only [asked]
    rw [reads]
    rfl
  change (Builtin.programPath? path >>= fun found => _ : Run (Except String (String × String)))
    machine = _
  rw [Run.bind_of_ok found]
  dsimp only
  rw [Run.bind_of_ok text]
  rfl

/-- A program is included in the midst of three calls. -/
theorem includes_run_alone_of_three_calls :
    let program := "let b = \"x\"; echo b;"
    let files := Files.empty.put (Place.current.enter "lib") (.file program.toUTF8)
    let session := Session.ofSettings .standard (.ofFiles files [])
    let machine := { session.machine with depth := 3, base := 2, limit := 5 }
    let given : Builtin := ⟨"include", 1, .runFile⟩
    let sought := { machine with
      depth := 4
      host := (machine.host.wishing (.path "lib")).wishing (.path "lib") }
    Includes machine 10 given (.text "lib") "lib" program sought ∧ machine.ScopesNested ∧
      (machineAfter (Run.sourceWith (Run.within 20) program sought.alone)).host.output = "x\n" ∧
      ∀ paren bound,
        (Run.within (bound + 1)).callValue paren (.callable 10) #[.text "lib"] machine =
          Run.includedEnd given "lib" paren machine
            (Run.sourceWith (Run.within bound) program sought.alone) := by
  intro program files session machine given sought
  have find : files.find "lib" = .ok (.file program.toUTF8) := by
    unfold Files.find
    rw [Path.components_of_name (by decide) (by decide)]
    rfl
  have stored : session.machine.store.callable? 10 = some (.builtin given) := rfl
  have inSession : session.machine.ScopesNested := (Session.scopes_stay_apart (.new _ _)).1
  have isHost : session.machine.host = .ofFiles files [] := rfl
  have written : (machineAfter (Run.sourceWith (Run.within 20) program sought.alone)).host.output =
      "x\n" := by
    decide +kernel
  clear_value session
  have nested : machine.ScopesNested := by
    obtain ⟨around, nests, descends⟩ := inSession
    exact ⟨around, nests.of_eq rfl rfl, descends⟩
  have sameFiles : machine.host.files = files := congrArg Host.files isHost
  have located : Meaning.locate (.text "lib") { machine with depth := 4 } =
      .ok (.ok ("lib", program)) sought :=
    Meaning.locate_of_isFile (sameFiles.symm ▸ Files.isFile_of_find find)
      (sameFiles.symm ▸ Files.read_of_find find)
  have includes : Includes machine 10 given (.text "lib") "lib" program sought :=
    ⟨stored, rfl, rfl, (by decide : 3 < 5), located⟩
  exact ⟨includes, nested, written,
    fun paren bound => ((includes_run_alone includes paren).2.1 bound).1⟩

end Scripting
