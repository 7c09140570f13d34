import Scripting.Proofs.Reading.Drawn
import Scripting.Proofs.Reading.Renamed
import Scripting.Proofs.Running.Renamed
import Scripting.Proofs.Sessions.Joined
import Scripting.Proofs.Sessions.Standard

/-!
# Sessions in other names

The names of variables and parameters carry no meaning beyond which of them are the same.
When the identifiers of a program are replaced by others, different ones by different ones,
and the built-in functions and those that the program declares keep their names, a new
session does with it what it does with the program: the output is the same, and so is the
report, but for places and for the names in it (`run_renamed`).

The program must not run other programs, whose names are not replaced.  Since it does not
say the name of the function that does, the function stays hidden.

Main statement: `Session.run_renamed`.
-/

namespace Scripting

open Tree (Arena Node)

theorem Bindings.mem_of_find?
    {bindings : Bindings}
    {name : String}
    {value : Value}
    (found : bindings.find? name = some value) :
    (name, value) ∈ bindings := by
  induction bindings with
  | nil => cases found
  | cons binding rest inductionHypothesis =>
      rw [find?] at found
      split at found
      next same =>
        rw [← same, ← Option.some.inj found]
        exact List.mem_cons_self
      next => exact List.mem_cons_of_mem _ (inductionHypothesis found)

/-! ## What a source says -/

/-- The name occurs in the source. -/
def mentions (source name : String) : Prop :=
  ∃ token ∈ (tokensOf source).body, token.kind = .identifier ∧ token.lexeme = name

instance (source name : String) : Decidable (mentions source name) :=
  inferInstanceAs (Decidable (∃ token ∈ (tokensOf source).body, _ ∧ _))

/-- A function of that name is declared in the source. -/
def declares (source name : String) : Prop :=
  ∃ node ∈ (Tree.readProgram (tokensOf source) .empty).arena.nodes.toList,
    node.kind = .function ∧ node.name = name

/-- No node says a name that does not occur in the source. -/
theorem name_ne_of_not_mentions
    {source name : String}
    (isName : Token.isIdentifier name = true)
    (unsaid : ¬ mentions source name)
    {id : Tree.NodeId}
    {node : Node}
    (found : (Tree.readProgram (tokensOf source) .empty).arena.get? id = some node) :
    node.name ≠ name := by
  have body : ∀ token ∈ (tokensOf source).body, token.lexeme ≠ name := by
    intro token member same
    have spelled := Token.Scan.spelled_of_mem_tokens member
    have isIdentifier : token.kind = .identifier := by
      rw [spelled.kind_eq_identifier_iff, String.ofList_toList, same]
      exact isName
    exact unsaid ⟨token, member, isIdentifier, same⟩
  have ending : (tokensOf source).ending.lexeme ≠ name := by
    rintro rfl
    cases isName
  have empty : Arena.empty.DrawnFrom fun token => token.lexeme ≠ name :=
    fun id node absent => by cases absent
  exact (Tree.draws_readProgram rfl body ending empty).1 id node found

/-! ## Reports -/

/-- The report in other words, without the lines of the sources. -/
def Report.reworded (words : Rewording) : Report → Report
  | .done faults => .done (faults.map fun fault => (fault.reworded words).bare)
  | .exhausted => .exhausted

theorem Fault.bare_reworded_withSource (words : Rewording) (fault : Fault) (source : String) :
    ((fault.withSource source).reworded words).bare = (fault.reworded words).bare := by
  have commute (fault : Fault) : (fault.reworded words).bare = fault.bare.reworded words := rfl
  rw [commute, commute, Fault.bare_withSource]

/-- A renamed source is read with the same faults, but for places and names. -/
theorem faultsOf_text (names : Token.Renaming) (source : String) :
    (Report.done (faultsOf (names.text source))).reworded .placeless =
      (Report.done (faultsOf source)).reworded names.words := by
  have found (source : String) (words : Rewording) :
      (Report.done (faultsOf source)).reworded words =
        .done (((Token.Scan.ofSource source).faults.toList.map (Fault.reworded words) ++
          ((Tree.readProgram (tokensOf source) .empty).reworded words).faults).map
            Fault.bare) := by
    simp only [faultsOf, Report.reworded, List.map_map, List.map_append, Tree.Program.reworded,
      Function.comp_def, Fault.bare_reworded_withSource]
    rfl
  rw [found, found, Token.Scan.faults_text, readProgram_text]

theorem faultsOf_text_eq_nil_iff (names : Token.Renaming) (source : String) :
    faultsOf (names.text source) = [] ↔ faultsOf source = [] := by
  have same := Report.done.inj (faultsOf_text names source)
  rw [← List.map_eq_nil_iff, same, List.map_eq_nil_iff]

namespace Session

/-- Where two ends are the same in other words, so are the reports of them, and the same has
been done to the surroundings. -/
theorem reports_of_ending
    {guise other : Guise}
    {ending twin : Ending Unit}
    (same : other.ending twin = guise.ending ending)
    (source text : String) :
    (machineAfter twin).host = (machineAfter ending).host ∧
      (reportOf text twin).reworded other.words =
        (reportOf source ending).reworded guise.words := by
  have hosts {machine later : Machine} {first second : Rewording}
      (same : machine.reworded first = later.reworded second) : machine.host = later.host := by
    have sameHost := congrArg Machine.host same
    exact sameHost
  cases ending with
  | ok value later =>
      cases twin with
      | error => cases same
      | ok otherValue otherLater =>
          obtain ⟨-, machines⟩ := EStateM.Result.ok.inj same
          exact ⟨hosts machines, rfl⟩
  | error interrupt later =>
      cases twin with
      | ok => cases same
      | error otherInterrupt otherLater =>
          obtain ⟨interrupts, machines⟩ := EStateM.Result.error.inj same
          refine ⟨hosts machines, ?_⟩
          cases interrupt with
          | exhausted =>
              cases otherInterrupt with
              | exhausted => rfl
              | fault => cases interrupts
          | fault fault =>
              cases otherInterrupt with
              | exhausted => cases interrupts
              | fault otherFault =>
                  simp only [reportOf, Report.reworded, List.map_cons, List.map_nil,
                    Fault.bare_reworded_withSource, Interrupt.fault.inj interrupts]

/-! ## New sessions -/

/-- The function that runs programs is the last one of a new session. -/
def guise (words : Rewording) (injective : Function.Injective words.spell) : Guise where
  words := words
  injective := injective
  unsaid := "include"
  hidden := 10

variable {words : Rewording} {injective : Function.Injective words.spell}

/-- The function that runs programs is hidden in a new session. -/
theorem fitsStore_ofSettings (settings : Settings) (host : Host) :
    (guise words injective).FitsStore (ofSettings settings host).machine.store := by
  have places : ∀ given ∈ Builtin.standard.zipIdx, given.2 = 10 → given.1.name = "include" := by
    decide
  have quiet : ∀ given ∈ Builtin.standard.zipIdx, given.2 ≠ 10 →
      given.1.action ≠ .runFile ∧ given.1.action ≠ .apply := by
    decide
  rw [store_ofSettings]
  refine ⟨fun {frame name value} isBound said => ?_, fun member => ?_,
    fun {id callable} stored shown => ?_, Nat.lt_succ_self 10⟩
  · have bound := Bindings.mem_of_find? isBound
    cases frame with
    | succ frame => simp [Store.bindings] at bound
    | zero =>
        obtain ⟨given, isGiven, same⟩ := List.mem_map.mp bound
        obtain ⟨rfl, rfl⟩ := Prod.mk.inj same
        exact fun isHidden => said (places given isGiven isHidden)
  · simp [Store.elements] at member
  · rw [Store.callable?, List.getElem?_toArray, List.getElem?_map, Option.map_eq_some_iff] at stored
    obtain ⟨given, isGiven, rfl⟩ := stored
    exact quiet (given, id) (List.mk_mem_zipIdx_iff_getElem?.mpr isGiven) shown

/-- The store of a new session is the same in other words, in which the standard functions
keep their names. -/
theorem store_reworded_ofSettings
    {spell : String → String}
    (builtins : ∀ given ∈ Builtin.standard, spell given.name = given.name)
    (settings : Settings)
    (host : Host) :
    (ofSettings settings host).machine.store.reworded spell =
      (ofSettings settings host).machine.store := by
  have bindings : Bindings.reworded spell (Builtin.standard.zipIdx.map fun given =>
      (given.1.name, Value.callable given.2)) =
      Builtin.standard.zipIdx.map fun given => (given.1.name, Value.callable given.2) := by
    rw [Bindings.reworded, List.map_map]
    refine List.map_congr_left fun given member => ?_
    have isGiven := List.mk_mem_zipIdx_iff_getElem?.mp member
    exact congrArg (·, _) (builtins given.1 (List.mem_of_getElem? isGiven))
  rw [store_ofSettings]
  simp only [Store.reworded, List.map_toArray, List.map_cons, List.map_nil, bindings, List.map_map]
  rfl

theorem arena_ofSettings :
    ∀ (settings : Settings) (host : Host), (ofSettings settings host).machine.arena = .empty :=
  holds_ofSettings (·.arena = .empty) (fun _ => rfl) (fun _ _ unread => unread)
    fun _ _ _ unread => unread

/-! ## Reading the two programs -/

section Reading

variable {machine : Machine} {names : Token.Renaming} {source : String}

theorem root_of_unread (unread : machine.arena = .empty) (source : String) :
    (machine.readSource source).1.1 = (Tree.readProgram (tokensOf source) .empty).root := by
  rw [Machine.readSource, unread]
  rfl

theorem machine_of_unread (unread : machine.arena = .empty) (source : String) :
    (machine.readSource source).2 =
      { machine with arena := (Tree.readProgram (tokensOf source) .empty).arena } := by
  rw [Machine.readSource, unread]
  rfl

/-- Once it has been read, the program fits in its own names. -/
theorem fits_source
    (unread : machine.arena = .empty)
    (hides : (guise names.words names.spell_injective).FitsStore machine.store)
    (unsaid : ¬ mentions source "include")
    (functions : ∀ name, declares source name → names.spell name = name) :
    (guise names.words names.spell_injective).Fits (machine.readSource source).2 := by
  rw [machine_of_unread unread]
  exact ⟨fun {id node} found => ⟨name_ne_of_not_mentions (by decide) unsaid found,
    fun isFunction => functions node.name
      ⟨node, Array.mem_toList_iff.mpr (Array.mem_of_getElem? found), isFunction, rfl⟩⟩, hides⟩

/-- Once it has been read, the renamed program does not say either what is unsaid. -/
theorem fits_text
    (unread : machine.arena = .empty)
    (hides : (guise .placeless Function.injective_id).FitsStore machine.store)
    (unsaid : ¬ mentions source "include")
    (kept : names.spell "include" = "include") :
    (guise .placeless Function.injective_id).Fits (machine.readSource (names.text source)).2 := by
  rw [machine_of_unread unread]
  refine ⟨fun {id node} found => ⟨fun said => ?_, fun _ => rfl⟩, hides⟩
  have twins : ((Tree.readProgram (tokensOf (names.text source)) .empty).arena.reworded
        .placeless).get? id =
      ((Tree.readProgram (tokensOf source) .empty).arena.reworded names.words).get? id :=
    congrArg (·.arena.get? id) (readProgram_text names source)
  rw [Arena.get?_reworded, Arena.get?_reworded, found] at twins
  obtain ⟨twin, twinFound, same⟩ := Option.map_eq_some_iff.mp twins.symm
  have renamed : names.spell twin.name = names.spell "include" :=
    (congrArg Node.name same).trans (said.trans kept.symm)
  exact name_ne_of_not_mentions (by decide) unsaid twinFound (names.spell_injective renamed)

/-- Once it has been read, the renamed program is the program in other words, but for
places. -/
theorem readSource_text
    (unread : machine.arena = .empty)
    (kept : machine.store.reworded names.spell = machine.store.reworded id)
    (source : String) :
    (machine.readSource (names.text source)).1.1 = (machine.readSource source).1.1 ∧
      (machine.readSource (names.text source)).2.reworded .placeless =
        (machine.readSource source).2.reworded names.words := by
  have programs := readProgram_text names source
  rw [root_of_unread unread, root_of_unread unread, machine_of_unread unread,
    machine_of_unread unread]
  have roots := congrArg Tree.Program.root programs
  have arenas := congrArg Tree.Program.arena programs
  exact ⟨roots, congrArg₂ (fun arena store => { machine with arena := arena, store := store })
    arenas kept.symm⟩

end Reading

/-- Names carry no meaning beyond which of them are the same. When the identifiers of a
program are replaced in it, different ones by different ones, and the built-in functions and
those that the program declares keep their names, a new session does the same with the
program, whatever its settings and surroundings are: the same is written, and the report is
the same, but for places and for the names in it. The program must not run others, so it
does not say the name of the function that would. -/
theorem run_renamed
    (settings : Settings)
    (host : Host)
    (names : Token.Renaming)
    (source : String)
    (unsaid : ¬ mentions source "include")
    (builtins : ∀ given ∈ Builtin.standard, names.rename given.name = given.name)
    (functions : ∀ name, declares source name → names.rename name = name) :
    let session := ofSettings settings host
    let run := session.run source
    let renamed := session.run (names.text source)
    renamed.2.machine.host = run.2.machine.host ∧
      renamed.1.reworded .placeless = run.1.reworded names.words := by
  intro session run renamed
  by_cases faultless : faultsOf source = []
  · obtain ⟨report, machine⟩ := session.run_of_faultless faultless
    obtain ⟨renamedReport, renamedMachine⟩ :=
      session.run_of_faultless ((faultsOf_text_eq_nil_iff names source).mpr faultless)
    have standard : ∀ given ∈ Builtin.standard, names.spell given.name = given.name :=
      fun given member => Token.Renaming.spell_of_fixed (builtins given member)
    have unread := arena_ofSettings settings host
    have stores : session.machine.store.reworded names.spell = session.machine.store.reworded id :=
      (store_reworded_ofSettings standard settings host).trans
        (store_reworded_ofSettings (fun _ _ => rfl) settings host).symm
    obtain ⟨roots, machines⟩ := readSource_text unread stores source
    have ends := Guise.Renames.interpretWith (.within _ Run.ample)
      (session.machine.readSource source).1.1 _
      (fits_source unread (fitsStore_ofSettings settings host) unsaid
        fun name declared => Token.Renaming.spell_of_fixed (functions name declared))
    have renamedEnds := Guise.Renames.interpretWith (.within _ Run.ample)
      (session.machine.readSource (names.text source)).1.1 _
      (fits_text unread (fitsStore_ofSettings settings host) unsaid
        (standard ⟨"include", 1, .runFile⟩ (by decide)))
    have same := renamedEnds.1.symm.trans
      ((congrArg₂ Run.interpret roots machines).trans ends.1)
    rw [report, machine, renamedReport, renamedMachine]
    exact reports_of_ending same source (names.text source)
  · have renamedFaults := mt (faultsOf_text_eq_nil_iff names source).mp faultless
    obtain ⟨report, machine⟩ := session.run_of_faults faultless
    obtain ⟨renamedReport, renamedMachine⟩ := session.run_of_faults renamedFaults
    refine ⟨?_, ?_⟩
    · rw [machine, renamedMachine]
      rfl
    · rw [report, renamedReport]
      exact faultsOf_text names source

/-- Two names are exchanged: the one hides the other in a function, and is not bound around
it. -/
theorem run_renamed_of_exchange :
    let names := Token.Renaming.exchange "x" "y" (by decide) (by decide)
    let source := "let x = true; fn f(y) \x7b echo x; return y; \x7d echo f(null); y = x;"
    let session := ofSettings .standard (.ofFiles ⟨[]⟩ [])
    let run := session.run source
    let renamed := session.run (names.text source)
    names.text source =
        "let y = true; fn f(x) \x7b echo y; return x; \x7d echo f(null); x = y;" ∧
      (¬ mentions source "include" ∧
        (∀ given ∈ Builtin.standard, names.rename given.name = given.name) ∧
        ∀ name, declares source name → names.rename name = name) ∧
      (renamed.2.machine.host = run.2.machine.host ∧
        renamed.1.reworded .placeless = run.1.reworded names.words) ∧
      renamed.2.output = "true\nnull\n" ∧
      renamed.1.faults.map (·.cause) = [.undefinedVariable "x"] := by
  intro names source
  have unsaid : ¬ mentions source "include" := by decide +kernel
  have builtins : ∀ given ∈ Builtin.standard, names.rename given.name = given.name := by
    decide +kernel
  have declared : ∀ node ∈ (Tree.readProgram (tokensOf source) .empty).arena.nodes.toList,
      node.kind = .function → names.rename node.name = node.name := by
    decide +kernel
  have functions : ∀ name, declares source name → names.rename name = name := by
    rintro name ⟨node, member, isFunction, rfl⟩
    exact declared node member isFunction
  refine ⟨by decide +kernel, ⟨unsaid, builtins, functions⟩, ?_, by decide +kernel,
    by decide +kernel⟩
  exact run_renamed .standard (.ofFiles ⟨[]⟩ []) names source unsaid builtins functions

end Session
end Scripting
