import Scripting.CommandLine
import Scripting.Proofs.Paths
import Scripting.Proofs.Sessions.Located

/-!
# Reports and exit statuses

A source that has faults is answered with all of them and is not executed, and one that has
none is answered with at most one fault, of its execution (`Run.Reports`).  So the exit
status of the command that runs a file tells whether the file could not be read, has faults,
failed, or ran to its end, whatever the startup program has done.

No source ends in a fault outside these answers (`Run.source_ne_fault`), so one that is run in
a session is answered with a report or does not come to an end.

Main statements: `Session.Reachable.source_reports_or_exhausted`,
`CommandLine.status_tells_stage`.
-/

namespace Scripting

/-- What a source is answered with that is run on the machine and leaves the later one. -/
inductive Run.Reports (source : String) (machine later : Machine) : List Fault → Prop
  | clean : faultsOf source = [] → Reports source machine later []
  /-- All faults of the tokens in their order, and then all of the structure. Nothing but the
  arena of the machine has changed, into which the source has been read. -/
  | rejected :
      faultsOf source ≠ [] →
      (∀ fault ∈ lexicalFaultsOf source, fault.stage = .lexical) →
      (lexicalFaultsOf source).Pairwise Fault.Precedes →
      (∀ fault ∈ structuralFaultsOf source, fault.stage = .structural) →
      later = { machine with arena := later.arena } →
        Reports source machine later (lexicalFaultsOf source ++ structuralFaultsOf source)
  /-- The one fault in which the execution ended. -/
  | failed {fault : Fault} :
      faultsOf source = [] → fault.stage = .running → Reports source machine later [fault]

/-- A fault in which a program ends is one of a running program. -/
theorem Machine.Standard.stage_of_programWith
    {machine later : Machine}
    (standard : machine.Standard)
    (texts : Regime.texts.holds machine)
    {source : String}
    {bound : Nat}
    {fault : Fault}
    (failed : Run.programWith (Run.within bound) source machine = .error (.fault fault) later) :
    fault.stage = .running := by
  obtain ⟨earlier, known⟩ := texts
  obtain ⟨points, included, -, -, explains⟩ := standard.explains_programWith known source bound
  exact (explains fault later failed).stage_eq

/-- The answers to a source are reports. -/
theorem Run.Answered.reports
    {source : String}
    {machine later : Machine}
    {faults : List Fault}
    (answered : Answered source machine faults later)
    (standard : machine.Standard)
    (texts : Regime.texts.holds machine) :
    Reports source machine later faults := by
  cases answered with
  | rejected faulty =>
      obtain ⟨stages, ordered⟩ := lexical_faults_ordered source
      rw [faultsOf_eq]
      exact .rejected faulty stages ordered (structural_faults_staged source) rfl
  | completed faultless => exact .clean faultless
  | failed faultless failed =>
      refine .failed faultless ?_
      exact (congrArg Cause.stage (Fault.withSource_cause _ source)).trans
        (standard.stage_of_programWith texts failed)

/-- A source does not end in a fault. Where its program does, the fault is the report that the
source is answered with. -/
theorem Run.source_ne_fault
    (source : String)
    (machine : Machine)
    (fault : Fault)
    (later : Machine) :
    Run.source source machine ≠ .error (.fault fault) later :=
  Run.sourceWith_ne_fault (Run.within Run.ample) source machine fault later

/-- In whatever session a source is run, it is answered with a report, unless its run does not
come to an end. -/
theorem Session.Reachable.source_reports_or_exhausted
    {session : Session}
    (reachable : session.Reachable)
    (source : String) :
    (∃ faults later, Run.source source session.machine = .ok faults later ∧
        Run.Reports source session.machine later faults) ∨
      ∃ later, Run.source source session.machine = .error .exhausted later := by
  have texts := Session.Reachable.holds Regime.texts Session.texts_ofSettings reachable
  cases ended : Run.source source session.machine with
  | ok faults later =>
      exact .inl ⟨faults, later, rfl,
        (Run.answered_source ended).reports reachable.standard texts⟩
  | error interrupt later =>
      cases interrupt with
      | fault fault => exact absurd ended (Run.source_ne_fault source _ fault later)
      | exhausted => exact .inr ⟨later, rfl⟩

/-! ## The command line -/

namespace Session

/-- To show faults is to show some notices. -/
theorem Reachable.reportAll
    {session : Session}
    (reachable : session.Reachable)
    (report : Report) :
    (session.reportAll report).Reachable := by
  unfold Session.reportAll
  induction report.faults generalizing session with
  | nil => exact reachable
  | cons fault others inductionHypothesis => exact inductionHypothesis (reachable.notice fault.text)

end Session

namespace CommandLine

/-- Whatever the startup program does, it leaves a session that can arise. -/
theorem reachable_openSession (host : Host) : (openSession host).Reachable :=
  ((Session.Reachable.new _ _).runStartup.reportAll _).resetError

/-- Faults that are found while a source is read are faults of its text. -/
theorem code_of_faulty {source : String} (faulty : faultsOf source ≠ []) :
    (Status.ofReport (.done (faultsOf source))).code = 65 := by
  have noneRuns : ((faultsOf source).any fun fault => decide (fault.stage = .running)) = false := by
    rw [List.any_eq_false]
    exact fun fault member => by simpa using stage_ne_running member
  cases whole : faultsOf source with
  | nil => exact absurd whole faulty
  | cons first others =>
      rw [whole] at noneRuns
      simp only [Status.ofReport, noneRuns]
      rfl

/-- The status of a source tells whether it has faults, failed, or ran to its end. -/
theorem code_of_answered
    {source : String}
    {machine later : Machine}
    {faults : List Fault}
    (answered : Run.Answered source machine faults later)
    (standard : machine.Standard)
    (texts : Regime.texts.holds machine) :
    let code := (Status.ofReport (.done faults)).code
    let ending := Run.programWith (Run.within Run.ample) source machine
    (code = 65 ↔ faultsOf source ≠ []) ∧
      (code = 70 ↔ faultsOf source = [] ∧ ∃ fault later, ending = .error (.fault fault) later) ∧
      (code = 0 ↔ faultsOf source = [] ∧ ∃ later, ending = .ok () later) := by
  intro code ending
  cases answered with
  | rejected faulty =>
      have isCode : code = 65 := code_of_faulty faulty
      simp [isCode, faulty]
  | completed faultless ran =>
      have isCode : code = 0 := rfl
      have ends : ending = .ok () later := ran
      simp [isCode, faultless, ends]
  | @failed fault _ faultless failed =>
      have stage : (fault.withSource source).stage = .running :=
        (congrArg Cause.stage (Fault.withSource_cause _ source)).trans
          (standard.stage_of_programWith texts failed)
      have isCode : code = 70 := by simp [code, Status.ofReport, stage, Status.code]
      have ends : ending = .error (.fault fault) later := failed
      simp [isCode, faultless, ends]

/-- Only a file that cannot be read has the status that says so. -/
theorem code_ofReport_ne (report : Report) : (Status.ofReport report).code ≠ 74 := by
  unfold Status.ofReport
  split
  · decide
  · split <;> decide
  · decide

/-- A file that cannot be read is not run, and nothing runs before it. -/
theorem runFile_of_error
    {path : String}
    {host : Host}
    {problem : FileProblem}
    (unread : host.files.read path = .error problem) :
    let outcome := runFile path host
    outcome.status = .unreadable ∧ outcome.host = host.wishing (.path path) ∧
      outcome.output = host.output := by
  simp only [runFile, Host.wishing, unread, true_and]

/-- A file that can be read is run after the startup program. -/
theorem status_runFile
    {path source : String}
    {host : Host}
    (read : host.files.read path = .ok source) :
    (runFile path host).status =
      .ofReport ((openSession (host.wishing (.path path))).run source).1 := by
  simp only [runFile, Host.wishing, read]
  rfl

/-- In whatever session a source is run, by the session or as one that is included, it is
answered with a report: nothing, all faults of its tokens and then of its structure, when it
was only read, or the one fault of a running program. So the command that runs a file, if the
run comes to an end, tells by its status whether the file could not be read, in which case
nothing has been run, has faults, failed or ran to its end, whatever the startup program
did. -/
theorem status_tells_stage :
    (∀ session : Session, session.Reachable → ∀ source,
      (∀ faults later, Run.source source session.machine = .ok faults later →
        Run.Reports source session.machine later faults) ∧
      ∀ faults, (session.run source).1 = .done faults →
        Run.Reports source session.machine (session.run source).2.machine faults) ∧
    ∀ arguments input host path, Request.ofArguments arguments = .runFile path →
      let asked := host.wishing (.path path)
      let outcome := CommandLine.run arguments input host
      (outcome.status.code = 74 ↔ ∃ problem, host.files.read path = .error problem) ∧
      (outcome.status.code = 74 → outcome.host = asked ∧ outcome.output = host.output) ∧
      ∀ source, host.files.read path = .ok source →
        let session := openSession asked
        let ending := Run.programWith (Run.within Run.ample) source session.machine
        (session.run source).1 ≠ .exhausted →
          (outcome.status.code = 65 ↔ faultsOf source ≠ []) ∧
          (outcome.status.code = 70 ↔
            faultsOf source = [] ∧ ∃ fault later, ending = .error (.fault fault) later) ∧
          (outcome.status.code = 0 ↔ faultsOf source = [] ∧ ∃ later, ending = .ok () later) := by
  refine ⟨fun session reachable source => ?reports, fun arguments input host path asks => ?status⟩
  case reports =>
    have texts := Session.Reachable.holds Regime.texts Session.texts_ofSettings reachable
    exact ⟨fun faults later ended => (Run.answered_source ended).reports reachable.standard texts,
      fun faults ended => (Session.answered_run ended).reports reachable.standard texts⟩
  case status =>
    intro asked outcome
    have isOutcome : outcome = runFile path host := by
      simp only [outcome, CommandLine.run, asks]
    cases read : host.files.read path with
    | error problem =>
        obtain ⟨status, same, output⟩ := runFile_of_error read
        rw [isOutcome]
        refine ⟨by simp [status, Status.code], fun _ => ⟨same, output⟩, ?_⟩
        rintro source ⟨⟩
    | ok source =>
        have status := status_runFile read
        rw [isOutcome, status]
        have differs := code_ofReport_ne ((openSession asked).run source).1
        refine ⟨⟨fun same => absurd same differs, by rintro ⟨_, ⟨⟩⟩⟩,
          fun same => absurd same differs, ?_⟩
        rintro _ ⟨⟩ session ending ended
        have reachable : session.Reachable := reachable_openSession asked
        cases report : (session.run source).1 with
        | exhausted => exact absurd report ended
        | done faults =>
            exact code_of_answered (Session.answered_run report) reachable.standard
              (Session.Reachable.holds Regime.texts Session.texts_ofSettings reachable)

/-- One file has faults, another one fails, and a third one is not there. -/
theorem status_tells_stage_of_three_files :
    let files := (Files.empty.put (Place.current.enter "a") (.file "let = @;".toUTF8)).put
      (Place.current.enter "b") (.file "echo 1; echo 1 / 0;".toUTF8)
    let host := Host.ofFiles files []
    let codeOf (path : String) := (CommandLine.run ["run", path] "" host).status.code
    codeOf "a" = 65 ∧ codeOf "b" = 70 ∧ codeOf "c" = 74 := by
  intro files host codeOf
  have first : files.read "a" = .ok "let = @;" := Files.read_of_find (by
    unfold Files.find
    rw [Path.components_of_name (by decide) (by decide)]
    rfl)
  have second : files.read "b" = .ok "echo 1; echo 1 / 0;" := Files.read_of_find (by
    unfold Files.find
    rw [Path.components_of_name (by decide) (by decide)]
    rfl)
  have third : files.read "c" = .error .missing := by
    unfold Files.read Files.find
    rw [Path.components_of_name (by decide) (by decide)]
    rfl
  have failed : ((openSession (host.wishing (.path "b"))).run "echo 1; echo 1 / 0;").1.faults.map
      Fault.cause = [.divisionByZero] := by
    decide +kernel
  have tells (path : String) := status_tells_stage.2 ["run", path] "" host path rfl
  refine ⟨?_, ?_, (tells "c").1.mpr ⟨_, third⟩⟩
  · have faulty : faultsOf "let = @;" ≠ [] := by decide +kernel
    refine ((tells "a").2.2 _ first ?_).1.mpr faulty
    rw [(Session.run_of_faults _ faulty).1]
    exact fun same => by cases same
  · have codes := (tells "b").2.2 _ second
    generalize openSession (host.wishing (.path "b")) = session at failed codes
    cases report : (session.run "echo 1; echo 1 / 0;").1 with
    | exhausted =>
        rw [report] at failed
        cases failed
    | done faults =>
        rw [report] at failed
        refine (codes fun same => by cases report.symm.trans same).2.1.mpr ?_
        have answered := Session.answered_run report
        generalize (session.run _).2.machine = later at answered
        cases answered with
        | rejected faulty => exact absurd (by decide +kernel) faulty
        | completed => cases failed
        | failed faultless ran => exact ⟨faultless, _, _, ran⟩

end CommandLine
end Scripting
