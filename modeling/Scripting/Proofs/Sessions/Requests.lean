import Mathlib.Data.List.Induction
import Scripting.Proofs.Sessions.Kept

/-!
# What a session remembers

A session is asked to run sources and its startup program, and to forget what failed, and
between two requests the files may change.  It remembers that a request failed until it is
asked to forget it, except for one kind of failure: when the startup program cannot be read,
it says so in its report and remembers nothing.

Main statement: `Session.remembers_failures`.
-/

namespace Scripting

/-- Where there are no files, none can be read. -/
theorem Files.exists_read_error
    {files : Files}
    (absent : files.entries = [])
    (path : String) :
    ∃ problem, files.read path = .error problem := by
  have noFile (place : Place) (content : ByteArray) :
      files.get? place ≠ some (.file content) := by
    unfold Files.get?
    rw [absent]
    split <;> simp
  unfold Files.read Files.find
  cases Path.checked path with
  | error problem => exact ⟨problem, rfl⟩
  | ok =>
      cases files.followAll (Path.start path) (Path.components path) with
      | error problem => exact ⟨problem, rfl⟩
      | ok place =>
          dsimp only [bind, Except.bind]
          have noneHere := noFile place
          generalize files.get? place = entry at noneHere
          match entry with
          | none => exact ⟨.missing, rfl⟩
          | some .directory => exact ⟨.isDirectory, rfl⟩
          | some (.file content) => exact absurd rfl (noneHere content)

namespace Session

/-- What a session can be asked for, and what can happen between two requests. -/
inductive Request where
  | run (source : String)
  | runStartup
  | resetError
  /-- The files are other ones from now on. -/
  | refiled (files : Files)

/-- Answers a request. There is nothing to report where nothing is run. -/
def serve (session : Session) : Request → Report × Session
  | .run source => session.run source
  | .runStartup => session.runStartup
  | .resetError => (.done [], session.resetError)
  | .refiled files =>
      let machine := session.machine
      (.done [], { session with machine := { machine with host := { machine.host with files } } })

/-- The session after some requests. -/
def after (session : Session) (requests : List Request) : Session :=
  requests.foldl (fun session request => (session.serve request).2) session

/-- What the session reports of the request is a failure. -/
def Fails (session : Session) (request : Request) : Prop :=
  (session.serve request).1.isClean = false

/-- The settings name a startup program, and it cannot be read. -/
def StartupUnreadable (session : Session) : Prop :=
  ∃ path problem, session.settings.startup = some path ∧
    session.machine.host.files.read path = .error problem

/-- The request fails, and not because there is no startup program to be read. -/
def FailsMemorably (session : Session) (request : Request) : Prop :=
  session.Fails request ∧ ¬ (request = .runStartup ∧ session.StartupUnreadable)

/-- One of some requests failed in this way, and no later one was to forget it. -/
def Outstanding
    (session : Session)
    (failing : Session → Request → Prop)
    (requests : List Request) :
    Prop :=
  ∃ before request later, requests = before ++ request :: later ∧
    failing (session.after before) request ∧ .resetError ∉ later

/-! ## What requests keep -/

theorem holds_serve
    (regime : Regime)
    {session : Session}
    (holds : regime.holds session.machine)
    (request : Request) :
    regime.holds (session.serve request).2.machine := by
  cases request with
  | run source => exact holds_run regime holds source
  | runStartup => exact holds_runStartup regime holds
  | resetError => exact holds
  | refiled files => exact (regime.step holds (.ask (.files _ files))).1

/-- What holds of a machine in the course of every run holds of that of a session, whatever it
is asked for. -/
theorem holds_after
    (regime : Regime)
    {session : Session}
    (holds : regime.holds session.machine)
    (requests : List Request) :
    regime.holds (session.after requests).machine := by
  induction requests generalizing session with
  | nil => exact holds
  | cons request others inductionHypothesis =>
      exact inductionHypothesis (holds_serve regime holds request)

/-! ## One request -/

theorem hadError_execute (session : Session) (root : Tree.NodeId) (source : String) :
    (session.execute root source).2.hadError =
      (session.hadError || !(session.execute root source).1.isClean) := by
  unfold execute
  cases Run.interpret root session.machine with
  | ok => exact (Bool.or_false _).symm
  | error interrupt =>
      cases interrupt <;> exact (Bool.or_true _).symm

@[simp] theorem showOutline_hadError (session : Session) (root : Tree.NodeId) :
    (session.showOutline root).hadError = session.hadError := by
  unfold showOutline notice
  split <;> rfl

/-- Every failure of a source is remembered. -/
theorem hadError_run (session : Session) (source : String) :
    (session.run source).2.hadError =
      (session.hadError || !(session.run source).1.isClean) := by
  unfold run
  obtain ⟨⟨root, faults⟩, machine⟩ := session.machine.readSource source
  cases faults with
  | nil =>
      have executed := hadError_execute ({ session with machine }.showOutline root) root source
      rwa [showOutline_hadError] at executed
  | cons first others => exact (Bool.or_true _).symm

/-- A startup program that cannot be read is a failure that is not remembered. -/
theorem runStartup_of_unreadable
    {session : Session}
    (unreadable : session.StartupUnreadable) :
    session.Fails .runStartup ∧ session.runStartup.2.hadError = session.hadError := by
  obtain ⟨path, problem, named, absent⟩ := unreadable
  simp [Fails, serve, runStartup, named, absent, Report.isClean]

/-- No startup program can be read where there are no files. -/
theorem startupUnreadable_of_isEmpty
    {session : Session}
    (named : session.settings.startup.isSome = true)
    (absent : session.machine.host.files.entries.isEmpty = true) :
    session.StartupUnreadable := by
  obtain ⟨path, named⟩ := Option.isSome_iff_exists.mp named
  obtain ⟨problem, unread⟩ := Files.exists_read_error (List.isEmpty_iff.mp absent) path
  exact ⟨path, problem, named, unread⟩

/-- Every other failure of the startup program is remembered. -/
theorem hadError_runStartup
    {session : Session}
    (readable : ¬ session.StartupUnreadable) :
    session.runStartup.2.hadError = (session.hadError || !session.runStartup.1.isClean) := by
  unfold runStartup
  cases named : session.settings.startup with
  | none => exact (Bool.or_false _).symm
  | some path =>
      cases found : session.machine.host.files.read path with
      | error problem => exact absurd ⟨path, problem, named, found⟩ readable
      | ok source =>
          dsimp only
          rw [found]
          exact hadError_run _ source

/-- After a request a failure is remembered if and only if this one is to be, or one was
before and this one was not to forget it. -/
theorem hadError_serve (session : Session) (request : Request) :
    (session.serve request).2.hadError = true ↔
      session.FailsMemorably request ∨ session.hadError = true ∧ request ≠ .resetError := by
  have fails : session.Fails request ↔ (!(session.serve request).1.isClean) = true := by
    rw [Fails, Bool.not_eq_true']
  cases request with
  | run source =>
      rw [FailsMemorably, fails, serve, hadError_run, Bool.or_eq_true]
      simp [or_comm]
  | runStartup =>
      by_cases unreadable : session.StartupUnreadable
      · simp [FailsMemorably, unreadable, serve, (runStartup_of_unreadable unreadable).2]
      · rw [FailsMemorably, fails, serve, hadError_runStartup unreadable, Bool.or_eq_true]
        simp [unreadable, or_comm]
  | resetError => simp [FailsMemorably, Fails, serve, resetError, Report.isClean]
  | refiled files => simp [FailsMemorably, Fails, serve, Report.isClean]

/-! ## Many requests -/

theorem after_append (session : Session) (earlier : List Request) (request : Request) :
    session.after (earlier ++ [request]) = ((session.after earlier).serve request).2 := by
  simp [after]

/-- What is outstanding after one request more. -/
theorem outstanding_append
    (session : Session)
    (failing : Session → Request → Prop)
    (earlier : List Request)
    (request : Request) :
    session.Outstanding failing (earlier ++ [request]) ↔
      failing (session.after earlier) request ∨
        session.Outstanding failing earlier ∧ request ≠ .resetError := by
  constructor
  · rintro ⟨before, failed, later, requests, fails, kept⟩
    -- Either the last request is the one that failed, or it comes after that one.
    cases later using List.reverseRecOn with
    | nil =>
        obtain ⟨rfl, same⟩ := List.append_inj' requests rfl
        obtain rfl : request = failed := List.singleton_inj.mp same
        exact .inl fails
    | append_singleton later last =>
        rw [← List.cons_append, ← List.append_assoc] at requests
        obtain ⟨rfl, same⟩ := List.append_inj' requests rfl
        obtain rfl : request = last := List.singleton_inj.mp same
        simp only [List.mem_append, List.mem_singleton, not_or] at kept
        exact .inr ⟨⟨before, failed, later, rfl, fails, kept.1⟩, Ne.symm kept.2⟩
  · rintro (fails | ⟨⟨before, failed, later, rfl, fails, kept⟩, goesOn⟩)
    · exact ⟨earlier, request, [], rfl, fails, List.not_mem_nil⟩
    · refine ⟨before, failed, later ++ [request], by simp, fails, ?_⟩
      simp only [List.mem_append, List.mem_singleton, not_or]
      exact ⟨kept, Ne.symm goesOn⟩

theorem hadError_after
    {session : Session}
    (start : session.hadError = false)
    (requests : List Request) :
    (session.after requests).hadError = true ↔ session.Outstanding FailsMemorably requests := by
  induction requests using List.reverseRecOn with
  | nil => simp [after, start, Outstanding]
  | append_singleton earlier request inductionHypothesis =>
      rw [after_append, hadError_serve, inductionHypothesis, outstanding_append]

/-- Whatever a new session is asked for, it remembers a failure if and only if some source or
startup program failed since failures were last to be forgotten, where it does not count that
the startup program could not be read. Then the request fails, and what the session remembers
stays as it is. -/
theorem remembers_failures (settings : Settings) (host : Host) :
    let start := ofSettings settings host
    ∀ requests,
      ((start.after requests).hadError = true ↔ start.Outstanding FailsMemorably requests) ∧
        ((start.after requests).StartupUnreadable →
          (start.after requests).Fails .runStartup ∧
            (start.after (requests ++ [.runStartup])).hadError =
              (start.after requests).hadError) := by
  intro start requests
  refine ⟨hadError_after rfl requests, fun unreadable => ?_⟩
  rw [after_append]
  exact runStartup_of_unreadable unreadable

/-- A session without files whose settings name a startup program. -/
def missingStartup : Session :=
  ofSettings { Settings.standard with startup := some "absent.cipr" } (.ofFiles .empty [])

/-- A source that cannot be read as a program is remembered until it is forgotten, and the
startup program changes nothing of this. -/
theorem remembers_failures_of_missingStartup :
    let requests := [.run "echo 1", .resetError, .run "echo 1"]
    (missingStartup.after requests).StartupUnreadable ∧
      (missingStartup.after requests).hadError = true ∧
      missingStartup.Outstanding FailsMemorably requests ∧
      (missingStartup.after requests).Fails .runStartup ∧
      (missingStartup.after (requests ++ [.runStartup])).hadError = true := by
  intro requests
  have unreadable : (missingStartup.after requests).StartupUnreadable :=
    startupUnreadable_of_isEmpty (by decide +kernel) (by decide +kernel)
  have flagged : (missingStartup.after requests).hadError = true := by decide +kernel
  obtain ⟨remembers, startup⟩ := remembers_failures _ _ requests
  obtain ⟨fails, same⟩ := startup unreadable
  exact ⟨unreadable, flagged, remembers.mp flagged, fails, same.trans flagged⟩

/-- A session does not remember all failures. -/
theorem forgets_unreadable_startup :
    ¬ ((missingStartup.after [.runStartup]).hadError = true ↔
      missingStartup.Outstanding Fails [.runStartup]) := by
  have unreadable : missingStartup.StartupUnreadable := startupUnreadable_of_isEmpty rfl rfl
  obtain ⟨fails, same⟩ := runStartup_of_unreadable unreadable
  intro remembers
  have flagged : missingStartup.runStartup.2.hadError = true :=
    remembers.mpr ⟨[], .runStartup, [], rfl, fails, List.not_mem_nil⟩
  rw [same] at flagged
  cases flagged

end Session
end Scripting
