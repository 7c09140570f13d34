import Scripting.Proofs.Sessions.Runs

/-!
# Rejected inputs

A session rejects an input that is read with faults.  The nodes of a rejected input
stay in the arena, where they move the nodes of all later inputs.  No later input can
tell: a session answers its other inputs as if it had never been given the rejected
ones.

Main statement: `Session.answers_accepted`.
-/

namespace Scripting

/-- An input, and what a session gave for it. -/
structure Answer where
  source : String
  report : Report
  /-- What the input added to the output. -/
  echoed : String

namespace Session

/-- What an input adds to the output. -/
def echoed (session : Session) (source : String) : String :=
  String.ofList ((session.run source).2.output.toList.drop session.output.toList.length)

/-- The answer to an input. -/
def answer (session : Session) (source : String) : Answer where
  source := source
  report := (session.run source).1
  echoed := session.echoed source

/-- The answers to inputs that are given one after the other. -/
def answers : Session → List String → List Answer
  | _, [] => []
  | session, source :: later => session.answer source :: (session.run source).2.answers later

/-- A rejected input is answered with its faults, and only adds nodes to the arena. -/
theorem run_of_rejected
    (session : Session)
    {source : String}
    (rejected : accepts source = false) :
    (session.run source).1 = .done (faultsOf source) ∧
      session.echoed source = "" ∧
        ∃ arena, session.machine.arena ≤ arena ∧
          (session.run source).2.machine = { session.machine with arena := arena } := by
  have faults : faultsOf source ≠ [] := by
    simpa [accepts] using rejected
  obtain ⟨report, machine⟩ := session.run_of_faults faults
  refine ⟨report, ?_, _, Tree.le_readProgram _ _, machine⟩
  have output : (session.run source).2.output = session.output := by
    have same := congrArg (fun machine : Machine => machine.host.output) machine
    exact same
  unfold echoed
  rw [output]
  simp

/-- Alike sessions give the same answer. -/
theorem answer_alike
    {left right : Session}
    (alike : left.machine.Alike .unchanged right.machine)
    (source : String) :
    left.answer source = right.answer source := by
  obtain ⟨report, after⟩ := run_alike alike source
  have before : right.output = left.output :=
    alike.field_eq (fun machine => machine.host.output) fun _ _ _ => rfl
  have output : (right.run source).2.output = (left.run source).2.output :=
    after.field_eq (fun machine => machine.host.output) fun _ _ _ => rfl
  unfold answer echoed
  rw [report, before, output]

/-- A session answers the inputs that it accepts as an alike session does that is given
nothing else. -/
theorem filter_answers
    {left right : Session}
    (alike : left.machine.Alike .unchanged right.machine)
    (sources : List String) :
    (left.answers sources).filter (fun answer => accepts answer.source) =
      right.answers (sources.filter accepts) := by
  induction sources generalizing left right with
  | nil => rfl
  | cons source later inductionHypothesis =>
      have same : (left.answer source).source = source := rfl
      cases accepted : accepts source with
      | true =>
          rw [answers, List.filter_cons_of_pos (by rw [same, accepted]),
            List.filter_cons_of_pos accepted, answers, answer_alike alike,
            inductionHypothesis (run_alike alike source).2]
      | false =>
          obtain ⟨-, -, arena, grown, machine⟩ := left.run_of_rejected accepted
          have stillAlike : (left.run source).2.machine.Alike .unchanged right.machine := by
            rw [machine]
            exact alike.adding grown (Tree.Arena.le_refl _)
          rw [answers, List.filter_cons_of_neg (by simp [same, accepted]),
            List.filter_cons_of_neg (by simp [accepted]), inductionHypothesis stillAlike]

/-- Each answer to a rejected input names its faults and echoes nothing. -/
theorem answers_rejected
    (session : Session)
    (sources : List String) :
    ∀ answer ∈ session.answers sources, accepts answer.source = false →
      answer.report = .done (faultsOf answer.source) ∧ answer.echoed = "" := by
  induction sources generalizing session with
  | nil => simp [answers]
  | cons source later inductionHypothesis =>
      intro answer member rejected
      rcases List.mem_cons.mp member with rfl | member
      · obtain ⟨report, echoed, -⟩ := session.run_of_rejected rejected
        exact ⟨report, echoed⟩
      · exact inductionHypothesis _ answer member rejected

/-- Whatever inputs a session is given, those that it rejects echo nothing, and it
answers the others as if they were all that it is given. -/
theorem answers_accepted
    {session : Session}
    (reachable : session.Reachable)
    (sources : List String) :
    (∀ answer ∈ session.answers sources, accepts answer.source = false →
        answer.report = .done (faultsOf answer.source) ∧ answer.echoed = "") ∧
      (session.answers sources).filter (fun answer => accepts answer.source) =
        session.answers (sources.filter accepts) :=
  ⟨session.answers_rejected sources, filter_answers reachable.alike sources⟩

/-- The second of these inputs is rejected, and the others are answered without it. -/
theorem answers_accepted_of_three :
    let session := ofSettings .standard (.ofFiles ⟨[]⟩ [])
    session.Reachable ∧ accepts "echo 1" = false ∧
      (session.answers ["let a = 1;", "echo 1", "echo a;"]).filter
          (fun answer => accepts answer.source) =
        session.answers ["let a = 1;", "echo a;"] := by
  have start := Reachable.new .standard (.ofFiles ⟨[]⟩ [])
  have kept : ["let a = 1;", "echo 1", "echo a;"].filter accepts = ["let a = 1;", "echo a;"] := by
    decide +kernel
  have answered := (answers_accepted start ["let a = 1;", "echo 1", "echo a;"]).2
  rw [kept] at answered
  exact ⟨start, by decide +kernel, answered⟩

end Session
end Scripting
