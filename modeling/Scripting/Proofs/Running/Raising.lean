import Scripting.Proofs.Running.Histories

/-!
# Where faults come from

A fault that ends a run has been raised at one errand, for one node: the work of the node
failed by itself after everything that it had begun had ended well, or the node is a call of
a built-in function that refused its task (`Activity.Raises`).  The fault is blamed on the
token of the node, and passes through everything around the errand as it is, up to the
program.  Only a built-in function that runs a program tells the fault of the program in
words of its own.

Main statements: `Moment.Fits.fault_of_builtin`, `Run.Unfolds.exists_raises`.
-/

namespace Scripting

open Tree (Node)

variable {α : Type}

/-- Work that ends in a fault has raised it by itself, after everything that it has begun has
ended well, or the fault is one of the last errand that it has begun. -/
theorem Manner.Along.fault_cases
    {manner : Manner}
    {steps : Steps}
    {machine later : Machine}
    {links : List Link}
    {fault : Fault}
    (along : manner.Along steps machine links (.error (.fault fault) later : Ending α)) :
    manner.fails fault ∧
        (∀ link ∈ links, ∃ answer after, steps.outcome link.moment = .ok answer after) ∨
      ∃ link ∈ links, ∃ reason after,
        steps.outcome link.moment = .error (.fault reason) after ∧ fault = link.tell reason := by
  generalize ended : (.error (.fault fault) later : Ending α) = ending at along
  induction along with
  | ends allows =>
      subst ended
      exact .inl ⟨allows.fails fault later rfl, fun _ member => nomatch member⟩
  | @interrupted machine link interrupt after keeps ends =>
      cases interrupt with
      | fault reason =>
          cases ended
          exact .inr ⟨link, List.mem_singleton_self _, reason, after, ends, rfl⟩
      | exhausted => cases ended
  | answered keeps ends _ inductionHypothesis =>
      obtain ⟨fails, others⟩ | ⟨link, member, reason, after, failed, told⟩ :=
        inductionHypothesis ended
      · exact .inl ⟨fails, List.forall_mem_cons.mpr ⟨⟨_, _, ends⟩, others⟩⟩
      · exact .inr ⟨link, List.mem_cons_of_mem _ member, reason, after, failed, told⟩

/-- The errand is a call of a built-in function. -/
def Errand.CallsBuiltin (errand : Errand) (given : Builtin) : Prop :=
  ∃ arguments, errand = .call (.builtin given) arguments

/-- The errand that is under way has raised a fault with the cause, for the node. -/
inductive Activity.Raises (activity : Activity) (node : Node) : Cause → Prop
  /-- The work of the node has failed by itself. -/
  | byItself {cause : Cause} {links : List Link} :
      activity.node? = some node → node.Fails cause → activity.Starts links →
      (∀ link ∈ links, ∃ answer later,
        (Run.within (activity.bound - 1)).outcome link.moment = .ok answer later) →
        Raises activity node cause
  /-- The node is a call, and the built-in function that it calls has refused its task. -/
  | byRefusal {links : List Link} {link : Link} {given : Builtin} {reason : String}
      {later : Machine} :
      activity.node? = some node → node.kind = .call → activity.Starts links → link ∈ links →
      link.moment.errand.CallsBuiltin given →
      (Run.within (activity.bound - 1)).outcome link.moment =
        .error (.fault (given.refusal reason)) later →
        Raises activity node (.refusal (given.name ++ "(): " ++ reason))

/-- An errand that ends in a fault has raised it by itself, or the fault is one of the last
errand that it has begun. -/
theorem Activity.Proceeds.fault_cases
    {activity : Activity}
    {links : List Link}
    {fault : Fault}
    {later : Machine}
    (proceeds : activity.Proceeds links)
    (failed : activity.outcome = .error (.fault fault) later) :
    activity.toMoment.Fails fault ∧
        (∀ link ∈ links, ∃ answer after,
          (Run.within (activity.bound - 1)).outcome link.moment = .ok answer after) ∨
      ∃ link ∈ links, ∃ reason after,
        (Run.within (activity.bound - 1)).outcome link.moment = .error (.fault reason) after ∧
          fault = link.tell reason := by
  have along := proceeds.along
  rw [failed] at along
  exact along.fault_cases

/-- What is begun tells a fault that has a place as it is, unless it is a program that a
built-in function runs. A fault of a built-in function itself is blamed on the call. -/
theorem Moment.Leads.tell_cases
    {moment : Moment}
    {link : Link}
    (leads : moment.Leads link) :
    ((∀ given, ¬ link.moment.errand.CallsBuiltin given) ∧
        ∀ cause token, link.tell (Fault.atToken cause token) = Fault.atToken cause token) ∨
      (∃ node given, moment.node? = some node ∧ node.kind = .call ∧
        link.moment.errand.CallsBuiltin given ∧ link.tell = (·.orAt node.token)) ∨
      ∃ given, moment.errand.CallsBuiltin given := by
  cases leads with
  | operand | part | inner | body =>
      exact .inl ⟨by rintro _ ⟨_, ⟨⟩⟩, fun _ _ => rfl⟩
  | @call _ _ _ node callable arguments found kind =>
      cases callable with
      | function declared => exact .inl ⟨by rintro _ ⟨_, ⟨⟩⟩, fun _ _ => rfl⟩
      | builtin given => exact .inr (.inl ⟨node, given, found, kind, ⟨arguments, rfl⟩, rfl⟩)
  | program => exact .inr (.inr ⟨_, _, rfl⟩)

theorem Run.outcome_zero (moment : Moment) :
    (within 0).outcome moment = .error .exhausted moment.machine := by
  obtain ⟨errand, machine⟩ := moment
  cases errand <;> rfl

/-- The fault of a built-in function has no place and begins with its name. -/
theorem Moment.Fits.fault_of_builtin
    {moment : Moment}
    {bound : Nat}
    {fault : Fault}
    {later : Machine}
    (fits : moment.Fits)
    {given : Builtin}
    (calls : moment.errand.CallsBuiltin given)
    (failed : (Run.within bound).outcome moment = .error (.fault fault) later) :
    ∃ reason, fault = given.refusal reason := by
  obtain ⟨arguments, isCall⟩ := calls
  obtain ⟨errand, machine⟩ := moment
  cases isCall
  cases bound with
  | zero => cases (Run.outcome_zero _).symm.trans failed
  | succ bound =>
      obtain ⟨links, proceeds⟩ := fits.exists_proceeds bound
      obtain ⟨fails, -⟩ | ⟨link, member, reason, after, -, told⟩ := proceeds.fault_cases failed
      · cases fails with
        | node found => cases found
        | refusal reason same =>
            cases same
            exact ⟨reason, rfl⟩
      · have leads := proceeds.leads link member
        generalize whole : Moment.mk (.call (.builtin given) arguments) machine = outer at leads
        cases leads with
        | operand found =>
            subst whole
            cases found
        | program found source =>
            cases whole
            exact ⟨_, told⟩
        | _ => cases whole

/-! ## Where the fault of an errand is raised -/

/-- At the innermost of these activities a fault has been raised for the node. It is blamed
on the token of the node and ends all of the activities. -/
structure Point.Raises (inner : Point) (fault : Fault) (node : Node) (cause : Cause) : Prop where
  raised : ∃ here outside, inner = here :: outside ∧ here.Raises node cause
  blames : fault = Fault.atToken cause node.token
  ended : ∀ activity ∈ inner, ∃ later, activity.outcome = .error (.fault fault) later

/-- An errand that is no call of a built-in function and ends in a fault comes to a point at
which the fault has been raised. -/
theorem Run.Unfolds.exists_raises
    {bound : Nat}
    {around : Point}
    {moment : Moment}
    {points : List Point}
    {fault : Fault}
    {later : Machine}
    (unfolds : Unfolds bound around moment points)
    (fits : moment.Fits)
    (notBuiltin : ∀ given, ¬ moment.errand.CallsBuiltin given)
    (failed : (within bound).outcome moment = .error (.fault fault) later) :
    ∃ inner node cause, inner ++ around ∈ points ∧ Point.Raises inner fault node cause ∧
      ∃ id, later.arena.get? id = some node := by
  induction bound generalizing around moment points fault later with
  | zero => cases (outcome_zero moment).symm.trans failed
  | succ bound inductionHypothesis =>
      obtain ⟨others, part, begins, unfold, rfl⟩ := unfolds
      obtain ⟨links, proceeds⟩ := fits.exists_proceeds bound
      have ended : ∀ activity ∈ ([⟨moment, bound + 1⟩] : Point),
          ∃ later, activity.outcome = .error (.fault fault) later :=
        List.forall_mem_singleton.mpr ⟨later, failed⟩
      have stays {node : Node} (found : moment.node? = some node) :
          ∃ id, later.arena.get? id = some node := by
        obtain ⟨id, -, present⟩ := Tree.Arena.exists_of_node? found
        have becomes := fits.becomes (bound + 1)
        rw [failed] at becomes
        exact ⟨id, Tree.Arena.get?_of_le becomes.isLater.arena present⟩
      obtain ⟨fails, allWell⟩ | ⟨link, member, reason, after, linkFailed, told⟩ :=
        proceeds.fault_cases failed
      · cases fails with
        | node found fails =>
            exact ⟨[⟨moment, bound + 1⟩], _, _, List.mem_cons_self,
              ⟨⟨_, [], rfl, .byItself found fails proceeds.toStarts allWell⟩, rfl, ended⟩,
              stays found⟩
        | refusal reason same => exact absurd ⟨_, same⟩ (notBuiltin _)
      have leads := proceeds.leads link member
      obtain ⟨declared, tells⟩ | ⟨node, given, found, kind, calls, tells⟩ | ⟨given, calls⟩ :=
        leads.tell_cases
      -- The fault passes through the errand as it is.
      · obtain ⟨other, isOther, same⟩ := proceeds.begins.exists_same_moment begins member
        have inside := unfold other isOther
        rw [same] at inside
        obtain ⟨inner, node, cause, isPoint, raises, id, found⟩ :=
          inductionHypothesis inside leads.fits declared linkFailed
        have passed : fault = reason := by
          rw [told, raises.blames, tells]
        subst passed
        obtain ⟨here, outside, rfl, raised⟩ := raises.raised
        refine ⟨(here :: outside) ++ [⟨moment, bound + 1⟩], node, cause, ?_,
          ⟨⟨here, _, rfl, raised⟩, raises.blames,
            List.forall_mem_append.mpr ⟨raises.ended, ended⟩⟩, id, ?_⟩
        · rw [List.append_assoc]
          exact List.mem_cons_of_mem _ (List.mem_flatMap.mpr ⟨other, isOther, isPoint⟩)
        · have onward := (proceeds.onward link member).isLater.arena
          rw [leads.back_arena, linkFailed] at onward
          rw [show machineAfter (Activity.outcome ⟨moment, bound + 1⟩) = later by
            rw [show Activity.outcome ⟨moment, bound + 1⟩ = _ from failed]; rfl] at onward
          exact Tree.Arena.get?_of_le onward found
      -- The fault of a built-in function is blamed on the call.
      · obtain ⟨refused, rfl⟩ := leads.fits.fault_of_builtin calls linkFailed
        refine ⟨[⟨moment, bound + 1⟩], node, _, List.mem_cons_self,
          ⟨⟨_, [], rfl, .byRefusal found kind proceeds.toStarts member calls linkFailed⟩, ?_,
            ended⟩, stays found⟩
        rw [told, tells]
        rfl
      · exact absurd calls (notBuiltin given)

end Scripting
