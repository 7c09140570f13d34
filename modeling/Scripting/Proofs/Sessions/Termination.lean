import Scripting.Proofs.Running.Bounds
import Scripting.Proofs.Running.Texts
import Scripting.Proofs.Sessions.Standard

/-!
# Programs without loops come to an end

Whatever is begun for an errand is smaller in one of three ways (`Moment.Leads.rank_lt`): it
is a call, for which less room is left; it is what a call does; or it is about an earlier
node.  So without loops, in which something is begun over and over again, every run comes to
an end.  It does not matter which functions are called, since there is room for some calls
only, nor what is read in the course of the run, since a program is only run by a call.

Main statement: `Session.loopless_programs_end`.
-/

namespace Scripting

open Tree (Arena Node)

variable {α : Type}

/-- There is no loop among the nodes. -/
def Tree.Arena.Loopless (arena : Arena) : Prop :=
  ∀ node ∈ arena.nodes, node.kind ≠ .loop

instance (arena : Arena) : Decidable arena.Loopless :=
  inferInstanceAs (Decidable (∀ node ∈ arena.nodes, node.kind ≠ .loop))

theorem Tree.Arena.Loopless.of_le
    {arena later : Arena}
    (loopless : later.Loopless)
    (grows : arena ≤ later) :
    arena.Loopless := by
  intro node member
  obtain ⟨id, inside, rfl⟩ := Array.mem_iff_getElem.mp member
  have found := Tree.Arena.get?_of_le grows (Array.getElem?_eq_getElem inside)
  exact loopless _ (Array.mem_of_getElem? found)

/-! ## What is begun is smaller -/

/-- How much may still be begun for an errand: the room that is left for calls, whether the
errand is a call, and the index of its node. -/
def Moment.rank (moment : Moment) : Nat × Nat × Nat :=
  (moment.machine.limit - moment.machine.depth, moment.errand.entered,
    (moment.errand.id?.map (· + 1)).getD 0)

/-- A child is an earlier node than its parent. -/
theorem Tree.Node.rank_child_lt
    {arena later : Arena}
    (formed : later.WellFormed)
    (grows : arena ≤ later)
    {id : Option Tree.NodeId}
    {node : Node}
    (found : arena.node? id = some node)
    (position : Nat) :
    ((node.child position).map (· + 1)).getD 0 < (id.map (· + 1)).getD 0 := by
  obtain ⟨index, rfl, present⟩ := Tree.Arena.exists_of_node? found
  cases isChild : node.child position with
  | none => exact Nat.succ_pos index
  | some child =>
      have member := List.mem_of_getElem? (Option.join_eq_some_iff.mp isChild)
      exact Nat.succ_lt_succ (formed.earlier index node (Tree.Arena.get?_of_le grows present) child
        member)

/-- What is begun for an errand is smaller. -/
theorem Moment.Leads.rank_lt
    {moment : Moment}
    {link : Link}
    (leads : moment.Leads link) :
    Prod.Lex (· < ·) (Prod.Lex (· < ·) (· < ·)) link.moment.rank moment.rank := by
  obtain ⟨depth, limit⟩ := leads.counts
  unfold Moment.rank
  rw [depth, limit]
  have child {machine later : Machine} (becomes : machine.Becomes later)
      {id : Option Tree.NodeId} {node : Node} (found : machine.arena.node? id = some node)
      (position : Nat) :=
    node.rank_child_lt becomes.holds.isRead.wellFormed becomes.isLater.arena found position
  cases leads with
  | @operand moment _ _ position found becomes _ =>
      obtain ⟨errand, machine⟩ := moment
      cases errand with
      | evaluate | execute => exact .right _ (.right _ (child becomes found position))
      | call => cases found
  | @part _ _ _ _ position found becomes _ =>
      exact .right _ (.right _ (child becomes found position))
  | @inner id machine _ _ position found _ becomes _ =>
      have entered : (machine.opening machine.scope []).arena.node? id = _ := found
      exact .right _ (.right _ (child becomes entered position))
  | body => exact .right _ (.left _ _ Nat.one_pos)
  | @call _ machine later _ _ _ _ _ becomes _ _ room =>
      refine .left _ _ ?_
      rw [becomes.isLater.depth, becomes.isLater.limit] at room
      change machine.limit - (machine.depth + 1) < machine.limit - machine.depth
      omega
  | program => exact .right _ (.left _ _ Nat.one_pos)

/-! ## Runs without loops -/

/-- From some bound on the work ends in the same way, and the bound is not used up. -/
def Finishes (ending : Nat → Ending α) : Prop :=
  ∃ last least, Concludes last ∧ ∀ bound, least ≤ bound → ending bound = last

/-- From some bound on there are no loops among the nodes that have been read in the end. -/
def StaysLoopless (ending : Nat → Ending α) : Prop :=
  ∃ least, ∀ bound, least ≤ bound → (machineAfter (ending bound)).arena.Loopless

/-- What an errand leaves is kept by the work that begins with it. -/
theorem Link.Opens.arena_le
    {leads : Link → Prop}
    {gives : Value → α → Prop}
    {manner : Manner}
    {link : Link}
    {work : Steps → Ending α}
    {next : link.moment.errand.Result → Machine → Steps → Ending α}
    {steps : Steps}
    (opens : link.Opens work next)
    (becomes : ∀ link, leads link →
      link.moment.machine.Becomes (machineAfter (steps.outcome link.moment)))
    (led : leads link)
    (keeps : ∀ later, (link.back later).arena = later.arena)
    (goes : ∀ answer later, link.moment.machine.Becomes later →
      Plan leads gives manner (link.back later) (next answer later)) :
    (machineAfter (steps.outcome link.moment)).arena ≤ (machineAfter (work steps)).arena := by
  have reached := becomes link led
  rw [opens]
  cases ends : steps.outcome link.moment with
  | error interrupt later =>
      change later.arena ≤ (link.back later).arena
      rw [keeps]
      exact Tree.Arena.le_refl _
  | ok answer later =>
      rw [ends] at reached
      obtain ⟨onward, -⟩ := (goes answer later reached).exists_begins _ becomes
      change later.arena ≤ _
      rw [← keeps later]
      exact onward.isLater.arena

/-- Planned work finishes if everything does that it may begin. -/
theorem Plan.finishes
    {leads : Link → Prop}
    {gives : Value → α → Prop}
    {manner : Manner}
    {machine : Machine}
    {work : Steps → Ending α}
    (plan : Plan leads gives manner machine work)
    (untiring : ¬ manner.tires)
    (fits : ∀ link, leads link → link.moment.Fits)
    (keeps : ∀ link, leads link → ∀ later, (link.back later).arena = later.arena)
    (each : ∀ link, leads link →
      (StaysLoopless fun bound => (Run.within bound).outcome link.moment) →
        Finishes fun bound => (Run.within bound).outcome link.moment)
    (loopless : StaysLoopless fun bound => work (Run.within bound)) :
    Finishes fun bound => work (Run.within bound) := by
  induction plan with
  | ends _ allows =>
      exact ⟨_, 0, fun later ended => untiring (allows.tires later ended), fun _ _ => rfl⟩
  | @begins machine work link next led opens _ back given goes inductionHypothesis =>
      obtain ⟨first, without⟩ := loopless
      have becomes (bound : Nat) (link : Link) (led : leads link) := (fits link led).becomes bound
      obtain ⟨last, least, concludes, ends⟩ := each link led ⟨first, fun bound order =>
        (without bound order).of_le (opens.arena_le (becomes bound) led (keeps link led) goes)⟩
      dsimp only at ends
      cases last with
      | error interrupt later =>
          refine ⟨.error (interrupt.told link.tell) (link.back later), least, fun other ended => ?_,
            fun bound order => ?_⟩
          · cases interrupt with
            | fault => cases ended
            | exhausted => exact concludes later rfl
          · dsimp only
            rw [opens, ends bound order]
            rfl
      | ok answer later =>
          have goesOn (bound : Nat) (order : least ≤ bound) :
              work (Run.within bound) = next answer later (Run.within bound) := by
            rw [opens, ends bound order]
            rfl
          have reached := becomes least link led
          rw [ends least (Nat.le_refl least)] at reached
          obtain ⟨last, further, concludes, after⟩ := inductionHypothesis answer later reached
            ⟨max first least, fun bound order => by
              dsimp only
              rw [← goesOn bound (by omega)]
              exact without bound (by omega)⟩
          exact ⟨last, max least further, concludes, fun bound order =>
            (goesOn bound (by omega)).trans (after bound (by omega))⟩

/-- Without loops everything finishes that may be begun. -/
theorem Moment.Fits.finishes
    {moment : Moment}
    (fits : moment.Fits)
    (loopless : StaysLoopless fun bound => (Run.within bound).outcome moment) :
    Finishes fun bound => (Run.within bound).outcome moment := by
  obtain ⟨first, without⟩ := loopless
  dsimp only at without
  have untiring : ¬ moment.Loops := by
    rintro ⟨id, node, -, found, kind⟩
    obtain ⟨index, rfl, present⟩ := Tree.Arena.exists_of_node? found
    have stays := (without first (Nat.le_refl first)).of_le (fits.becomes first).isLater.arena
    exact stays node (Array.mem_of_getElem? present) kind
  have plan := fits.plan Steps.rounds fun loops => absurd loops untiring
  obtain ⟨last, least, concludes, ends⟩ := plan.finishes untiring (fun _ leads => leads.fits)
    (fun _ leads => leads.back_arena) (fun _ leads stays => leads.fits.finishes stays)
    ⟨first, fun bound order => by
      have stays := without (bound + 1) (Nat.le_succ_of_le order)
      rwa [Run.outcome_within_succ] at stays⟩
  refine ⟨last, least + 1, concludes, fun bound order => ?_⟩
  obtain ⟨bound, rfl⟩ := Nat.exists_eq_add_one.mpr (Nat.zero_lt_of_lt order)
  exact (Run.outcome_within_succ bound moment).trans (ends bound (Nat.le_of_succ_le_succ order))
termination_by moment.rank
decreasing_by exact leads.rank_lt

/-! ## Programs -/

theorem Run.concludes_leave
    {ending : Ending Flow}
    (concludes : Concludes ending)
    (scope : Scope)
    (base : Nat) :
    Concludes (leave scope base ending) := by
  intro later ended
  cases ending with
  | ok flow last => exact Uncounted.flush.tireless _ _ ended
  | error interrupt last =>
      cases interrupt with
      | fault => cases ended
      | exhausted => exact concludes last rfl

/-- Programs come to an end if there are no loops, in any state of a session and whatever the
limit on calls is. If no loop is ever among the nodes, be it read in the program, in an
earlier one or in a file that is included, then the program ends in the same way within all
bounds from some bound on, and does not use them up. The texts that it writes do not depend
on how many levels are allowed for arrays in arrays. -/
theorem Session.loopless_programs_end
    {session : Session}
    (reachable : session.Reachable)
    (limit : Nat)
    (source : String)
    (loopless : ∀ bound, (machineAfter
      (Run.programWith (Run.within bound) source (session.limited limit).machine)).arena.Loopless) :
    (∃ ending least, Concludes ending ∧ ∀ bound, least ≤ bound →
      Run.programWith (Run.within bound) source (session.limited limit).machine = ending) ∧
    ∀ (store : Store) value levels, store.arrays.size < levels →
      store.textWithin levels [] value = store.text value := by
  refine ⟨?_, fun store value levels enough => Store.textWithin_eq_text enough value⟩
  generalize isMachine : (session.limited limit).machine = machine at loopless ⊢
  have standard : machine.Standard := isMachine ▸ reachable.standard_limited limit
  have stays : StaysLoopless fun bound => (Run.within bound).outcome (machine.rootOf source) := by
    refine ⟨0, fun bound _ => ?_⟩
    have left := loopless bound
    rwa [Run.programWith_eq, Run.machineAfter_leave] at left
  obtain ⟨last, least, concludes, ends⟩ := (standard.fits_rootOf source).finishes stays
  refine ⟨Run.leave machine.scope machine.base last, least, Run.concludes_leave concludes _ _,
    fun bound order => ?_⟩
  rw [Run.programWith_eq]
  exact congrArg (Run.leave machine.scope machine.base) (ends bound order)

/-- Two functions that call each other are called as often as there is room for, and an array
that holds itself is written. -/
theorem Session.loopless_programs_end_of_recursion :
    let session := ofSettings .standard (.ofFiles ⟨[]⟩ [])
    let source :=
      "let a = []; push(a, a); fn f() \x7b g(); \x7d fn g() \x7b echo a; f(); \x7d f();"
    let program (bound : Nat) :=
      Run.programWith (Run.within bound) source (session.limited 4).machine
    session.Reachable ∧ (∀ bound, (machineAfter (program bound)).arena.Loopless) ∧
      (machineAfter (program 16)).host.output = "[[...]]\n[[...]]\n" ∧
      ∃ ending least, Concludes ending ∧ ∀ bound, least ≤ bound → program bound = ending := by
  intro session source program
  have reachable : session.Reachable := .new _ _
  obtain ⟨isFault, isLoopless, written⟩ : (program 16 matches .error (.fault _) _) = true ∧
      (machineAfter (program 16)).arena.Loopless ∧
      (machineAfter (program 16)).host.output = "[[...]]\n[[...]]\n" := by
    decide +kernel
  have concludes : Concludes (program 16) := by
    intro later ended
    rw [ended] at isFault
    cases isFault
  have loopless : ∀ bound, (machineAfter (program bound)).arena.Loopless := by
    intro bound
    obtain few | many := Nat.lt_or_ge bound 16
    · have each : ∀ bound < 16, (machineAfter (program bound)).arena.Loopless := by decide +kernel
      exact each bound few
    · have same : program bound = program 16 :=
        (reachable.standard_limited 4).programWith_of_le source many concludes
      rwa [same]
  exact ⟨reachable, loopless, written,
    (loopless_programs_end reachable 4 source loopless).1⟩

end Scripting
