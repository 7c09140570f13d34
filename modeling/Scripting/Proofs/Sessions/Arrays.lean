import Scripting.Proofs.Running.Growth
import Scripting.Proofs.Sessions.Rejected
import Scripting.Proofs.Sessions.Standard

/-!
# The arrays of a session

An array is made with some elements, and from then on it is changed by the function that
adds an element to it and by nothing else, whatever refers to it: at a later point of a
session, be it of a later input, it has the elements of an earlier point and those that
have been added in between, in their order.  So an element that has been found at some
position is found there for ever after.

Main statement: `Session.arrays_grow_by_pushes`.
-/

namespace Scripting

/-- What is found at a position of an array of the one store is found there in the other. -/
def Store.KeepsItems (store later : Store) : Prop :=
  ∀ (machine after : Machine), machine.store = store → after.store = later →
    ∀ bracket id position item,
      Steps.elementAt bracket (.array id) position machine = .ok item machine →
        Steps.elementAt bracket (.array id) position after = .ok item after

theorem Store.Grows.keepsItems
    {store later : Store}
    {added : ArrayId → List Value}
    (grows : store.Grows added later) :
    store.KeepsItems later := by
  rintro machine after rfl rfl bracket id position item read
  obtain ⟨number, index, rfl, whole, found⟩ := Steps.elementAt_eq_ok_iff.mp read
  have present : id < machine.store.arrays.size := by
    by_contra absent
    have empty : machine.store.elements id = #[] := by
      rw [Store.elements, Array.getElem?_eq_none (Nat.le_of_not_lt absent)]
      rfl
    simp [empty] at found
  obtain ⟨-, elements⟩ := grows id present
  refine Steps.elementAt_eq_ok_iff.mpr ⟨number, index, rfl, whole, ?_⟩
  rw [← Array.getElem?_toList] at found ⊢
  obtain ⟨inside, -⟩ := List.getElem?_eq_some_iff.mp found
  rw [elements, List.getElem?_append_left inside, found]

/-- The points of a program that is run account for all elements. -/
theorem Machine.Standard.exists_growsThrough
    {machine : Machine}
    (standard : machine.Standard)
    (source : String)
    (bound : Nat) :
    ∃ points, Run.History bound (Run.programWith · source) machine points ∧
      machine.store.GrowsThrough points
        (machineAfter (Run.programWith (Run.within bound) source machine)).store := by
  obtain ⟨points, unfolds, through⟩ := (standard.fits_rootOf source).exists_growsThrough bound []
  refine ⟨points, Run.history_of_unfolds unfolds, ?_⟩
  rw [Run.programWith_eq, Run.machineAfter_leave]
  exact through

namespace Session

/-- The points to which a session comes with some inputs, one input after the other. What
is rejected is not executed. -/
inductive Passes : Session → List String → List Point → Prop
  | nothing (session : Session) : Passes session [] []
  | rejected {session : Session} {source : String} {sources : List String}
      {points : List Point} :
      accepts source = false → Passes (session.run source).2 sources points →
        Passes session (source :: sources) points
  | executed {session : Session} {source : String} {sources : List String}
      {first points : List Point} :
      accepts source = true →
      Run.History Run.ample (Run.programWith · source) session.machine first →
      Passes (session.run source).2 sources points →
        Passes session (source :: sources) (first ++ points)

theorem Reachable.exists_growsThrough
    {session : Session}
    (reachable : session.Reachable)
    (sources : List String) :
    ∃ points, session.Passes sources points ∧
      session.machine.store.GrowsThrough points (session.runAll sources).machine.store := by
  induction sources generalizing session with
  | nil => exact ⟨[], .nothing session, .refl session.machine.store⟩
  | cons source others inductionHypothesis =>
      obtain ⟨points, passes, through⟩ := inductionHypothesis (reachable.run source)
      cases accepted : accepts source with
      | false =>
          obtain ⟨-, -, arena, -, machine⟩ := session.run_of_rejected accepted
          rw [machine] at through
          exact ⟨points, .rejected accepted passes, through⟩
      | true =>
          obtain ⟨first, history, before⟩ :=
            reachable.standard.exists_growsThrough source Run.ample
          have same : (session.run source).2.machine =
              machineAfter (Run.programWith (Run.within Run.ample) source session.machine) :=
            (session.run_of_faultless (List.isEmpty_iff.mp accepted)).2
          rw [same] at through
          exact ⟨first ++ points, .executed accepted history passes, before.append through⟩

/-- Whatever a session is given, from one point to a later one every array grows by what the
calls of the function that adds an element have added to it in between, one element by each,
and by nothing else; and what has been found in it is found again. That is so also from one
input to the next, when inputs are rejected or fail, and when the last one is cut off by a
bound. -/
theorem arrays_grow_by_pushes
    {session : Session}
    (reachable : session.Reachable)
    (sources : List String)
    (last : String)
    (bound : Nat) :
    let ended := session.runAll sources
    let final := machineAfter (Run.programWith (Run.within bound) last ended.machine)
    ∃ points lastPoints,
      session.Passes sources points ∧
      Run.History bound (Run.programWith · last) ended.machine lastPoints ∧
      (∀ before here between there after,
        points ++ lastPoints = before ++ here :: (between ++ there :: after) →
          here.store.Grows (fun id => (here :: between).flatMap (Point.pushed id)) there.store ∧
          here.store.KeepsItems there.store) ∧
      (∀ before here after, points ++ lastPoints = before ++ here :: after →
          here.store.Grows (fun id => (here :: after).flatMap (Point.pushed id)) final.store ∧
          here.store.KeepsItems final.store) := by
  intro ended final
  obtain ⟨points, passes, through⟩ := reachable.exists_growsThrough sources
  obtain ⟨lastPoints, history, lastThrough⟩ :=
    (holds_runAll Regime.standard reachable.standard sources).exists_growsThrough last bound
  have whole : session.machine.store.GrowsThrough (points ++ lastPoints) final.store :=
    through.append lastThrough
  refine ⟨points, lastPoints, passes, history, fun before here between there after same => ?_,
    fun before here after same => ?_⟩
  · rw [same] at whole
    exact ⟨whole.amid, whole.amid.keepsItems⟩
  · rw [same] at whole
    have grows := whole.split.2.grows
    exact ⟨grows, grows.keepsItems⟩

/-- An element is added to an array under another name, and found under its first one. -/
theorem arrays_grow_by_pushes_of_alias :
    let session := ofSettings .standard (.ofFiles ⟨[]⟩ [])
    let ended := session.runAll ["let xs = [\"a\"]; let ys = xs;"]
    let last := "push(ys, \"b\"); echo xs[1];"
    let final := machineAfter (Run.programWith (Run.within 20) last ended.machine)
    session.Reachable ∧ final.host.output = "b\n" ∧
      (final.store.elements 0).size = (ended.machine.store.elements 0).size + 1 ∧
      ∃ points, Run.History 20 (Run.programWith · last) ended.machine points ∧
        ∀ before here after, points = before ++ here :: after →
          here.store.Grows (fun id => (here :: after).flatMap (Point.pushed id)) final.store ∧
          here.store.KeepsItems final.store := by
  intro session ended last final
  have reachable : session.Reachable := .new _ _
  obtain ⟨points, lastPoints, -, history, -, grows⟩ :=
    arrays_grow_by_pushes reachable ["let xs = [\"a\"]; let ys = xs;"] last 20
  refine ⟨reachable, by decide +kernel, by decide +kernel, lastPoints, history,
    fun before here after same => grows (points ++ before) here after ?_⟩
  rw [same, List.append_assoc]

end Session
end Scripting
