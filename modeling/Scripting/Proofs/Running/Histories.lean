import Scripting.Proofs.Running.Leading

/-!
# The histories of runs

A run, whatever is begun in its course, comes to points that can be listed one after the
other (`Run.exists_unfolds`), and in each of them every errand that is under way is what the
errand around it led to (`Point.Linked`).  The run of a program is that of its root.

Main statements: `Run.exists_unfolds`, `Machine.Standard.exists_history`,
`Machine.Standard.linked_history`.
-/

namespace Scripting

/-! ## What an errand comes to -/

/-- The errand that is under way begins these errands, each of which it leads to, after
which it goes on, and whose values it passes on. -/
structure Activity.Starts (activity : Activity) (links : List Link) : Prop where
  begins : activity.Begins links
  leads : ∀ link ∈ links, activity.toMoment.Leads link
  onward : ∀ link ∈ links,
    (link.back (machineAfter ((Run.within (activity.bound - 1)).outcome link.moment))).Becomes
      (machineAfter activity.outcome)
  passes : ∀ link ∈ links,
    link.PassesOn (Run.within (activity.bound - 1)) activity.errand.Gives links activity.outcome

/-- The errand that is under way begins these errands, and what it does besides is in its
manner. -/
structure Activity.Proceeds (activity : Activity) (links : List Link) : Prop extends
    activity.Starts links where
  along : activity.manner.Along (Run.within (activity.bound - 1)) activity.machine links
    activity.outcome

theorem Moment.Fits.exists_proceeds
    {moment : Moment}
    (fits : moment.Fits)
    (bound : Nat) :
    ∃ links, Activity.Proceeds ⟨moment, bound + 1⟩ links := by
  obtain ⟨-, links, begins, along, each⟩ :=
    (fits.plan (fun _ => bound) fun _ => ⟨bound, rfl⟩).exists_begins (Run.within bound)
      fun link leads => leads.fits.becomes bound
  rw [← Run.outcome_within_succ] at along each
  exact ⟨links, ⟨begins, fun link member => (each link member).1,
    fun link member => (each link member).2.1, fun link member => (each link member).2.2⟩, along⟩

/-- What holds of an errand for which no bound is left, and of every other one when it holds
of what it begins, holds of all that may be begun, together with the points to which they
come. -/
theorem Run.exists_unfolds
    {motive : (bound : Nat) → Point → Moment → List Point → Prop}
    (zero : ∀ around moment, motive 0 around moment [⟨moment, 0⟩ :: around])
    (succ : ∀ bound around moment links part, Activity.Proceeds ⟨moment, bound + 1⟩ links →
      (∀ link ∈ links, motive bound (⟨moment, bound + 1⟩ :: around) link.moment (part link)) →
      motive (bound + 1) around moment ((⟨moment, bound + 1⟩ :: around) :: links.flatMap part))
    (bound : Nat)
    (around : Point)
    {moment : Moment}
    (fits : moment.Fits) :
    ∃ points, Unfolds bound around moment points ∧ motive bound around moment points := by
  induction bound generalizing around moment with
  | zero => exact ⟨_, rfl, zero around moment⟩
  | succ bound inductionHypothesis =>
      obtain ⟨links, proceeds⟩ := fits.exists_proceeds bound
      let here : Point := ⟨moment, bound + 1⟩ :: around
      have each : ∀ link ∈ links, ∃ part, Unfolds bound here link.moment part ∧
          motive bound here link.moment part :=
        fun link member => inductionHypothesis here (proceeds.leads link member).fits
      choose! part unfold hold using each
      exact ⟨_, ⟨links, part, proceeds.begins, unfold, rfl⟩,
        succ bound around moment links part proceeds hold⟩

/-! ## What lies around an errand -/

/-- Every errand that is under way is led to by the one around it, and the outermost one is
the given one. -/
inductive Point.Linked (first : Moment) : Point → Prop
  | first {activity : Activity} : activity.toMoment = first → Linked first [activity]
  | inner {inner outer : Activity} {around : Point} {links : List Link} {link : Link} :
      Linked first (outer :: around) → outer.bound = inner.bound + 1 → outer.Starts links →
      link ∈ links → link.moment = inner.toMoment → Linked first (inner :: outer :: around)

/-- All points to which an errand comes are linked. -/
theorem Run.Unfolds.linked
    {first moment : Moment}
    {bound : Nat}
    {around : Point}
    {points : List Point}
    (unfolds : Unfolds bound around moment points)
    (fits : moment.Fits)
    (linked : Point.Linked first (⟨moment, bound⟩ :: around)) :
    ∀ point ∈ points, point.Linked first := by
  induction bound generalizing around moment points with
  | zero =>
      subst unfolds
      exact List.forall_mem_singleton.mpr linked
  | succ bound inductionHypothesis =>
      obtain ⟨links, part, begins, unfold, rfl⟩ := unfolds
      obtain ⟨others, starts, -⟩ := fits.exists_proceeds bound
      refine List.forall_mem_cons.mpr ⟨linked, fun point member => ?_⟩
      obtain ⟨link, isLink, inside⟩ := List.mem_flatMap.mp member
      obtain ⟨other, isOther, same⟩ := begins.exists_same_moment starts.begins isLink
      have isFit := (starts.leads other isOther).fits
      rw [same] at isFit
      exact inductionHypothesis (unfold link isLink) isFit
        (.inner linked rfl starts isOther same) point inside

/-! ## Programs -/

/-- The root of a program on the machine, at the top level. -/
def Machine.rootAt (machine : Machine) (root : Tree.NodeId) : Moment :=
  ⟨.execute (some root), { machine with scope := Scope.global, base := machine.depth }⟩

/-- The root of a program that is read on the machine, and the machine on which it is
executed. -/
def Machine.rootOf (machine : Machine) (source : String) : Moment :=
  ⟨.execute (some (machine.readSource source).1.1), machine.starting source⟩

/-- To interpret a program is to execute its root. -/
theorem Run.begins_interpretWith (steps : Steps) (root : Tree.NodeId) (machine : Machine) :
    steps.Begins (fun steps => interpretWith steps root machine)
      [⟨machine.rootAt root, id,
        fun later => { later with scope := machine.scope, base := machine.base }⟩] := by
  let link : Link := ⟨machine.rootAt root, id,
    fun later => { later with scope := machine.scope, base := machine.base }⟩
  have opens : link.Opens (fun steps => interpretWith steps root machine)
      fun flow later _ => leave machine.scope machine.base (.ok flow later) := by
    intro steps
    refine (interpretWith_eq steps root machine).trans ?_
    change leave _ _ (steps.outcome link.moment) = link.resume _ (steps.outcome link.moment)
    cases steps.outcome link.moment with
    | ok flow later => rfl
    | error interrupt later => cases interrupt <;> rfl
  cases ends : steps.outcome link.moment with
  | ok flow later => exact .answered opens ends (.nothing _)
  | error interrupt later => exact .interrupted opens ends

/-- To run a program is to execute its root. -/
theorem Run.begins_programWith (steps : Steps) (source : String) (machine : Machine) :
    steps.Begins (fun steps => programWith steps source machine)
      [⟨machine.rootOf source, id,
        fun later => { later with scope := machine.scope, base := machine.base }⟩] :=
  begins_interpretWith steps (machine.readSource source).1.1 (machine.readSource source).2

theorem Run.history_of_unfolds
    {bound : Nat}
    {machine : Machine}
    {source : String}
    {points : List Point}
    (unfolds : Unfolds bound [] (machine.rootOf source) points) :
    History bound (programWith · source) machine points :=
  ⟨_, fun _ => points, begins_programWith _ source machine, List.forall_mem_singleton.mpr unfolds,
    by simp⟩

theorem Machine.Standard.fits_rootAt
    {machine : Machine}
    (standard : machine.Standard)
    {root : Tree.NodeId}
    (isRoot : machine.arena.IsA .program root) :
    (machine.rootAt root).Fits :=
  ⟨standard.of_same rfl rfl, .inr isRoot⟩

theorem Machine.Standard.fits_rootOf
    {machine : Machine}
    (standard : machine.Standard)
    (source : String) :
    (machine.rootOf source).Fits :=
  ⟨Regime.standard.enter standard (.program source), Regime.standard.root source standard⟩

namespace Machine.Standard

variable {machine : Machine} (standard : machine.Standard)

include standard

/-- A program is run through some points. -/
theorem exists_history (source : String) (bound : Nat) :
    ∃ points, Run.History bound (Run.programWith · source) machine points := by
  obtain ⟨points, unfolds, -⟩ := Run.exists_unfolds (motive := fun _ _ _ _ => True)
    (fun _ _ => trivial) (fun _ _ _ _ _ _ _ => trivial) bound [] (standard.fits_rootOf source)
  exact ⟨points, Run.history_of_unfolds unfolds⟩

/-- All points through which a program is run are linked. -/
theorem linked_history
    {source : String}
    {bound : Nat}
    {points : List Point}
    (history : Run.History bound (Run.programWith · source) machine points) :
    ∀ point ∈ points, point.Linked (machine.rootOf source) := by
  obtain ⟨links, part, begins, unfold, rfl⟩ := history
  intro point member
  obtain ⟨link, isLink, inside⟩ := List.mem_flatMap.mp member
  obtain ⟨root, isRoot, same⟩ :=
    begins.exists_same_moment (Run.begins_programWith _ source machine) isLink
  obtain rfl := List.mem_singleton.mp isRoot
  exact (unfold link isLink).linked (same ▸ standard.fits_rootOf source) (.first same.symm) point
    inside

end Machine.Standard
end Scripting
