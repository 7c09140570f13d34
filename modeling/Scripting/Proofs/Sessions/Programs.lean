import Scripting.Proofs.Running.Declared
import Scripting.Proofs.Sessions.Kept

/-!
# The programs of a session

All inputs of a session, and all files that they include, are read into one arena.  It is
well-formed, also when some of them are not, and however long the session goes on: whatever
is evaluated or executed is of the sort that is asked for, and the body of every function
is the block that it was when the function was declared.

Main statement: `Session.programs_keep_shape`.
-/

namespace Scripting
namespace Session

/-- A new session has read nothing, and its functions are built in. -/
theorem parsed_ofSettings :
    ∀ (settings : Settings) (host : Host), (ofSettings settings host).machine.Parsed := by
  refine holds_ofSettings Machine.Parsed (fun host => ⟨.empty, fun _ _ stored => ?_⟩)
    (fun machine builtin parsed => ⟨parsed.isRead, fun place declared stored => ?_⟩)
    fun _ _ _ parsed => ⟨parsed.isRead, parsed.functions⟩
  · cases stored
  · exact parsed.functions place declared (callable?_of_addBuiltin stored)

/-- In all sessions the functions are declared by nodes that have been read. -/
theorem Reachable.parsed
    {session : Session}
    (reachable : session.Reachable) :
    session.machine.Parsed := by
  -- Every machine has grown out of one that has read nothing.
  let start : Machine := .bare (.ofFiles ⟨[]⟩ [])
  have holds : (Regime.parsed start).holds session.machine :=
    Reachable.holds (Regime.parsed start) (fun settings host =>
      ⟨⟨List.nil_prefix, List.nil_prefix⟩, parsed_ofSettings settings host⟩) reachable
  exact holds.2

/-- Programs keep their shape. However programs are read into an arena, it is well-formed, and
its nodes stay what they are. In the course of a session, everything that is evaluated,
executed or called is of the sort that is asked for, and the bodies of the functions stay the
blocks that they are. -/
theorem programs_keep_shape :
    (∀ arena : Tree.Arena, arena.IsRead → arena.WellFormed ∧
      ∀ tokens id node, arena.get? id = some node →
        (Tree.readProgram tokens arena).arena.get? id = some node) ∧
    ∀ session : Session, session.Reachable → session.machine.Parsed ∧
      ∀ sources, session.machine.KeepsBodies (session.runAll sources).machine ∧
        ∀ source bound,
          Run.Throughout
            (fun errand machine => machine.Parsed ∧ session.machine.KeepsBodies machine ∧
              errand.HasShape machine ∧ ¬ errand.FallsBack machine)
            bound (Run.programWith · source) (session.runAll sources).machine := by
  refine ⟨fun arena isRead => ⟨isRead.wellFormed, fun tokens id node found => ?_⟩,
    fun session reachable => ⟨reachable.parsed, fun sources => ?_⟩⟩
  · exact Tree.Arena.get?_of_le (Tree.le_readProgram tokens arena) found
  · have start : (Regime.parsed session.machine).holds session.machine :=
      ⟨.refl _, reachable.parsed⟩
    have later := holds_runAll _ start sources
    refine ⟨reachable.parsed.keepsBodies later.1, fun source bound => ?_⟩
    apply Regime.throughout_program _ bound source later
    rintro errand machine ⟨grows, parsed⟩ fits
    have shape := parsed.hasShape fits
    exact ⟨parsed, reachable.parsed.keepsBodies grows, shape, shape.not_fallsBack⟩

/-- A function of one input is called by a later one, after an input that is rejected. -/
theorem programs_keep_shape_of_function :
    let start := ofSettings .standard (.ofFiles ⟨[]⟩ [])
    let declared := start.run "fn f(a) \x7b return a; \x7d"
    let later := declared.2.runAll ["let b = ; fn g(", "f(null);"]
    declared.2.Reachable ∧ declared.1.isClean = true ∧
      declared.2.machine.store.callables.size = Builtin.standard.length + 1 ∧
      declared.2.machine.arena.WellFormed ∧
      declared.2.machine.arena.size < later.machine.arena.size ∧
      declared.2.machine.KeepsBodies later.machine := by
  intro start declared later
  have reachable : declared.2.Reachable := .run _ (.new _ _)
  obtain ⟨arenas, sessions⟩ := programs_keep_shape
  obtain ⟨parsed, keeps⟩ := sessions declared.2 reachable
  exact ⟨reachable, by decide +kernel, by decide +kernel, (arenas _ parsed.isRead).1,
    by decide +kernel, (keeps _).1⟩

end Session
end Scripting
