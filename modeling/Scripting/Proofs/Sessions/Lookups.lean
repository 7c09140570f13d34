import Scripting.Proofs.Reading.Grown
import Scripting.Proofs.Reading.Slices
import Scripting.Proofs.Running.Supplied
import Scripting.Proofs.Sessions.Standard
import Scripting.Proofs.Syntax.Outlines

/-!
# Lookups in the course of a session

Whatever is run in a session, and whether or not it has faults, nothing is looked up that is
not there: neither a slice of a source, nor a token, nor a node, nor an argument.

Main statement: `Session.looks_up_what_is_there`.
-/

namespace Scripting
namespace Session

/-- What is looked up in the course of a session is there. -/
structure LooksUpWhatIsThere (session : Session) : Prop where
  /-- A source can be read by slices, each of which has its ends in order and between
  characters. This is so for the inputs and for the programs that they include. -/
  slices : ∀ source : String, Token.Scan.ofSource? source = some (Token.Scan.ofSource source)
  /-- While the tokens of a source are read into an arena, the cursor points at one of them,
  and the target of an assignment and the children of an added node are in the arena. -/
  nodes : ∀ (source : String) (arena : Tree.Arena),
    let tokens := (Token.Scan.ofSource source).sequence
    Tree.Inside tokens (Tree.unfailing (Tree.program (levelsFor tokens.body.length)))
      ⟨tokens.body, tokens.ending, arena, #[]⟩
  /-- The outline of an input comes to nodes of the arena only. -/
  outlines : ∀ source : String,
    let read := session.machine.readSource source
    read.2.arena.outline? (some read.1.1) = some (read.2.arena.outline (some read.1.1))
  /-- The run of an input can be followed from point to point. -/
  history : ∀ (source : String) (bound : Nat),
    ∃ points, Run.History bound (Run.programWith · source) session.machine points
  /-- At every point of the run, a built-in function that is called has as many arguments as
  it takes, and what would be done in the place of a missing one makes no difference. -/
  arguments : ∀ (source : String) (bound : Nat) (points : List Point),
    Run.History bound (Run.programWith · source) session.machine points →
      ∀ given arguments machine left around,
        ⟨⟨.call (.builtin given) arguments, machine⟩, left⟩ :: around ∈ points →
          given.Supplied arguments ∧
            ∀ steps missing,
              Builtin.answerFrom steps given.action (Builtin.argumentAt missing arguments) =
                Builtin.answer steps given.action arguments

/-- In every session all lookups succeed: those of slices of the source, of tokens at the
cursor, of nodes in the arena and of arguments of built-in functions. -/
theorem looks_up_what_is_there
    {session : Session}
    (reachable : session.Reachable) :
    session.LooksUpWhatIsThere where
  slices := Token.Scan.ofSource?_eq
  nodes source arena := Tree.inside_program _ _ arena
  outlines source := by
    have formed := reachable.standard.isRead.wellFormed
    exact (Tree.wellFormed_readProgram rfl formed).outline?_eq (Tree.isA_root rfl formed).lt_size
  history source bound := reachable.standard.exists_history source bound
  arguments source bound points history given arguments machine left around member := by
    have linked := reachable.standard.linked_history history _ member
    have supplied := linked.supplied ⟨_, rfl⟩
    exact ⟨supplied, supplied.answerFrom_eq⟩

/-- This is so after an input with a quoted text that is never closed, behind a target that is
no name. -/
theorem looks_up_what_is_there_of_faults :
    let first := (ofSettings .standard (.ofFiles ⟨[]⟩ [])).run "1 = size(2); \"é"
    first.2.Reachable ∧ first.1.isClean = false ∧ first.2.LooksUpWhatIsThere := by
  intro first
  have reachable : first.2.Reachable := .run _ (.new _ _)
  exact ⟨reachable, by decide +kernel, looks_up_what_is_there reachable⟩

end Session
end Scripting
