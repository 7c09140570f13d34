import Scripting.Proofs.Reading.Grown
import Scripting.Proofs.Reading.Spellings
import Scripting.Proofs.Sessions.Joined

/-!
# One program in two layouts

Two sources can have the same tokens and differ only in what stands between them.  They
are read as the same tree, with the same faults, but for places, and they are run to the
same end: places are carried along by tokens, nodes and faults, but nothing depends on
them, except the texts of faults, which quote them.

Main statement: `Session.run_relaid`.
-/

namespace Scripting

open Token (Span)

/-! ## Reading -/

/-- The tokens without their places. -/
def Token.Sequence.unplaced (tokens : Token.Sequence) : Token.Sequence :=
  tokens.placed fun _ => .nowhere

/-- Sequences of tokens that differ only in their places are the same without them. -/
theorem Token.Sequence.unplaced_eq
    {tokens others : Token.Sequence}
    (same : others.toList.map Token.unplaced = tokens.toList.map Token.unplaced) :
    others.unplaced = tokens.unplaced := by
  simp only [Token.Sequence.toList, List.map_append] at same
  obtain ⟨body, ending⟩ := List.append_inj' same rfl
  have endingSame : others.ending.unplaced = tokens.ending.unplaced :=
    List.head_eq_of_cons_eq ending
  exact congrArg₂ Token.Sequence.mk body endingSame

namespace Tree

/-- The arena without the places of its tokens. -/
def Arena.unplaced (arena : Arena) : Arena :=
  arena.placed fun _ => .nowhere

/-- The program without its places. -/
def Program.unplaced (program : Program) : Program :=
  program.placed fun _ => .nowhere

/-- Tokens that differ only in their places are read as programs that do. -/
theorem readProgram_unplaced
    {tokens others : Token.Sequence}
    (same : others.unplaced = tokens.unplaced)
    (arena : Arena) :
    (readProgram others arena).unplaced = (readProgram tokens arena).unplaced := by
  have first := readProgram_placed (fun _ => .nowhere) tokens arena
  have second := readProgram_placed (fun _ => .nowhere) others arena
  unfold Program.unplaced
  rw [← first, ← second]
  exact congrArg (readProgram · _) same

/-- A token may stand for any that differs from it only in its place. -/
def Exchange.ofPlaces : Exchange where
  admits _ token twin := twin.unplaced = token.unplaced
  kind_eq same := (Token.unplaced_eq_iff.mp same).1
  lexeme_eq same := (Token.unplaced_eq_iff.mp same).2.1

/-- At each index, arenas that differ only in places have nodes that do. -/
theorem Arena.exists_twin
    {left right : Arena}
    (same : right.unplaced = left.unplaced)
    {id : NodeId}
    {kind : NodeKind}
    {token : Token}
    {constant : Option Constant}
    {children : List (Option NodeId)}
    (found : left.get? id = some ⟨kind, token, constant, children⟩) :
    ∃ twin, right.get? id = some ⟨kind, twin, constant, children⟩ ∧
      twin.unplaced = token.unplaced := by
  have twins : (right.get? id).map (Node.placed fun _ => .nowhere) =
      some ((Node.mk kind token constant children).placed fun _ => .nowhere) := by
    rw [← Arena.get?_placed]
    change right.unplaced.get? id = _
    rw [same]
    change (left.placed fun _ => .nowhere).get? id = _
    rw [Arena.get?_placed, found]
    rfl
  obtain ⟨⟨kind, twin, constant, children⟩, twinFound, twinSame⟩ := Option.map_eq_some_iff.mp twins
  obtain ⟨rfl, token, rfl, rfl⟩ := Node.mk.inj twinSame
  exact ⟨twin, twinFound, token⟩

mutual

/-- A tree that stands in one arena is alike the one in another arena that differs only
in places. -/
theorem alike_of_unplaced
    {left right : Arena}
    (same : right.unplaced = left.unplaced) :
    ∀ {tree : Rose} {id : Option NodeId}, tree.StandsAt left id →
      Alike .ofPlaces ⟨left, right⟩ id id
  | .absent, id, stands => by
      rw [Rose.standsAt_absent] at stands
      rw [stands]
      exact .absent
  | .node kind token constant children, id, stands => by
      obtain ⟨index, ids, rfl, found, below⟩ := (Rose.standsAt_node ..).mp stands
      obtain ⟨twin, twinFound, twinSame⟩ := Arena.exists_twin same found
      exact .node found twinFound twinSame (allAlike_of_unplaced same below)

/-- The same of all of a list. -/
theorem allAlike_of_unplaced
    {left right : Arena}
    (same : right.unplaced = left.unplaced) :
    ∀ {trees : List Rose} {ids : List (Option NodeId)}, Rose.AllStandAt left trees ids →
      AllAlike .ofPlaces ⟨left, right⟩ ids ids
  | [], ids, stand => by
      rw [Rose.allStandAt_nil] at stand
      rw [stand]
      exact .nil
  | tree :: trees, ids, stand => by
      obtain ⟨id, rest, rfl, atId, below⟩ := (Rose.allStandAt_cons ..).mp stand
      exact .cons (alike_of_unplaced same atId) (allAlike_of_unplaced same below)

end

end Tree

/-! ## Faults -/

mutual

/-- The faults have matching causes and are blamed on the same text, though perhaps at
different places. Where the places are the same, the lines of the source are. -/
inductive Fault.Matches : Fault → Fault → Prop
  | intro {fault twin : Fault} :
      Cause.Matches fault.cause twin.cause →
      twin.lexeme = fault.lexeme →
      twin.span.isSome = fault.span.isSome →
      (fault.span = twin.span → fault.sourceLine = twin.sourceLine) →
      Fault.Matches fault twin

/-- The causes are the same, except that they may quote matching faults. -/
inductive Cause.Matches : Cause → Cause → Prop
  | same (cause : Cause) : Cause.Matches cause cause
  | quoting (before : String) {fault twin : Fault} :
      Fault.Matches fault twin →
      Cause.Matches (.refusal (before ++ fault.text)) (.refusal (before ++ twin.text))

end

/-- The runs both came to their ends, or ended with matching faults, whose lines of the
sources are not compared, or both used up the bound on their work. -/
inductive Report.Matches : Report → Report → Prop
  | clean : Report.Matches (.done []) (.done [])
  | fault {fault twin : Fault} :
      fault.bare.Matches twin.bare → Report.Matches (.done [fault]) (.done [twin])
  | exhausted : Report.Matches .exhausted .exhausted

section Alike

variable {exchange : Tree.Exchange} {arenas : Tree.Arenas}

mutual

/-- Alike faults match. -/
theorem Fault.Alike.matches :
    ∀ {fault twin : Fault}, fault.Alike exchange arenas twin → fault.Matches twin
  | _, _, .placed tokens cause lines =>
      .intro cause.matches (by simp only [Fault.atToken, tokens.kind_eq, tokens.lexeme_eq]) rfl
        fun same => lines (Option.some.inj same)
  | _, _, .unplaced cause => .intro cause.matches rfl rfl fun _ => rfl

/-- Alike causes match. -/
theorem Cause.Alike.matches :
    ∀ {cause twin : Cause}, cause.Alike exchange arenas twin → cause.Matches twin
  | _, _, .same cause => .same cause
  | _, _, .quoting text fault => .quoting text fault.matches

end

/-- Alike reports match. -/
theorem Report.Alike.matches
    {report twin : Report}
    (alike : report.Alike exchange arenas twin) :
    report.Matches twin := by
  cases alike with
  | clean => exact .clean
  | fault faults => exact .fault faults.matches
  | exhausted => exact .exhausted

end Alike

/-- What a fault says without its place and the line of the source there. -/
def Fault.content (fault : Fault) : Cause × Option String :=
  (fault.cause, fault.lexeme)

/-- The faults of a source that is scanned without any are those of its program. -/
theorem contents_of_scanned
    {source : String}
    (clean : (Token.Scan.ofSource source).faults = #[])
    (arena : Tree.Arena) :
    (faultsOf source).map Fault.content =
      (Tree.readProgram (tokensOf source) arena).unplaced.faults.map Fault.content := by
  have withSource : Fault.content ∘ (·.withSource source) = Fault.content := by
    funext fault
    simp [Fault.content]
  have placed : Fault.content ∘ Fault.placed (fun _ => .nowhere) = Fault.content := rfl
  have faults : faultsOf source =
      (Tree.readProgram (tokensOf source) arena).faults.map (·.withSource source) := by
    simp only [faultsOf, clean, Array.toList_empty, List.nil_append,
      ← Tree.readProgram_faults _ arena]
    rfl
  rw [faults, Tree.Program.unplaced, Tree.Program.placed, List.map_map, List.map_map, withSource,
    placed]

/-! ## Running -/

/-- Two sources with the same tokens but for their places are read by a machine that is
alike itself as alike trees. -/
theorem alike_readSource
    {machine : Machine}
    (alike : machine.Alike .unchanged machine)
    {source other : String}
    (same : (tokensOf other).unplaced = (tokensOf source).unplaced) :
    let read := machine.readSource source
    let otherRead := machine.readSource other
    read.2.Alike .ofPlaces otherRead.2 ∧
      Tree.Alike .ofPlaces (read.2.together otherRead.2) (some read.1.1) (some otherRead.1.1) := by
  intro read otherRead
  have programs := Tree.readProgram_unplaced same machine.arena
  obtain ⟨root, arenas, -⟩ := Tree.Program.mk.inj programs
  change otherRead.1.1 = read.1.1 at root
  change otherRead.2.arena.unplaced = read.2.arena.unplaced at arenas
  have closed : (tokensOf source).ending.kind = .endOfInput := rfl
  obtain ⟨trees, stands⟩ := Tree.exists_standsAt_readProgram closed machine.arena
  refine ⟨?_, ?_⟩
  · exact alike.change (Tree.le_readProgram _ _) (Tree.le_readProgram _ _)
      (fun _ same => congrArg Token.unplaced same) fun _ _ _ => rfl
  · rw [root]
    exact Tree.alike_of_unplaced arenas stands

namespace Session

/-- Two sources without lexical faults whose tokens have the same kinds, texts and values
are read by a session as trees that differ only in places, and with as many faults, which
have the same causes and blame the same texts. If there are none, both runs write the
same and come to matching ends, and they leave machines that differ only in the places of
tokens. -/
theorem run_relaid
    {session : Session}
    (reachable : session.Reachable)
    {source other : String}
    (clean : (Token.Scan.ofSource source).faults = #[])
    (otherClean : (Token.Scan.ofSource other).faults = #[])
    (sameTokens :
      (tokensOf other).toList.map Token.unplaced = (tokensOf source).toList.map Token.unplaced) :
    let arena := session.machine.arena
    (Tree.readProgram (tokensOf other) arena).unplaced =
        (Tree.readProgram (tokensOf source) arena).unplaced ∧
      (faultsOf other).map Fault.content = (faultsOf source).map Fault.content ∧
      (faultsOf source = [] →
        (session.run source).1.Matches (session.run other).1 ∧
          (session.run other).2.output = (session.run source).2.output ∧
          (session.run source).2.machine.Alike .ofPlaces (session.run other).2.machine) := by
  intro arena
  have same := Token.Sequence.unplaced_eq sameTokens
  have programs := Tree.readProgram_unplaced same arena
  have contents : (faultsOf other).map Fault.content = (faultsOf source).map Fault.content := by
    rw [contents_of_scanned clean arena, contents_of_scanned otherClean arena, programs]
  refine ⟨programs, contents, fun faultless => ?_⟩
  have otherFaultless : faultsOf other = [] := by
    rw [faultless] at contents
    exact List.map_eq_nil_iff.mp contents
  obtain ⟨machines, trees⟩ := alike_readSource reachable.alike same
  have ends : EndAlike .ofPlaces _ Same
      (Run.interpret (session.machine.readSource source).1.1 (session.machine.readSource source).2)
      (Run.interpret (session.machine.readSource other).1.1 (session.machine.readSource other).2) :=
    agrees_interpret trees _ _ machines (Tree.Arenas.le_refl _)
  obtain ⟨reports, later⟩ := ends.reports source other
  obtain ⟨report, machine⟩ := session.run_of_faultless faultless
  obtain ⟨otherReport, otherMachine⟩ := session.run_of_faultless otherFaultless
  rw [← report, ← otherReport, ← machine, ← otherMachine] at reports
  rw [← machine, ← otherMachine] at later
  exact ⟨reports.matches, later.field_eq (fun machine => machine.host.output) fun _ _ _ => rfl,
    later⟩

/-- A comment and other lines, around a variable that is not there. -/
theorem run_relaid_of_comment :
    let session := ofSettings .standard (.ofFiles ⟨[]⟩ [])
    session.Reachable ∧
      (session.run "echo a;").1.Matches (session.run "\n echo // text\n\ta ;").1 := by
  have start := Reachable.new .standard (.ofFiles ⟨[]⟩ [])
  have placeless {tokens : List Token} (noLiteral : ∀ token ∈ tokens, token.literal = none) :
      tokens.map Token.unplaced = (tokens.map fun token => (token.kind, token.lexeme)).map
        fun words => Token.placeless words.1 words.2 := by
    rw [List.map_map]
    refine List.map_congr_left fun token member => ?_
    simp [Token.unplaced, Token.placeless, noLiteral token member]
  have same : (tokensOf "\n echo // text\n\ta ;").toList.map Token.unplaced =
      (tokensOf "echo a;").toList.map Token.unplaced := by
    rw [placeless (by decide +kernel), placeless (by decide +kernel)]
    exact congrArg _ (by decide +kernel)
  have relaid := run_relaid start (by decide +kernel) (by decide +kernel) same
  exact ⟨start, (relaid.2.2 (by decide +kernel)).1⟩

end Session
end Scripting
