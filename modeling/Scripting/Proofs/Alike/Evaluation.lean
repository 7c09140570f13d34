import Scripting.Proofs.Alike.Builtins
import Scripting.Proofs.Running.Course

/-!
# Evaluation on alike machines

Every rule of evaluation agrees with itself at alike nodes when the steps do by which
it goes on, and so do, by induction on the bound, the steps within a bound.

Main statement: `agree_within`.
-/

namespace Scripting

open Tree (Arenas Exchange TokensAlike)

variable {exchange : Exchange} {arenas later : Arenas} {steps : Steps}

namespace Steps

theorem agrees_evaluateAll
    (agree : steps.Agree exchange)
    {ids others : List (Option Tree.NodeId)}
    (alike : Tree.AllAlike exchange arenas ids others)
    (values : Array Value) :
    Agrees exchange arenas Same (steps.evaluateAll ids values)
      (steps.evaluateAll others values) := by
  induction ids generalizing arenas others values with
  | nil =>
      cases alike with
      | nil => exact .pure_same _
  | cons id rest inductionHypothesis =>
      cases alike with
      | cons first following =>
          exact (agree.evaluate first).bind_same fun value before =>
            inductionHypothesis (following.mono before) _

theorem agrees_executeAll
    (agree : steps.Agree exchange)
    {ids others : List (Option Tree.NodeId)}
    (alike : Tree.AllAlike exchange arenas ids others) :
    Agrees exchange arenas Same (steps.executeAll ids) (steps.executeAll others) := by
  induction ids generalizing arenas others with
  | nil =>
      cases alike with
      | nil => exact .pure_same _
  | cons id rest inductionHypothesis =>
      cases alike with
      | cons first following =>
          refine (agree.execute first).bind_same fun flow before => ?_
          cases flow with
          | returning value => exact .pure_same _
          | normal => exact inductionHypothesis (following.mono before)

variable {node twin : Tree.Node}

theorem agrees_logical
    (agree : steps.Agree exchange)
    (alike : node.Alike exchange arenas twin) :
    Agrees exchange arenas Same (steps.logical node) (steps.logical twin) := by
  refine (agree.evaluate (alike.child 0)).bind_same fun left before => ?_
  rw [alike.tokens.kind_eq]
  split
  all_goals
    simp only
    split
    · exact .pure_same _
    · exact agree.evaluate ((alike.child 1).mono before)

section Operators

variable {operator other : Token} (tokens : TokensAlike exchange arenas operator other)

include tokens

theorem agrees_unaryValue (operand : Value) :
    Agrees exchange arenas Same (unaryValue operator operand) (unaryValue other operand) := by
  unfold unaryValue
  rw [tokens.kind_eq]
  split
  · cases operand with
    | number value => exact .pure_same _
    | _ => exact .fail tokens (.same _)
  · exact .pure_same _
  · exact .pure_same _

theorem agrees_numbers (left right : Value) :
    Agrees exchange arenas Same (numbers operator left right) (numbers other left right) := by
  unfold numbers
  split
  · exact .pure_same _
  · exact .fail tokens (.same _)

theorem agrees_sum (left right : Value) :
    Agrees exchange arenas Same (sum operator left right) (sum other left right) := by
  unfold sum
  split
  · exact .pure_same _
  · exact (agrees_textOf _).bind_same fun _ _ => (agrees_textOf _).bind_same fun _ _ => .pure_same _
  · exact (agrees_textOf _).bind_same fun _ _ => (agrees_textOf _).bind_same fun _ _ => .pure_same _
  · exact .fail tokens (.same _)

theorem agrees_quotient (left right : Value) :
    Agrees exchange arenas Same (quotient operator left right) (quotient other left right) := by
  refine (agrees_numbers tokens left right).bind_same fun pair before => ?_
  simp only
  split
  · exact .fail (tokens.mono before) (.same _)
  · exact .pure_same _

theorem agrees_binaryValue (left right : Value) :
    Agrees exchange arenas Same (binaryValue operator left right)
      (binaryValue other left right) := by
  unfold binaryValue
  rw [tokens.kind_eq]
  split
  · exact .pure_same _
  · exact .pure_same _
  · exact agrees_sum tokens left right
  · exact (agrees_numbers tokens left right).bind_same fun _ _ => .pure_same _
  · exact (agrees_numbers tokens left right).bind_same fun _ _ => .pure_same _
  · exact agrees_quotient tokens left right
  · exact (agrees_numbers tokens left right).bind_same fun _ _ => .pure_same _
  · exact (agrees_numbers tokens left right).bind_same fun _ _ => .pure_same _
  · exact (agrees_numbers tokens left right).bind_same fun _ _ => .pure_same _
  · exact (agrees_numbers tokens left right).bind_same fun _ _ => .pure_same _
  · exact .pure_same _

theorem agrees_elementAt (target position : Value) :
    Agrees exchange arenas Same (elementAt operator target position)
      (elementAt other target position) := by
  unfold elementAt
  cases target with
  | array id =>
      cases position with
      | number number =>
          refine (agrees_elementsOf id).bind_same fun items before => ?_
          simp only
          split
          · exact .pure_same _
          · exact .fail (tokens.mono before) (.same _)
      | _ => exact .fail tokens (.same _)
  | _ => exact .fail tokens (.same _)

theorem agrees_callValue
    (agree : steps.Agree exchange)
    (target : Value)
    (arguments : Array Value) :
    Agrees exchange arenas Same (steps.callValue operator target arguments)
      (steps.callValue other target arguments) := by
  have following : ∀ {later : Arenas} {found twin : Option Callable}, arenas ≤ later →
      Option.Rel (Callable.Alike exchange later) found twin →
      Agrees exchange later Same (steps.callFound operator arguments found)
        (steps.callFound other arguments twin) := by
    intro later found twin before callables
    cases callables with
    | none => exact .fail (tokens.mono before) (.same _)
    | some alike =>
        simp only [callFound, alike.arity_eq]
        split
        · exact .fail (tokens.mono before) (.same _)
        · refine agrees_get.bind fun after machines => ?_
          rw [machines.field_eq Machine.limit fun _ _ _ => rfl,
            machines.field_eq Machine.depth fun _ _ _ => rfl]
          have laterTokens := tokens.mono (Arenas.le_trans before after)
          split
          · exact .fail laterTokens (.same _)
          · exact agrees_inCall laterTokens (agree.call _ (alike.mono after))
  rw [callValue_eq, callValue_eq]
  cases target with
  | callable id => exact (agrees_callableAt? id).bind following
  | _ => exact following (Arenas.le_refl _) .none

end Operators

theorem agrees_callNode
    (agree : steps.Agree exchange)
    (alike : node.Alike exchange arenas twin) :
    Agrees exchange arenas Same (steps.callNode node) (steps.callNode twin) := by
  refine (agree.evaluate (alike.child 0)).bind_same fun target before => ?_
  refine (agrees_evaluateAll agree (alike.children.tail.mono before) #[]).bind_same
    fun arguments after => ?_
  exact agrees_callValue (alike.tokens.mono (Arenas.le_trans before after)) agree target arguments

/-- Evaluating alike expressions agrees. -/
theorem agrees_evaluateNode
    (agree : steps.Agree exchange)
    {id other : Option Tree.NodeId}
    (ids : Tree.Alike exchange arenas id other) :
    Agrees exchange arenas Same (steps.evaluateNode id) (steps.evaluateNode other) := by
  refine (agrees_node? ids).bind fun before nodes => ?_
  cases nodes with
  | none => exact .pure_same _
  | some alike =>
      simp only [alike.kind]
      split
      · rw [alike.constant]
        exact .pure_same _
      · exact agree.evaluate (alike.child 0)
      · exact agrees_valueOf alike.tokens
      · exact (agree.evaluate (alike.child 0)).bind_same fun value after =>
          (agrees_assign (alike.tokens.mono after) value).bind_same fun _ _ => .pure_same _
      · exact agrees_logical agree alike
      · exact (agree.evaluate (alike.child 0)).bind_same fun operand after =>
          agrees_unaryValue (alike.tokens.mono after) operand
      · exact (agree.evaluate (alike.child 0)).bind_same fun left after =>
          (agree.evaluate ((alike.child 1).mono after)).bind_same fun right afterBoth =>
          agrees_binaryValue (alike.tokens.mono (Arenas.le_trans after afterBoth)) left right
      · exact agrees_callNode agree alike
      · exact (agrees_evaluateAll agree alike.children #[]).bind_same fun items _ =>
          agrees_newArray items
      · exact (agree.evaluate (alike.child 0)).bind_same fun target after =>
          (agree.evaluate ((alike.child 1).mono after)).bind_same fun position afterBoth =>
          agrees_elementAt (alike.tokens.mono (Arenas.le_trans after afterBoth)) target position
      · exact .pure_same _
      all_goals exact (agree.execute (ids.mono before)).bind_same fun _ _ => .pure_same _

theorem agrees_executeLoop
    (agree : steps.Agree exchange)
    (alike : node.Alike exchange arenas twin)
    (rounds : Nat) :
    Agrees exchange arenas Same (steps.executeLoop node rounds)
      (steps.executeLoop twin rounds) := by
  induction rounds generalizing arenas with
  | zero => exact .exhausted
  | succ rounds inductionHypothesis =>
      refine (agree.evaluate (alike.child 0)).bind_same fun condition before => ?_
      split
      · refine (agree.execute ((alike.child 1).mono before)).bind_same fun flow after => ?_
        cases flow with
        | returning value => exact .pure_same _
        | normal => exact inductionHypothesis (alike.mono (Arenas.le_trans before after))
      · exact .pure_same _

/-- Alike parameters have the same names. -/
theorem agrees_parameterNames (alike : node.Alike exchange arenas twin) :
    Agrees exchange arenas Same (parameterNames node) (parameterNames twin) := by
  intro machine other machines before
  refine .ok machines (Arenas.le_refl _) ?_
  have parameters := alike.children.dropLast.mono before
  exact parameters.filterMap_eq fun ids =>
    Machine.map_eq_of_rel ids.nodes fun nodes => nodes.name_eq

theorem agrees_declareFunction (alike : node.Alike exchange arenas twin) :
    Agrees exchange arenas Same (declareFunction node) (declareFunction twin) := by
  refine (agrees_parameterNames alike).bind_same fun parameters before =>
    agrees_get.bind fun after machines => ?_
  rw [machines.field_eq Machine.scope fun _ _ _ => rfl, alike.name_eq]
  have body := (alike.children.last.mono before).mono after
  exact (agrees_newCallable (.function _ _ _ body)).bind_same fun function _ =>
    (agrees_define _ function).bind_same fun _ _ => .pure_same _

theorem agrees_giveBack
    (agree : steps.Agree exchange)
    (alike : node.Alike exchange arenas twin) :
    Agrees exchange arenas Same (steps.giveBack node) (steps.giveBack twin) := by
  refine agrees_get.bind fun before machines => ?_
  rw [machines.field_eq Machine.depth fun _ _ _ => rfl,
    machines.field_eq Machine.base fun _ _ _ => rfl]
  split
  · exact .fail (alike.tokens.mono before) (.same _)
  · exact (agree.evaluate ((alike.child 0).mono before)).bind_same fun _ _ => .pure_same _

theorem agrees_executeBlock
    (agree : steps.Agree exchange)
    (outer : Scope)
    (bindings : List (String × Value))
    (alike : node.Alike exchange arenas twin) :
    Agrees exchange arenas Same (steps.executeBlock outer bindings node)
      (steps.executeBlock outer bindings twin) :=
  (agrees_newScope outer bindings).bind_same fun scope before =>
    agrees_inScope scope (agrees_executeAll agree (alike.children.mono before))

/-- Executing alike statements agrees. -/
theorem agrees_executeNode
    (agree : steps.Agree exchange)
    {id other : Option Tree.NodeId}
    (ids : Tree.Alike exchange arenas id other) :
    Agrees exchange arenas Same (steps.executeNode id) (steps.executeNode other) := by
  refine (agrees_node? ids).bind fun before nodes => ?_
  cases nodes with
  | none => exact .pure_same _
  | some alike =>
      simp only [alike.kind]
      split
      · exact agrees_executeAll agree alike.children
      · rw [alike.name_eq]
        exact (agree.evaluate (alike.child 0)).bind_same fun value _ =>
          (agrees_define _ value).bind_same fun _ _ => .pure_same _
      · exact (agree.evaluate (alike.child 0)).bind_same fun value after =>
          (agrees_textOf value).bind_same fun text afterText =>
          (agrees_write _ (alike.tokens.mono (Arenas.le_trans after afterText))).bind_same
            fun _ _ => .pure_same _
      · exact (agree.evaluate (alike.child 0)).bind_same fun _ _ => .pure_same _
      · refine agrees_get.bind fun after machines => ?_
        rw [machines.field_eq Machine.scope fun _ _ _ => rfl]
        exact agrees_executeBlock agree _ [] (alike.mono after)
      · refine (agree.evaluate (alike.child 0)).bind_same fun condition after => ?_
        split
        · exact agree.execute ((alike.child 1).mono after)
        · exact agree.execute ((alike.child 2).mono after)
      · exact agrees_executeLoop agree alike _
      · exact agrees_declareFunction alike
      · exact agrees_giveBack agree alike
      all_goals exact (agree.evaluate (ids.mono before)).bind_same fun _ _ => .pure_same _

theorem agrees_callFunction
    (agree : steps.Agree exchange)
    (name : String)
    (parameters : List String)
    (closure : Scope)
    {body other : Option Tree.NodeId}
    (bodies : Tree.Alike exchange arenas body other)
    (arguments : List Value) :
    Agrees exchange arenas Same (steps.callFunction ⟨name, parameters, body, closure⟩ arguments)
      (steps.callFunction ⟨name, parameters, other, closure⟩ arguments) := by
  refine (agrees_node? bodies).bind fun before nodes => ?_
  cases nodes with
  | none => exact .pure_same _
  | some alike =>
      refine (agrees_executeBlock agree _ _ alike).bind_same fun flow _ => ?_
      cases flow with
      | returning value => exact .pure_same _
      | normal => exact .pure_same _

theorem agrees_callCallable
    (agree : steps.Agree exchange)
    {callable twin : Callable}
    (alike : callable.Alike exchange arenas twin)
    (arguments : List Value) :
    Agrees exchange arenas Same (steps.callCallable callable arguments)
      (steps.callCallable twin arguments) := by
  cases alike with
  | builtin given => exact Builtin.agrees_perform agree given arguments
  | function name parameters closure bodies =>
      exact agrees_callFunction agree name parameters closure bodies arguments

end Steps

/-- Within any bound, evaluation agrees with itself at alike nodes. -/
theorem agree_within (bound : Nat) : (Run.within bound).Agree exchange := by
  induction bound with
  | zero => exact ⟨fun _ => .exhausted, fun _ => .exhausted, fun _ _ => .exhausted⟩
  | succ bound inductionHypothesis =>
      refine ⟨fun ids => ?_, fun ids => ?_, fun arguments alike => ?_⟩
      · intro machine twin machines before
        simp only [Run.within, Run.evaluateWithin, atLevel_eq]
        exact Steps.agrees_evaluateNode inductionHypothesis ids machine twin machines before
      · intro machine twin machines before
        simp only [Run.within, Run.executeWithin, atLevel_eq]
        exact Steps.agrees_executeNode inductionHypothesis ids machine twin machines before
      · intro machine twin machines before
        simp only [Run.within, Run.callWithin, atLevel_eq]
        exact Steps.agrees_callCallable inductionHypothesis alike arguments machine twin machines
          before

/-- Executing alike programs agrees. -/
theorem agrees_interpret
    {root other : Tree.NodeId}
    (alike : Tree.Alike exchange arenas (some root) (some other)) :
    Agrees exchange arenas Same (Run.interpret root) (Run.interpret other) :=
  agrees_interpretWith (agree_within Run.ample) alike

end Scripting
