import Scripting.Tree.Grammar
import Scripting.Proofs.Syntax.Rose

/-!
# Moves of a cursor

What the steps of which reading consists do at a given front of the input, and what
is known of them when they have succeeded.

`Reads work input rest holds` says that `work` takes the tokens of `input` before
`rest` from every cursor, records no fault, only adds nodes, and gives a value of
which `holds` is true in the arena it leaves.
-/

namespace Scripting
namespace Tree

open Token (Kind)

variable {α β : Type}

/-- Work goes on after a part of it that has succeeded. -/
theorem bind_of_ok
    {work : Parse α}
    {next : α → Parse β}
    {cursor later : Cursor}
    {value : α}
    (ends : work cursor = .ok value later) :
    (work >>= next) cursor = next value later := by
  simp [bind, EStateM.bind, ends]

/-- Work ends with a part of it that has failed. -/
theorem bind_of_error
    {work : Parse α}
    {next : α → Parse β}
    {cursor later : Cursor}
    {fault : Fault}
    (ends : work cursor = .error fault later) :
    (work >>= next) cursor = .error fault later := by
  simp [bind, EStateM.bind, ends]

/-- Work succeeds when its parts succeed one after the other. -/
theorem bind_eq_ok
    {work : Parse α}
    {next : α → Parse β}
    {cursor later : Cursor}
    {value : β} :
    (work >>= next) cursor = .ok value later ↔
      ∃ middle between, work cursor = .ok middle between ∧
        next middle between = .ok value later := by
  simp only [bind, EStateM.bind]
  cases work cursor with
  | ok middle between => simp [and_assoc]
  | error fault between => simp

theorem get_bind (next : Cursor → Parse α) (cursor : Cursor) :
    (get >>= next) cursor = next cursor cursor := rfl

theorem map_eq_bind (change : α → β) (work : Parse α) :
    change <$> work = work >>= fun value => pure (change value) := rfl

theorem pure_eq_ok
    {cursor later : Cursor}
    {value result : α} :
    (pure value : Parse α) cursor = .ok result later ↔ value = result ∧ cursor = later := by
  simp [pure, EStateM.pure]

section Front

variable (rest : List Token) (ending : Token) (arena : Arena) (faults : Array Fault)

theorem peek_cons (token : Token) :
    peek ⟨token :: rest, ending, arena, faults⟩ =
      .ok token ⟨token :: rest, ending, arena, faults⟩ := rfl

theorem skip_cons (token : Token) :
    skip ⟨token :: rest, ending, arena, faults⟩ = .ok () ⟨rest, ending, arena, faults⟩ := rfl

theorem acceptAny_of_mem
    {token : Token}
    {wanted : List Kind}
    (member : token.kind ∈ wanted) :
    acceptAny wanted ⟨token :: rest, ending, arena, faults⟩ =
      .ok (some token) ⟨rest, ending, arena, faults⟩ := by
  simp [acceptAny, member]

theorem acceptAny_of_not_mem
    {rest : List Token}
    {wanted : List Kind}
    (others : ∀ token ∈ rest.head?, token.kind ∉ wanted) :
    acceptAny wanted ⟨rest, ending, arena, faults⟩ =
      .ok none ⟨rest, ending, arena, faults⟩ := by
  cases rest with
  | nil => rfl
  | cons token rest => simp [acceptAny, others token rfl]

theorem accept_of_eq
    {token : Token}
    {kind : Kind}
    (same : token.kind = kind) :
    accept kind ⟨token :: rest, ending, arena, faults⟩ =
      .ok (some token) ⟨rest, ending, arena, faults⟩ :=
  acceptAny_of_mem rest ending arena faults (by simp [same])

theorem accept_of_ne
    {rest : List Token}
    {kind : Kind}
    (others : ∀ token ∈ rest.head?, token.kind ≠ kind) :
    accept kind ⟨rest, ending, arena, faults⟩ = .ok none ⟨rest, ending, arena, faults⟩ :=
  acceptAny_of_not_mem ending arena faults fun token head => by
    simpa using others token head

theorem expect_of_eq
    {token : Token}
    {kind : Kind}
    (message : String)
    (same : token.kind = kind) :
    expect kind message ⟨token :: rest, ending, arena, faults⟩ =
      .ok token ⟨rest, ending, arena, faults⟩ := by
  unfold expect
  rw [bind_of_ok (accept_of_eq rest ending arena faults same)]
  rfl

theorem expect_of_ne
    {rest : List Token}
    {kind : Kind}
    (message : String)
    (others : ∀ token ∈ rest.head?, token.kind ≠ kind) :
    expect kind message ⟨rest, ending, arena, faults⟩ =
      .error (.atToken (.expected message) (rest.headD ending)) ⟨rest, ending, arena, faults⟩ := by
  unfold expect
  rw [bind_of_ok (accept_of_ne ending arena faults others)]
  rfl

theorem check_of_eq
    {token : Token}
    {kind : Kind}
    (same : token.kind = kind) :
    check kind ⟨token :: rest, ending, arena, faults⟩ =
      .ok true ⟨token :: rest, ending, arena, faults⟩ := by
  simp [check, same]

theorem check_of_ne
    {token : Token}
    {kind : Kind}
    (different : token.kind ≠ kind) :
    check kind ⟨token :: rest, ending, arena, faults⟩ =
      .ok false ⟨token :: rest, ending, arena, faults⟩ := by
  simp [check, different]

end Front

section Declarations

variable
  {read : Phrase → Parse NodeId}
  {closing : Option Kind}
  {remaining : Nat}
  {found : Array (Option NodeId)}
  {cursor : Cursor}

/-- A round of the loop reads the declaration at a token that does not close it. -/
theorem declarationsBefore_succ
    {token : Token}
    {others : List Token}
    (front : cursor.rest = token :: others)
    (opens : some token.kind ≠ closing) :
    declarationsBefore read closing (remaining + 1) found cursor =
      declarationsBefore read closing remaining (found.push (declaration read cursor).1)
        (declaration read cursor).2 := by
  rw [declarationsBefore]
  simp only [front, opens, if_false]
  rfl

/-- The token that closes the declarations is not taken. -/
theorem declarationsBefore_of_closing
    {token : Token}
    {others : List Token}
    (front : cursor.rest = token :: others)
    (closes : some token.kind = closing) :
    declarationsBefore read closing remaining found cursor = (found.toList, cursor) := by
  cases remaining with
  | zero => rfl
  | succ remaining =>
      rw [declarationsBefore]
      simp only [front, closes, if_true]

theorem declarationsBefore_of_nil (nothing : cursor.rest = []) :
    declarationsBefore read closing remaining found cursor = (found.toList, cursor) := by
  cases remaining with
  | zero => rfl
  | succ remaining =>
      rw [declarationsBefore]
      simp only [nothing]

/-- What has been found already stands before what is found. -/
theorem declarationsBefore_found
    (remaining : Nat)
    (found : Array (Option NodeId))
    (cursor : Cursor) :
    declarationsBefore read closing remaining found cursor =
      (found.toList ++ (declarationsBefore read closing remaining #[] cursor).1,
        (declarationsBefore read closing remaining #[] cursor).2) := by
  induction remaining generalizing found cursor with
  | zero => simp [declarationsBefore]
  | succ remaining inductionHypothesis =>
      cases front : cursor.rest with
      | nil => simp [declarationsBefore_of_nil front]
      | cons token others =>
          by_cases closes : some token.kind = closing
          · simp [declarationsBefore_of_closing front closes]
          · rw [declarationsBefore_succ front closes, declarationsBefore_succ front closes,
              inductionHypothesis (found.push _), inductionHypothesis (#[].push _)]
            simp

end Declarations

/-- A reader within a bound follows the rule of its phrase, within a smaller one. -/
theorem readWithin_succ (count : Nat) (phrase : Phrase) (cursor : Cursor) :
    Phrase.readWithin (count + 1) phrase cursor =
      phrase.rule (Phrase.readWithin count) (count + 1) cursor := by
  simp [Phrase.readWithin]

/-- What becomes of an assignment whose target and value have been read, the target at a
node. -/
def assigned (equals : Token) (target value : NodeId) : Option Node → Parse NodeId
  | some { kind := .variable, token, .. } => add .assignment token [some value]
  | _ => do
      record (Fault.atToken .invalidAssignmentTarget equals)
      return target

/-- A name is assigned to, and every other target is recorded. -/
theorem assigned_eq_or (equals : Token) (target value : NodeId) (found : Option Node) :
    (∃ node, found = some node ∧ node.kind = .variable ∧
        assigned equals target value found = add .assignment node.token [some value]) ∨
      assigned equals target value found =
        record (Fault.atToken .invalidAssignmentTarget equals) >>= fun _ => pure target := by
  unfold assigned
  split
  next token constant children => exact .inl ⟨⟨.variable, token, constant, children⟩, rfl, rfl, rfl⟩
  next => exact .inr rfl

/-- What follows the target in an expression. -/
def afterTarget (read : Phrase → Parse NodeId) (target : NodeId) : Option Token → Parse NodeId
  | none => return target
  | some equals => do
      let value ← read .expression
      let cursor ← get
      assigned equals target value (cursor.arena.get? target)

theorem afterTarget_some (read : Phrase → Parse NodeId) (target : NodeId) (equals : Token) :
    afterTarget read target (some equals) =
      read .expression >>= fun value => get >>= fun cursor =>
        assigned equals target value (cursor.arena.get? target) :=
  rfl

theorem expression_eq (read : Phrase → Parse NodeId) (rounds : Nat) :
    expression read rounds =
      binary read rounds levels >>= fun target => accept .equal >>= afterTarget read target :=
  rfl

/-- The work takes the tokens of `input` before `rest`, without a fault. -/
def Reads
    (work : Parse α)
    (input rest : List Token)
    (holds : Arena → α → Prop) : Prop :=
  ∀ ending arena faults, ∃ value later,
    arena ≤ later ∧ holds later value ∧
      work ⟨input, ending, arena, faults⟩ = .ok value ⟨rest, ending, later, faults⟩

/-- Work that ends by adding a node whose children stand puts its tree into the arena. -/
theorem exists_of_addNode
    {work : Parse NodeId}
    {cursor : Cursor}
    {rest : List Token}
    {ending : Token}
    {arena later : Arena}
    {faults : Array Fault}
    {kind : NodeKind}
    {token : Token}
    {constant : Option Constant}
    {children : List Rose}
    {ids : List (Option NodeId)}
    (ends : work cursor = addNode ⟨kind, token, constant, ids⟩ ⟨rest, ending, later, faults⟩)
    (before : arena ≤ later)
    (below : Rose.AllStandAt later children ids) :
    ∃ id last, arena ≤ last ∧
      (Rose.node kind token constant children).StandsAt last (some id) ∧
      work cursor = .ok id ⟨rest, ending, last, faults⟩ :=
  ⟨later.nextId, later.add ⟨kind, token, constant, ids⟩,
    Arena.le_trans before (later.le_add _), Rose.standsAt_add below, ends⟩

end Tree
end Scripting
