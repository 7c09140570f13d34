import Scripting.Proofs.Reading.Onward

/-!
# What is looked up while a program is read

Reading looks up tokens at the place that its cursor has come to, and nodes by their index:
the target of an assignment, and the children of every node that is added.  Each of these
could be missing.

`Inside tokens work cursor` says that none is, in the course of the work from the cursor on.
It has a rule for every step of which reading consists.  A step that looks at tokens has to
point at one, before and after it has moved; after a declaration that is lost, so does every
place at which reading may go on.

Main statements: `Cursor.StandsIn.pointsInto`, `Steady.bind`.
-/

namespace Scripting
namespace Tree

open Token (Kind)

variable {α β : Type}

/-! ## Places -/

namespace Cursor

/-- How many tokens of the sequence come before the one that is read next. -/
def index (cursor : Cursor) (tokens : Token.Sequence) : Nat :=
  tokens.body.length - cursor.rest.length

/-- The token that is read next is the one of the sequence at the index of the cursor. -/
def PointsInto (cursor : Cursor) (tokens : Token.Sequence) : Prop :=
  tokens.toList[cursor.index tokens]? = some cursor.current

/-- What is left is a last part of the sequence. -/
structure StandsIn (cursor : Cursor) (tokens : Token.Sequence) : Prop where
  rest : cursor.rest <:+ tokens.body
  ending : cursor.ending = tokens.ending

namespace StandsIn

variable {tokens : Token.Sequence} {cursor later : Cursor}

theorem onward (stands : cursor.StandsIn tokens) (onward : cursor.Onward later) :
    later.StandsIn tokens :=
  ⟨onward.rest.trans stands.rest, onward.ending.trans stands.ending⟩

/-- Behind the last token before the end, the cursor points at the end. -/
theorem pointsInto (stands : cursor.StandsIn tokens) : cursor.PointsInto tokens := by
  obtain ⟨before, whole⟩ := stands.rest
  have index : cursor.index tokens = before.length := by
    rw [Cursor.index, ← whole, List.length_append]
    omega
  rw [PointsInto, index, Token.Sequence.toList, ← whole, List.append_assoc,
    List.getElem?_append_right (Nat.le_refl _), Nat.sub_self, Cursor.current, ← stands.ending]
  cases cursor.rest <;> rfl

end StandsIn
end Cursor

/-! ## Steps -/

/-- The token that is read next, unless it is the end. -/
def front : Parse (Option Token) := fun cursor =>
  .ok cursor.rest.head? cursor

/-- The node at an index. -/
def nodeAt (id : NodeId) : Parse (Option Node) := fun cursor =>
  .ok (cursor.arena.get? id) cursor

theorem onward_nodeAt (id : NodeId) : GoesOnward (nodeAt id) :=
  fun cursor => .refl cursor

/-- There is a node at the index. -/
def Arena.Has (arena : Arena) (id : NodeId) : Prop :=
  ∃ node, arena.get? id = some node

/-- A round of the loop for declarations looks at the token in front. -/
theorem unfailing_declarationsBefore_succ
    (read : Phrase → Parse NodeId)
    (closing : Option Kind)
    (remaining : Nat)
    (found : Array (Option NodeId)) :
    unfailing (declarationsBefore read closing (remaining + 1) found) =
      front >>= fun token =>
        match token with
        | none => pure found.toList
        | some token =>
            if some token.kind = closing then pure found.toList
            else unfailing (declaration read) >>= fun id =>
              unfailing (declarationsBefore read closing remaining (found.push id)) := by
  funext cursor
  obtain ⟨rest, ending, arena, faults⟩ := cursor
  cases rest with
  | nil => rfl
  | cons token others =>
      change unfailing (declarationsBefore read closing (remaining + 1) found) _ =
        (if some token.kind = closing then pure found.toList else _ : Parse _) _
      by_cases closes : some token.kind = closing
      · rw [if_pos closes, unfailing, declarationsBefore_of_closing rfl closes]
        rfl
      · rw [if_neg closes, unfailing, declarationsBefore_succ rfl closes]
        rfl

/-- The root of a program is made of its declarations and the token behind them. -/
theorem unfailing_program (count : Nat) :
    unfailing (program count) =
      unfailing (declarationsBefore (Phrase.readWithin count) none count #[]) >>= fun found =>
        peek >>= fun token => addNode ⟨.statements, token, none, found⟩ :=
  rfl

/-! ## Lookups -/

/-- Nothing is looked up in the course of the work, from the cursor on, that is not there. -/
inductive Inside (tokens : Token.Sequence) : {α : Type} → Parse α → Cursor → Prop
  | pure {α : Type} (value : α) (cursor : Cursor) : Inside tokens (Pure.pure value) cursor
  | throw {α : Type} (fault : Fault) (cursor : Cursor) :
      Inside tokens (MonadExcept.throw fault : Parse α) cursor
  | record (fault : Fault) (cursor : Cursor) : Inside tokens (record fault) cursor
  | bind {α β : Type} {work : Parse α} {next : α → Parse β} {cursor : Cursor} :
      Inside tokens work cursor →
      (∀ value later, work cursor = .ok value later → Inside tokens (next value) later) →
        Inside tokens (work >>= next) cursor
  | peek {cursor : Cursor} : cursor.PointsInto tokens → Inside tokens peek cursor
  | front {cursor : Cursor} : cursor.PointsInto tokens → Inside tokens front cursor
  | check {cursor : Cursor} (kind : Kind) :
      cursor.PointsInto tokens → Inside tokens (check kind) cursor
  | skip {cursor : Cursor} :
      cursor.PointsInto tokens → (cursorAfter (skip cursor)).PointsInto tokens →
        Inside tokens skip cursor
  | acceptAny {cursor : Cursor} (wanted : List Kind) :
      cursor.PointsInto tokens → (cursorAfter (acceptAny wanted cursor)).PointsInto tokens →
        Inside tokens (acceptAny wanted) cursor
  | nodeAt {cursor : Cursor} {id : NodeId} :
      cursor.arena.Has id → Inside tokens (nodeAt id) cursor
  | addNode {cursor : Cursor} {node : Node} :
      (∀ child, some child ∈ node.children → cursor.arena.Has child) →
        Inside tokens (addNode node) cursor
  | recovering {cursor : Cursor} {work : Parse NodeId} :
      Inside tokens work cursor →
      (∀ fault later, work cursor = .error fault later → ∀ rest, rest <:+ later.rest →
        Cursor.PointsInto { later with rest := rest } tokens) →
        Inside tokens (unfailing (recovering work)) cursor

/-- Wherever the work begins in the tokens, it goes onward and looks up only what is there. -/
structure Steady (tokens : Token.Sequence) (work : Parse α) : Prop where
  onward : GoesOnward work
  inside : ∀ cursor : Cursor, cursor.StandsIn tokens → Inside tokens work cursor

namespace Steady

variable {tokens : Token.Sequence}

theorem pure (value : α) : Steady tokens (Pure.pure value) :=
  ⟨.pure value, fun cursor _ => .pure value cursor⟩

theorem throw (fault : Fault) : Steady tokens (MonadExcept.throw fault : Parse α) :=
  ⟨.throw fault, fun cursor _ => .throw fault cursor⟩

theorem bind
    {work : Parse α}
    {next : α → Parse β}
    (first : Steady tokens work)
    (second : ∀ value, Steady tokens (next value)) :
    Steady tokens (work >>= next) where
  onward := first.onward.bind fun value => (second value).onward
  inside cursor stands := .bind (first.inside cursor stands) fun value later ends =>
    (second value).inside later (stands.onward (first.onward.after_ok ends))

end Steady

variable {tokens : Token.Sequence}

theorem steady_peek : Steady tokens peek :=
  ⟨onward_peek, fun _ stands => .peek stands.pointsInto⟩

theorem steady_front : Steady tokens front :=
  ⟨fun cursor => .refl cursor, fun _ stands => .front stands.pointsInto⟩

theorem steady_check (kind : Kind) : Steady tokens (check kind) :=
  ⟨onward_check kind, fun _ stands => .check kind stands.pointsInto⟩

theorem steady_skip : Steady tokens skip :=
  ⟨onward_skip, fun cursor stands =>
    .skip stands.pointsInto (stands.onward (onward_skip cursor)).pointsInto⟩

theorem steady_acceptAny (wanted : List Kind) : Steady tokens (acceptAny wanted) :=
  ⟨onward_acceptAny wanted, fun cursor stands => .acceptAny wanted stands.pointsInto
    (stands.onward (onward_acceptAny wanted cursor)).pointsInto⟩

theorem steady_accept (kind : Kind) : Steady tokens (accept kind) :=
  steady_acceptAny [kind]

theorem steady_expect (kind : Kind) (message : String) : Steady tokens (expect kind message) := by
  refine .bind (steady_accept kind) fun found => ?_
  cases found with
  | some token => exact .pure token
  | none => exact .bind steady_peek fun token => .throw _

theorem steady_noExpression : Steady tokens (noExpression : Parse α) :=
  .bind steady_peek fun _ => .throw _

theorem steady_record (fault : Fault) : Steady tokens (record fault) :=
  ⟨onward_record fault, fun cursor _ => .record fault cursor⟩

end Tree
end Scripting
