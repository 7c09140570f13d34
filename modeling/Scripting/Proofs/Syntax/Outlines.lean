import Scripting.Tree.Outline
import Scripting.Proofs.Syntax.Layout

/-!
# Outlines of well-formed arenas

An outline looks up a node for every index that it comes to.  `Arena.outline?` gives no
outline when one of them is missing, or when the levels do not suffice.  In a well-formed
arena neither happens: the children of a node have been made before it, so they are there,
and every level leads to a smaller index.

Main statement: `Arena.WellFormed.outline?_eq`.
-/

namespace Scripting
namespace Tree

/-- The outline of a node, if all of its children can be shown that are asked for. -/
def Node.outline? (node : Node) (shown : Option NodeId → Option String) : Option String := do
  let parts (children : List (Option NodeId)) := (children.filter (·.isSome)).mapM shown
  match node.kind with
  | .constant => return (node.constant.getD .null).outline
  | .variable | .parameter => return node.name
  | .function =>
      let parameters ← node.parameters.mapM shown
      let head := "fn " ++ node.name ++ " (" ++ " ".intercalate parameters ++ ")"
      return parenthesized head (← parts [node.body])
  | _ => return parenthesized node.head (← parts node.children)

namespace Arena

/-- The outline of a tree, if there is a node at every index and the levels suffice. -/
def outlineWithin? (arena : Arena) : (levels : Nat) → Option NodeId → Option String
  | _, none => some ""
  | 0, some _ => none
  | levels + 1, some id => do
      let node ← arena.get? id
      node.outline? (arena.outlineWithin? levels)

/-- The outline of a tree, if there is a node at every index. -/
def outline? (arena : Arena) (id : Option NodeId) : Option String :=
  arena.outlineWithin? (levelsFor (arena.size + 1)) id

end Arena

theorem mapM_eq_map
    {shown? : Option NodeId → Option String}
    {shown : Option NodeId → String}
    {ids : List (Option NodeId)}
    (each : ∀ id ∈ ids, shown? id = some (shown id)) :
    ids.mapM shown? = some (ids.map shown) := by
  induction ids with
  | nil => rfl
  | cons id others inductionHypothesis =>
      rw [List.forall_mem_cons] at each
      simp [each.1, inductionHypothesis each.2]

/-- A node has an outline when its children have. -/
theorem Node.outline?_eq
    {node : Node}
    {shown? : Option NodeId → Option String}
    {shown : Option NodeId → String}
    (each : ∀ id ∈ node.children, shown? id = some (shown id)) :
    node.outline? shown? = some (node.outline shown) := by
  have parts (children : List (Option NodeId))
      (among : ∀ id ∈ children, id.isSome = true → id ∈ node.children) :
      (children.filter (·.isSome)).mapM shown? =
        some ((children.filter (·.isSome)).map shown) := by
    refine mapM_eq_map fun id member => ?_
    obtain ⟨member, present⟩ := List.mem_filter.mp member
    exact each id (among id member present)
  have parameters : node.parameters.mapM shown? = some (node.parameters.map shown) :=
    mapM_eq_map fun id member => each id ((List.dropLast_sublist _).subset member)
  have body : ∀ id ∈ [node.body], id.isSome = true → id ∈ node.children := by
    intro id member present
    obtain rfl := List.mem_singleton.mp member
    obtain ⟨index, isBody⟩ := Option.isSome_iff_exists.mp present
    rw [isBody]
    exact List.mem_of_getLast? (Option.join_eq_some_iff.mp isBody)
  unfold outline? outline
  dsimp only
  rw [parts node.children fun _ member _ => member, parts [node.body] body, parameters]
  cases node.kind <;> rfl

namespace Arena

variable {arena : Arena}

theorem WellFormed.outlineWithin?_eq
    (formed : arena.WellFormed)
    {levels : Nat}
    {id : NodeId}
    (present : id < arena.size)
    (enough : id < levels) :
    arena.outlineWithin? levels (some id) = some (arena.outlineWithin levels (some id)) := by
  induction levels generalizing id with
  | zero => cases enough
  | succ levels inductionHypothesis =>
      have found : arena.get? id = some arena.nodes[id] := Array.getElem?_eq_getElem present
      rw [outlineWithin?, outlineWithin]
      simp only [node?, found, Option.bind_eq_bind, Option.bind_some, atLevel_eq]
      refine Node.outline?_eq fun child member => ?_
      cases child with
      | none => cases levels <;> rfl
      | some index =>
          have earlier := formed.earlier id _ found index member
          exact inductionHypothesis (Nat.lt_trans earlier present)
            (Nat.lt_of_lt_of_le earlier (Nat.le_of_lt_succ enough))

/-- In a well-formed arena every node is there that an outline looks up, and the levels
suffice. -/
theorem WellFormed.outline?_eq
    (formed : arena.WellFormed)
    {id : NodeId}
    (present : id < arena.size) :
    arena.outline? (some id) = some (arena.outline (some id)) :=
  formed.outlineWithin?_eq present
    (Nat.lt_of_lt_of_le (Nat.lt_succ_of_lt present) (le_levelsFor _))

end Arena
end Tree
end Scripting
