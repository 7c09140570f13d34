import Scripting.Proofs.Reading.Programs
import Scripting.Proofs.Reading.Relocation
import Scripting.Proofs.Syntax.Changed

/-!
# Alike trees in two arenas

One and the same program can stand in two arenas at different indices, and with
tokens that were read at different places.  `Alike exchange arenas id other` says
that the tree at an index of the one arena is alike the tree at an index of the
other: nodes have the same kind and constant, alike children, and tokens that
`exchange` lets stand for each other.

Main statements: what is alike stays so while nodes are added (`Alike.mono`), and a
tree is alike itself with its tokens changed, wherever both stand
(`alike_of_standsAt`).
-/

namespace Scripting
namespace Tree

/-- Which token of the second arena may stand for which one at an index of the first.
They have the same kind and the same text. -/
structure Exchange where
  admits : NodeId → Token → Token → Prop
  kind_eq {id : NodeId} {token twin : Token} : admits id token twin → twin.kind = token.kind
  lexeme_eq {id : NodeId} {token twin : Token} : admits id token twin → twin.lexeme = token.lexeme

/-- No token stands for another one. -/
def Exchange.unchanged : Exchange where
  admits _ token twin := twin = token
  kind_eq same := by rw [same]
  lexeme_eq same := by rw [same]

/-- Two arenas. -/
structure Arenas where
  left : Arena
  right : Arena

namespace Arenas

/-- Both arenas come before the others. -/
instance : LE Arenas where
  le earlier later := earlier.left ≤ later.left ∧ earlier.right ≤ later.right

theorem le_refl (arenas : Arenas) : arenas ≤ arenas :=
  ⟨Arena.le_refl _, Arena.le_refl _⟩

theorem le_trans
    {first second third : Arenas}
    (earlier : first ≤ second)
    (later : second ≤ third) :
    first ≤ third :=
  ⟨Arena.le_trans earlier.1 later.1, Arena.le_trans earlier.2 later.2⟩

end Arenas

variable {exchange : Exchange} {arenas later : Arenas}

mutual

/-- The trees at two indices are alike. -/
inductive Alike (exchange : Exchange) (arenas : Arenas) : Option NodeId → Option NodeId → Prop
  | absent : Alike exchange arenas none none
  | node {id other : NodeId} {kind : NodeKind} {token twin : Token} {constant : Option Constant}
      {ids others : List (Option NodeId)} :
      arenas.left.get? id = some ⟨kind, token, constant, ids⟩ →
      arenas.right.get? other = some ⟨kind, twin, constant, others⟩ →
      exchange.admits id token twin →
      AllAlike exchange arenas ids others →
      Alike exchange arenas (some id) (some other)

/-- The trees at two lists of indices are alike, one by one. -/
inductive AllAlike (exchange : Exchange) (arenas : Arenas) :
    List (Option NodeId) → List (Option NodeId) → Prop
  | nil : AllAlike exchange arenas [] []
  | cons {id other : Option NodeId} {ids others : List (Option NodeId)} :
      Alike exchange arenas id other →
      AllAlike exchange arenas ids others →
      AllAlike exchange arenas (id :: ids) (other :: others)

end

mutual

/-- Trees stay alike while nodes are added, and with an exchange that admits more of
their tokens. -/
theorem Alike.change
    {wider : Exchange}
    (before : arenas ≤ later)
    (admits : ∀ {id token twin}, id < arenas.left.size → exchange.admits id token twin →
      wider.admits id token twin) :
    ∀ {id other : Option NodeId}, Alike exchange arenas id other → Alike wider later id other
  | _, _, .absent => .absent
  | _, _, .node left right admitted below =>
      .node (Arena.get?_of_le before.1 left) (Arena.get?_of_le before.2 right)
        (admits (Arena.lt_size_of_get? left) admitted) (AllAlike.change before admits below)

/-- The same of all of a list. -/
theorem AllAlike.change
    {wider : Exchange}
    (before : arenas ≤ later)
    (admits : ∀ {id token twin}, id < arenas.left.size → exchange.admits id token twin →
      wider.admits id token twin) :
    ∀ {ids others : List (Option NodeId)},
      AllAlike exchange arenas ids others → AllAlike wider later ids others
  | _, _, .nil => .nil
  | _, _, .cons alike others =>
      .cons (Alike.change before admits alike) (AllAlike.change before admits others)

end

theorem Alike.mono
    {id other : Option NodeId}
    (alike : Alike exchange arenas id other)
    (before : arenas ≤ later) :
    Alike exchange later id other :=
  alike.change before fun _ admitted => admitted

theorem AllAlike.mono
    {ids others : List (Option NodeId)}
    (alike : AllAlike exchange arenas ids others)
    (before : arenas ≤ later) :
    AllAlike exchange later ids others :=
  alike.change before fun _ admitted => admitted

namespace AllAlike

variable {ids others : List (Option NodeId)}

theorem child
    (alike : AllAlike exchange arenas ids others)
    (position : Nat) :
    Alike exchange arenas (ids[position]?).join (others[position]?).join := by
  induction position generalizing ids others with
  | zero =>
      cases alike with
      | nil => exact .absent
      | cons first _ => exact first
  | succ position inductionHypothesis =>
      cases alike with
      | nil => exact .absent
      | cons _ rest => exact inductionHypothesis rest

theorem tail (alike : AllAlike exchange arenas ids others) :
    AllAlike exchange arenas ids.tail others.tail := by
  cases alike with
  | nil => exact .nil
  | cons _ rest => exact rest

theorem last :
    ∀ {ids others : List (Option NodeId)}, AllAlike exchange arenas ids others →
      Alike exchange arenas ids.getLast?.join others.getLast?.join
  | _, _, .nil => .absent
  | _, _, .cons first .nil => first
  | _, _, .cons _ (.cons second rest) => by
      rw [List.getLast?_cons_cons, List.getLast?_cons_cons]
      exact last (.cons second rest)

theorem dropLast :
    ∀ {ids others : List (Option NodeId)}, AllAlike exchange arenas ids others →
      AllAlike exchange arenas ids.dropLast others.dropLast
  | _, _, .nil => .nil
  | _, _, .cons _ .nil => .nil
  | _, _, .cons first (.cons second rest) => .cons first (dropLast (.cons second rest))

/-- What is the same for alike trees is the same for all of a list. -/
theorem filterMap_eq
    {α : Type}
    {left right : Option NodeId → Option α}
    (same : ∀ {id other : Option NodeId}, Alike exchange arenas id other → right other = left id) :
    ∀ {ids others : List (Option NodeId)}, AllAlike exchange arenas ids others →
      others.filterMap right = ids.filterMap left
  | _, _, .nil => rfl
  | _, _, .cons first rest => by
      rw [List.filterMap_cons, List.filterMap_cons, same first, filterMap_eq same rest]

end AllAlike

/-- The one token stands at a node of the first arena, where the exchange lets the
other one stand for it, and the other one stands at a node of the second arena. -/
def TokensAlike (exchange : Exchange) (arenas : Arenas) (token twin : Token) : Prop :=
  ∃ id other node twinNode,
    arenas.left.get? id = some node ∧ arenas.right.get? other = some twinNode ∧
      node.token = token ∧ twinNode.token = twin ∧ exchange.admits id token twin

namespace TokensAlike

variable {token twin : Token}

theorem kind_eq (alike : TokensAlike exchange arenas token twin) : twin.kind = token.kind := by
  obtain ⟨_, _, _, _, _, _, _, _, admitted⟩ := alike
  exact exchange.kind_eq admitted

theorem lexeme_eq (alike : TokensAlike exchange arenas token twin) :
    twin.lexeme = token.lexeme := by
  obtain ⟨_, _, _, _, _, _, _, _, admitted⟩ := alike
  exact exchange.lexeme_eq admitted

theorem mono
    (alike : TokensAlike exchange arenas token twin)
    (before : arenas ≤ later) :
    TokensAlike exchange later token twin := by
  obtain ⟨id, other, node, twinNode, left, right, same, twinSame, admitted⟩ := alike
  exact ⟨id, other, node, twinNode, Arena.get?_of_le before.1 left,
    Arena.get?_of_le before.2 right, same, twinSame, admitted⟩

end TokensAlike

/-- Nodes at which alike trees begin. -/
structure Node.Alike (exchange : Exchange) (arenas : Arenas) (node twin : Node) : Prop where
  kind : twin.kind = node.kind
  constant : twin.constant = node.constant
  tokens : TokensAlike exchange arenas node.token twin.token
  children : AllAlike exchange arenas node.children twin.children

namespace Node.Alike

variable {node twin : Node}

theorem mono
    (alike : node.Alike exchange arenas twin)
    (before : arenas ≤ later) :
    node.Alike exchange later twin :=
  ⟨alike.kind, alike.constant, alike.tokens.mono before, alike.children.mono before⟩

theorem name_eq (alike : node.Alike exchange arenas twin) : twin.name = node.name :=
  alike.tokens.lexeme_eq

theorem child
    (alike : node.Alike exchange arenas twin)
    (position : Nat) :
    Tree.Alike exchange arenas (node.child position) (twin.child position) :=
  alike.children.child position

end Node.Alike

/-- At alike indices there are no nodes, or alike ones. -/
theorem Alike.nodes
    {id other : Option NodeId}
    (alike : Alike exchange arenas id other) :
    Option.Rel (Node.Alike exchange arenas) (arenas.left.node? id) (arenas.right.node? other) := by
  cases alike with
  | absent => exact .none
  | node left right admitted below =>
      rw [Arena.node?, left, Arena.node?, right]
      exact .some ⟨rfl, rfl, ⟨_, _, _, _, left, right, rfl, rfl, admitted⟩, below⟩

/-! ## Trees whose tokens are changed -/

mutual

/-- A tree among the nodes of `added`, behind the nodes of the first arena, is alike
the same tree with changed tokens in the second one. -/
theorem alike_of_standsAt
    {base added right : Arena}
    {change : Token → Token}
    (admits : ∀ id token, base.size ≤ id → id < base.size + added.size →
      exchange.admits id token (change token)) :
    ∀ {tree : Rose} {id other : Option NodeId}, tree.StandsAt added id →
      (tree.map change).StandsAt right other →
      Alike exchange ⟨base.extended added, right⟩ (id.map (NodeId.behind base.size)) other
  | .absent, id, other, stands, otherStands => by
      rw [Rose.standsAt_absent] at stands
      rw [Rose.map, Rose.standsAt_absent] at otherStands
      rw [stands, otherStands]
      exact .absent
  | .node kind token constant children, id, other, stands, otherStands => by
      obtain ⟨index, ids, rfl, found, below⟩ := (Rose.standsAt_node ..).mp stands
      rw [Rose.map] at otherStands
      obtain ⟨otherIndex, others, rfl, otherFound, otherBelow⟩ :=
        (Rose.standsAt_node ..).mp otherStands
      have inside := Arena.lt_size_of_get? found
      have moved : (base.extended added).get? (index.behind base.size) =
          some ⟨kind, token, constant, ids.map (Option.map (NodeId.behind base.size))⟩ := by
        rw [Arena.get?_extended_behind, found]
        rfl
      have bound : index.behind base.size < base.size + added.size := by
        rw [NodeId.behind, Nat.add_comm]
        exact Nat.add_lt_add_left inside _
      exact .node moved otherFound (admits _ _ (Nat.le_add_left _ _) bound)
        (allAlike_of_standAt admits below otherBelow)

/-- The same of all of a list. -/
theorem allAlike_of_standAt
    {base added right : Arena}
    {change : Token → Token}
    (admits : ∀ id token, base.size ≤ id → id < base.size + added.size →
      exchange.admits id token (change token)) :
    ∀ {trees : List Rose} {ids others : List (Option NodeId)}, Rose.AllStandAt added trees ids →
      Rose.AllStandAt right (Rose.mapAll change trees) others →
      AllAlike exchange ⟨base.extended added, right⟩
        (ids.map (Option.map (NodeId.behind base.size))) others
  | [], ids, others, stand, othersStand => by
      rw [Rose.allStandAt_nil] at stand
      rw [Rose.mapAll, Rose.allStandAt_nil] at othersStand
      rw [stand, othersStand]
      exact .nil
  | tree :: trees, ids, others, stand, othersStand => by
      obtain ⟨id, rest, rfl, atId, below⟩ := (Rose.allStandAt_cons ..).mp stand
      rw [Rose.mapAll] at othersStand
      obtain ⟨other, otherRest, rfl, atOther, otherBelow⟩ :=
        (Rose.allStandAt_cons ..).mp othersStand
      exact .cons (alike_of_standsAt admits atId atOther)
        (allAlike_of_standAt admits below otherBelow)

end

/-- A program that is read without a fault into two arenas has alike roots, if the new
nodes of the first arena may have the same tokens. -/
theorem alike_readProgram
    {tokens : Token.Sequence}
    (closed : tokens.ending.kind = .endOfInput)
    (left right : Arena)
    (fresh : ∀ id token, left.size ≤ id → exchange.admits id token token)
    (faultless : (readProgram tokens left).faults = []) :
    Alike exchange ⟨(readProgram tokens left).arena, (readProgram tokens right).arena⟩
      (some (readProgram tokens left).root) (some (readProgram tokens right).root) := by
  obtain ⟨trees, derivation⟩ := isStatement_of_faultless closed faultless
  obtain ⟨nearest, nearestDerivation, isNearest⟩ := derivation.exists_elseNearest
  obtain ⟨-, -, stands⟩ := readProgram_of_derives tokens nearestDerivation isNearest .empty
  obtain ⟨-, -, otherStands⟩ := readProgram_of_derives tokens nearestDerivation isNearest right
  rw [← Rose.map_id (programRose tokens.ending nearest)] at otherStands
  rw [readProgram_eq_extended tokens left]
  exact alike_of_standsAt (fun id token behind _ => fresh id token behind) stands otherStands

end Tree
end Scripting
