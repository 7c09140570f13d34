import Scripting.Tree.Arena

/-!
# Trees apart from an arena

A `Rose` is a syntax tree of its own: its nodes hold their children themselves,
and a child that is left out is the tree `absent`.  An arena holds such a tree at
an index when the node at the index has the same kind, token and constant, and its
children lead to the children of the tree.

Main statements: a tree stays where it stands while nodes are added
(`StandsAt.mono`), and no two trees stand at one place (`StandsAt.unique`).
-/

namespace Scripting
namespace Tree

namespace Arena

/-- An arena comes before one that has the same nodes and possibly more after them. -/
instance : LE Arena where
  le earlier later := earlier.nodes.toList <+: later.nodes.toList

theorem le_refl (arena : Arena) : arena ≤ arena :=
  List.prefix_refl _

theorem le_trans
    {first second third : Arena}
    (earlier : first ≤ second)
    (later : second ≤ third) :
    first ≤ third :=
  List.IsPrefix.trans earlier later

theorem le_add (arena : Arena) (node : Node) : arena ≤ arena.add node := by
  change arena.nodes.toList <+: (arena.nodes.push node).toList
  simp

theorem size_le_of_le
    {earlier later : Arena}
    (before : earlier ≤ later) :
    earlier.size ≤ later.size :=
  List.IsPrefix.length_le before

/-- A node stays at its index. -/
theorem get?_of_le
    {earlier later : Arena}
    (before : earlier ≤ later)
    {id : NodeId}
    {node : Node}
    (found : earlier.get? id = some node) :
    later.get? id = some node := by
  obtain ⟨added, whole⟩ := before
  have inside : id < earlier.nodes.toList.length := by
    obtain ⟨bound, -⟩ := Array.getElem?_eq_some_iff.mp found
    simpa using bound
  rw [get?, ← Array.getElem?_toList] at found ⊢
  rw [← whole, List.getElem?_append_left inside, found]

theorem lt_size_of_get?
    {arena : Arena}
    {id : NodeId}
    {node : Node}
    (found : arena.get? id = some node) :
    id < arena.size := by
  obtain ⟨bound, -⟩ := Array.getElem?_eq_some_iff.mp found
  exact bound

end Arena

/-- A syntax tree without an arena. -/
inductive Rose where
  /-- What is left out. -/
  | absent
  | node
      (kind : NodeKind)
      (token : Token)
      (constant : Option Constant)
      (children : List Rose)

namespace Rose

mutual

/-- The arena holds the tree at an index, which is none for the absent tree. -/
def StandsAt (arena : Arena) : Rose → Option NodeId → Prop
  | absent, id => id = none
  | node kind token constant children, id =>
      ∃ index ids, id = some index ∧
        arena.get? index = some ⟨kind, token, constant, ids⟩ ∧
        AllStandAt arena children ids

/-- The arena holds each of the trees at its own index. -/
def AllStandAt (arena : Arena) : List Rose → List (Option NodeId) → Prop
  | [], ids => ids = []
  | tree :: trees, ids =>
      ∃ id others, ids = id :: others ∧ tree.StandsAt arena id ∧ AllStandAt arena trees others

end

variable {arena later : Arena}

@[simp] theorem standsAt_absent (id : Option NodeId) :
    absent.StandsAt arena id ↔ id = none := by
  simp [StandsAt]

/-- A node stands where the arena has it and its children stand. -/
theorem standsAt_node
    (kind : NodeKind)
    (token : Token)
    (constant : Option Constant)
    (children : List Rose)
    (id : Option NodeId) :
    (node kind token constant children).StandsAt arena id ↔
      ∃ index ids, id = some index ∧
        arena.get? index = some ⟨kind, token, constant, ids⟩ ∧
        AllStandAt arena children ids := by
  simp [StandsAt]

@[simp] theorem allStandAt_nil (ids : List (Option NodeId)) :
    AllStandAt arena [] ids ↔ ids = [] := by
  simp [AllStandAt]

theorem allStandAt_cons
    (tree : Rose)
    (trees : List Rose)
    (ids : List (Option NodeId)) :
    AllStandAt arena (tree :: trees) ids ↔
      ∃ id others, ids = id :: others ∧ tree.StandsAt arena id ∧
        AllStandAt arena trees others := by
  simp [AllStandAt]

@[simp] theorem allStandAt_cons_cons
    (tree : Rose)
    (trees : List Rose)
    (id : Option NodeId)
    (ids : List (Option NodeId)) :
    AllStandAt arena (tree :: trees) (id :: ids) ↔
      tree.StandsAt arena id ∧ AllStandAt arena trees ids := by
  simp [AllStandAt, and_assoc]

theorem allStandAt_singleton
    (tree : Rose)
    (ids : List (Option NodeId)) :
    AllStandAt arena [tree] ids ↔ ∃ id, ids = [id] ∧ tree.StandsAt arena id := by
  simp [allStandAt_cons]

theorem allStandAt_pair
    (first second : Rose)
    (ids : List (Option NodeId)) :
    AllStandAt arena [first, second] ids ↔
      ∃ id other, ids = [id, other] ∧ first.StandsAt arena id ∧ second.StandsAt arena other := by
  constructor
  · rw [allStandAt_cons]
    rintro ⟨id, others, rfl, atId, rest⟩
    obtain ⟨other, rfl, atOther⟩ := (allStandAt_singleton second others).mp rest
    exact ⟨id, other, rfl, atId, atOther⟩
  · rintro ⟨id, other, rfl, atId, atOther⟩
    simp [atId, atOther]

/-- Trees one after the other stand at the indices of the ones and then of the others. -/
theorem allStandAt_append
    (trees others : List Rose)
    (ids : List (Option NodeId)) :
    AllStandAt arena (trees ++ others) ids ↔
      ∃ first second, ids = first ++ second ∧ AllStandAt arena trees first ∧
        AllStandAt arena others second := by
  induction trees generalizing ids with
  | nil =>
      constructor
      · intro stands
        exact ⟨[], ids, rfl, by simp, stands⟩
      · rintro ⟨first, second, rfl, empty, stands⟩
        rw [allStandAt_nil] at empty
        simpa [empty] using stands
  | cons tree trees inductionHypothesis =>
      rw [List.cons_append, allStandAt_cons]
      constructor
      · rintro ⟨id, rest, rfl, atId, stands⟩
        obtain ⟨first, second, rfl, left, right⟩ := (inductionHypothesis rest).mp stands
        exact ⟨id :: first, second, rfl, by simp [atId, left], right⟩
      · rintro ⟨first, second, rfl, left, right⟩
        obtain ⟨id, rest, rfl, atId, left⟩ := (allStandAt_cons tree trees first).mp left
        exact ⟨id, rest ++ second, rfl, atId,
          (inductionHypothesis _).mpr ⟨rest, second, rfl, left, right⟩⟩

mutual

/-- A tree stays where it stands while nodes are added. -/
theorem StandsAt.mono
    (before : arena ≤ later) :
    ∀ {tree : Rose} {id : Option NodeId}, tree.StandsAt arena id → tree.StandsAt later id
  | absent, id, stands => by simpa using stands
  | node kind token constant children, id, stands => by
      obtain ⟨index, ids, rfl, found, below⟩ := (standsAt_node ..).mp stands
      exact (standsAt_node ..).mpr
        ⟨index, ids, rfl, Arena.get?_of_le before found, AllStandAt.mono before below⟩

/-- Trees stay where they stand while nodes are added. -/
theorem AllStandAt.mono
    (before : arena ≤ later) :
    ∀ {trees : List Rose} {ids : List (Option NodeId)},
      AllStandAt arena trees ids → AllStandAt later trees ids
  | [], ids, stands => by simpa using stands
  | tree :: trees, ids, stands => by
      obtain ⟨id, others, rfl, atId, rest⟩ := (allStandAt_cons ..).mp stands
      simp [StandsAt.mono before atId, AllStandAt.mono before rest]

end

mutual

/-- No two trees stand at one place. -/
theorem StandsAt.unique :
    ∀ {tree other : Rose} {id : Option NodeId},
      tree.StandsAt arena id → other.StandsAt arena id → tree = other
  | absent, absent, _, _, _ => rfl
  | absent, node .., id, stands, otherStands => by
      obtain ⟨index, _, rfl, _⟩ := (standsAt_node ..).mp otherStands
      simp at stands
  | node .., absent, id, stands, otherStands => by
      obtain ⟨index, _, rfl, _⟩ := (standsAt_node ..).mp stands
      simp at otherStands
  | node kind token constant children, node _ _ _ otherChildren, id, stands, otherStands => by
      obtain ⟨index, ids, rfl, found, below⟩ := (standsAt_node ..).mp stands
      obtain ⟨_, otherIds, same, otherFound, otherBelow⟩ := (standsAt_node ..).mp otherStands
      cases same
      rw [found, Option.some.injEq, Node.mk.injEq] at otherFound
      obtain ⟨rfl, rfl, rfl, rfl⟩ := otherFound
      rw [AllStandAt.unique below otherBelow]

/-- No two lists of trees stand at one list of places. -/
theorem AllStandAt.unique :
    ∀ {trees others : List Rose} {ids : List (Option NodeId)},
      AllStandAt arena trees ids → AllStandAt arena others ids → trees = others
  | [], others, ids, stands, othersStand => by
      obtain rfl := (allStandAt_nil ids).mp stands
      cases others with
      | nil => rfl
      | cons tree trees => simp [allStandAt_cons] at othersStand
  | tree :: trees, others, ids, stands, othersStand => by
      obtain ⟨id, rest, rfl, atId, below⟩ := (allStandAt_cons ..).mp stands
      cases others with
      | nil => simp at othersStand
      | cons other others =>
          rw [allStandAt_cons_cons] at othersStand
          rw [StandsAt.unique atId othersStand.1, AllStandAt.unique below othersStand.2]

end

/-- Adding a node whose children stand puts its tree at the next index. -/
theorem standsAt_add
    {kind : NodeKind}
    {token : Token}
    {constant : Option Constant}
    {children : List Rose}
    {ids : List (Option NodeId)}
    (below : AllStandAt arena children ids) :
    (node kind token constant children).StandsAt
      (arena.add ⟨kind, token, constant, ids⟩) (some arena.nextId) :=
  (standsAt_node ..).mpr
    ⟨arena.nextId, ids, rfl, arena.get?_add_nextId _, below.mono (arena.le_add _)⟩

end Rose
end Tree
end Scripting
