import Scripting.Proofs.Reading.Progress
import Scripting.Proofs.Reading.Relocation
import Scripting.Proofs.Reading.Shapes

/-!
# Reading behind other nodes

The nodes that an arena holds already, however they came there, neither decide what is read
into it nor are they changed by it.  The new nodes follow them, in the order in which an
empty arena would get them, and refer to each other only: an index among the new nodes is
moved by the number of the old ones, and a child that is absent stays absent.

Main statement: `readProgram_appends`.
-/

namespace Scripting
namespace Tree

namespace Arena

variable (base added : Arena)

theorem toList_extended :
    (base.extended added).nodes.toList =
      base.nodes.toList ++ added.nodes.toList.map (Node.behind base.size) := by
  simp [extended]

theorem get?_extended_of_lt {id : NodeId} (old : id < base.size) :
    (base.extended added).get? id = base.get? id := by
  obtain ⟨node, found⟩ : ∃ node, base.get? id = some node :=
    ⟨base.nodes[id], Array.getElem?_eq_getElem old⟩
  rw [found, get?_of_le (le_extended base added) found]

/-- What is at a new index was moved there. -/
theorem get?_extended_of_le {id : NodeId} (new : base.size ≤ id) :
    (base.extended added).get? id = (added.get? (id - base.size)).map (Node.behind base.size) := by
  have moved := get?_extended_behind base added (id - base.size)
  rwa [NodeId.behind, Nat.sub_add_cancel new] at moved

/-- New nodes refer to new nodes before them. -/
theorem child_of_get?_extended
    (formed : added.WellFormed)
    {id : NodeId}
    {node : Node}
    (new : base.size ≤ id)
    (found : (base.extended added).get? id = some node)
    {child : NodeId}
    (isChild : some child ∈ node.children) :
    base.size ≤ child ∧ child < id := by
  rw [get?_extended_of_le base added new, Option.map_eq_some_iff] at found
  obtain ⟨before, found, rfl⟩ := found
  obtain ⟨index, isIndex, moved⟩ := List.mem_map.mp isChild
  obtain ⟨child, rfl, rfl⟩ := Option.map_eq_some_iff.mp moved
  have earlier : child < id - base.size := formed.earlier _ before found child isIndex
  exact ⟨Nat.le_add_left .., Nat.add_lt_of_lt_sub earlier⟩

end Arena

/-- Tokens with an end of the input, whether a program can be read from them or not, are read
into an arena as into an empty one.  The tokens behind the first end of the input have no
part in it.  The faults are the same.  The old nodes stay in front, each at its index.  Behind
them stand the nodes that an empty arena would get, in the same order, each with the same
kind, token and constant, and with every child and the root moved by the number of the old
nodes.  So an absent child stays absent, and no new node refers to an old one. -/
theorem readProgram_appends
    {all : List Token}
    (ends : ∃ token ∈ all, token.kind = .endOfInput)
    (base : Arena) :
    let tokens := Token.Sequence.ofList all
    let alone := readProgram tokens .empty
    let program := readProgram tokens base
    (∃ behind, all = tokens.toList ++ behind) ∧
    program.faults = alone.faults ∧
    program.arena.nodes.toList =
      base.nodes.toList ++ alone.arena.nodes.toList.map (Node.behind base.size) ∧
    program.root = alone.root + base.size ∧ alone.root < alone.arena.size ∧
    (∀ id, id < base.size → program.arena.get? id = base.get? id) ∧
    (∀ id node, alone.arena.get? id = some node →
      program.arena.get? (id + base.size) = some
        { kind := node.kind
          token := node.token
          constant := node.constant
          children := node.children.map (Option.map (· + base.size)) }) ∧
    ∀ id node, base.size ≤ id → program.arena.get? id = some node →
      (∃ before, alone.arena.get? (id - base.size) = some before ∧
        node = before.behind base.size) ∧
      ∀ child, some child ∈ node.children → base.size ≤ child ∧ child < id := by
  intro tokens alone program
  have closed : tokens.ending.kind = .endOfInput := Token.Sequence.ofList_ending_kind all
  have formed : alone.arena.WellFormed := wellFormed_readProgram closed Arena.wellFormed_empty
  have same : program =
      ⟨alone.root.behind base.size, base.extended alone.arena, alone.faults⟩ :=
    readProgram_eq_extended tokens base
  have extended : program.arena = base.extended alone.arena := by rw [same]
  have faults : program.faults = alone.faults := by rw [same]
  have root : program.root = alone.root + base.size := by rw [same]
  refine ⟨Token.Sequence.exists_eq_append ends, faults, ?_, root,
    (isA_root closed Arena.wellFormed_empty).lt_size, fun id old => ?_, fun id node found => ?_,
    fun id node new found => ⟨?_, fun child => ?_⟩⟩
  · rw [extended, Arena.toList_extended]
  · rw [extended, Arena.get?_extended_of_lt base alone.arena old]
  · have moved := Arena.get?_extended_behind base alone.arena id
    rw [found] at moved
    rw [extended]
    exact moved
  · rw [extended, Arena.get?_extended_of_le base alone.arena new, Option.map_eq_some_iff] at found
    obtain ⟨before, found, moved⟩ := found
    exact ⟨before, found, moved.symm⟩
  · rw [extended] at found
    exact Arena.child_of_get?_extended base alone.arena formed new found

/-- An assignment and a statement that lacks its value, with tokens behind the end, are read
behind a node that has itself as a child. -/
theorem readProgram_appends_of_lost :
    let name := Token.placeless .identifier "a"
    let equal := Token.placeless .equal "="
    let word := Token.placeless (.keyword .echoWord) "echo"
    let semicolon := Token.placeless .semicolon ";"
    let ending := Token.placeless .endOfInput ""
    let all := [name, equal, name, semicolon, word, semicolon, ending, word]
    let base : Arena := ⟨#[⟨.group, name, none, [some 0]⟩]⟩
    let alone := readProgram (.ofList all) .empty
    let program := readProgram (.ofList all) base
    (∃ token ∈ all, token.kind = .endOfInput) ∧
      alone.faults.length = 1 ∧ program.faults = alone.faults ∧
      alone.root = 4 ∧ program.root = 5 ∧
      (alone.arena.get? 4).map Node.children = some [some 3, none] ∧
      (program.arena.get? 5).map Node.children = some [some 4, none] := by
  intro name equal word semicolon ending all base alone program
  have ends : ∃ token ∈ all, token.kind = .endOfInput := ⟨ending, by simp [all], rfl⟩
  have rootAlone : alone.root = 4 := by decide +kernel
  have children : (alone.arena.get? 4).map Node.children = some [some 3, none] := by
    decide +kernel
  obtain ⟨-, faults, -, root, -, -, moved, -⟩ := readProgram_appends ends base
  obtain ⟨node, found, isChildren⟩ := Option.map_eq_some_iff.mp children
  refine ⟨ends, by decide +kernel, faults, rootAlone, root.trans (congrArg (· + 1) rootAlone),
    children, ?_⟩
  rw [show program.arena.get? 5 = _ from moved 4 node found, Option.map_some, isChildren]
  rfl

end Tree
end Scripting
