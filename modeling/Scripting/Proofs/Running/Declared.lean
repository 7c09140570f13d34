import Scripting.Proofs.Reading.Shapes
import Scripting.Proofs.Running.Obedience

/-!
# Programs run by their shape

On a machine that has read programs, well-formed or not, the shape of their nodes leads a
run: where an expression is evaluated there is an expression or nothing, where a statement
is executed there is a declaration, a statement, a whole program or nothing, and every
function stands for the node that declares it and has a block for its body
(`Machine.Parsed`).  The evaluator also has rules for nodes of the other sorts, which it
falls back on (`Errand.FallsBack`), but no program leads it there.

Main statements: `Regime.parsed`, `Machine.Parsed.hasShape`,
`Errand.HasShape.not_fallsBack`.
-/

namespace Scripting

open Tree (Arena Node NodeKind NodeSort Role Layout)

namespace Tree

/-! ## Children by their roles -/

section Layout

variable {kind : NodeKind} {token : Token} {constant : Option Constant} {roles : List Role}

/-- The children of an expression are expressions. -/
theorem Layout.operands
    (layout : Layout kind token constant roles)
    (isExpression : kind ∈ NodeSort.expression.kinds) :
    ∀ role ∈ roles, role.sort = .expression := by
  cases layout <;> simp_all [NodeSort.kinds, Role.one]

/-- What a statement executes is a declaration, and what it evaluates is an expression. -/
theorem Layout.parts
    (layout : Layout kind token constant roles)
    (isStatement : kind.isStatement = true)
    (notFunction : kind ≠ .function)
    {position : Nat}
    {role : Role}
    (found : roles[position]? = some role) :
    role.sort.kinds ⊆
      (if kind.executesChild position then NodeSort.declaration else .expression).kinds := by
  cases layout with
  | statements count | block count =>
      obtain rfl := List.eq_of_mem_replicate (List.mem_of_getElem? found)
      exact List.Subset.refl _
  | declaration | echo | discard | giveBack =>
      obtain rfl := List.mem_singleton.mp (List.mem_of_getElem? found)
      exact List.Subset.refl _
  | branch | loop =>
      obtain _ | _ | _ | position := position <;> cases found
      all_goals decide
  | function => exact absurd rfl notFunction
  | _ => cases isStatement

end Layout

theorem NodeSort.isStatement_of_expression :
    ∀ kind ∈ expression.kinds, kind.isStatement = false := by
  decide

theorem NodeSort.isStatement_of_declaration :
    ∀ kind ∈ declaration.kinds ++ program.kinds, kind.isStatement = true := by
  decide

namespace Arena

variable {arena : Arena} {id : Option NodeId}

theorem exists_of_node? {node : Node} (present : arena.node? id = some node) :
    ∃ index, id = some index ∧ arena.get? index = some node := by
  cases id with
  | none => cases present
  | some index => exact ⟨index, rfl, present⟩

theorem Plays.exists_of_one {sort : NodeSort} (plays : arena.Plays (.one sort) id) :
    ∃ index, id = some index ∧ arena.IsA sort index := by
  cases id with
  | none => cases plays
  | some index => exact ⟨index, rfl, plays⟩

/-- What is there is of the sort that the role asks for. -/
theorem Plays.kind
    {role : Role}
    {node : Node}
    (plays : arena.Plays role id)
    (present : arena.node? id = some node) :
    node.kind ∈ role.sort.kinds := by
  obtain ⟨index, rfl, found⟩ := exists_of_node? present
  obtain ⟨other, same, kind⟩ := plays
  obtain rfl := Option.some.inj (same.symm.trans found)
  exact kind

/-- What can be executed: a declaration, a statement, a whole program, or nothing. -/
def Executable (arena : Arena) (id : Option NodeId) : Prop :=
  arena.Plays (.maybe .declaration) id ∨ arena.Plays (.one .program) id

theorem Executable.isStatement
    {node : Node}
    (executable : arena.Executable id)
    (present : arena.node? id = some node) :
    node.kind.isStatement = true := by
  apply NodeSort.isStatement_of_declaration
  obtain plays | plays := executable
  · exact List.mem_append_left _ (plays.kind present)
  · exact List.mem_append_right _ (plays.kind present)

end Arena

variable {arena : Arena} {roles : List Role}

/-- The roles of children are those at their positions. -/
theorem plays_of_getElem?
    {ids : List (Option NodeId)}
    (play : List.Forall₂ arena.Plays roles ids)
    {position : Nat}
    {id : Option NodeId}
    (found : ids[position]? = some id) :
    ∃ role, roles[position]? = some role ∧ arena.Plays role id := by
  induction play generalizing position with
  | nil => cases found
  | cons plays _ inductionHypothesis =>
      cases position with
      | zero =>
          cases found
          exact ⟨_, rfl, plays⟩
      | succ position => exact inductionHypothesis found

/-- A child plays a role that is wide enough for all at its position. -/
theorem Node.plays_child
    {node : Node}
    (play : List.Forall₂ arena.Plays roles node.children)
    {position : Nat}
    {sort : NodeSort}
    (allowed : ∀ role, roles[position]? = some role → role.sort.kinds ⊆ sort.kinds) :
    arena.Plays (.maybe sort) (node.child position) := by
  rw [Node.child]
  cases found : node.children[position]? with
  | none => exact rfl
  | some id =>
      obtain ⟨role, inside, plays⟩ := plays_of_getElem? play found
      exact plays.widen (allowed role inside) fun _ => rfl

namespace Arena.WellFormed

variable (formed : arena.WellFormed) {id : NodeId} {node : Node}
  (found : arena.get? id = some node)

include formed found

theorem plays_operand
    (isExpression : node.kind ∈ NodeSort.expression.kinds)
    (position : Nat) :
    arena.Plays (.maybe .expression) (node.child position) := by
  obtain ⟨roles, layout, play⟩ := formed.shaped id node found
  refine Node.plays_child play fun role inside => ?_
  rw [layout.operands isExpression role (List.mem_of_getElem? inside)]
  exact List.Subset.refl _

theorem plays_part
    (isStatement : node.kind.isStatement = true)
    (notFunction : node.kind ≠ .function)
    (position : Nat) :
    arena.Plays
      (.maybe (if node.kind.executesChild position then .declaration else .expression))
      (node.child position) := by
  obtain ⟨roles, layout, play⟩ := formed.shaped id node found
  exact Node.plays_child play fun role inside => layout.parts isStatement notFunction inside

/-- The children of a function are parameters and, as the last one, a block. -/
theorem function_children (kind : node.kind = .function) :
    (∀ parameter ∈ node.parameters, arena.Plays (.one .parameter) parameter) ∧
      arena.Plays (.one .block) node.body := by
  obtain ⟨roles, layout, play⟩ := formed.shaped id node found
  obtain ⟨_, token, constant, children⟩ := node
  cases kind
  cases layout with
  | function count =>
      -- The last role is that of the body, and there are as many children as roles.
      have lengths := play.length_eq
      obtain rfl | ⟨parameters, body, rfl⟩ := List.eq_nil_or_concat' children
      · simp at lengths
      · obtain rfl : count = parameters.length := by simpa using lengths
        have first := List.forall₂_take_append _ _ _ play
        have last := List.forall₂_drop_append _ _ _ play
        rw [List.take_left' (by simp)] at first
        rw [List.drop_left' (by simp)] at last
        rw [Node.parameters, Node.body, List.dropLast_concat, List.getLast?_concat]
        refine ⟨fun parameter member => ?_, ?_⟩
        · obtain ⟨position, inside⟩ := List.mem_iff_getElem?.mp member
          obtain ⟨role, isRole, plays⟩ := plays_of_getElem? first inside
          obtain rfl := List.eq_of_mem_replicate (List.mem_of_getElem? isRole)
          exact plays
        · cases last with
          | cons plays _ => exact plays

end Arena.WellFormed

/-- The names of parameters stay what they are. -/
theorem Arena.parameterNames_of_le
    {later : Arena}
    {node : Node}
    (plays : ∀ parameter ∈ node.parameters, arena.Plays (.one .parameter) parameter)
    (before : arena ≤ later) :
    later.parameterNames node = arena.parameterNames node := by
  refine List.filterMap_congr fun parameter member => ?_
  cases parameter with
  | none => rfl
  | some index =>
      obtain ⟨found, present, -⟩ := plays _ member
      change (later.get? index).map Node.name = (arena.get? index).map Node.name
      rw [present, get?_of_le before present]

end Tree

/-! ## Functions -/

/-- The function stands for a node that declares it, and its body for the block there. -/
structure Function.DeclaredIn (declared : Function) (arena : Arena) : Prop where
  declaration : ∃ id node, arena.get? id = some node ∧ node.kind = .function ∧
    declared.name = node.name ∧ declared.parameters = arena.parameterNames node ∧
    declared.body = node.body
  /-- There is a body, and it is a block. -/
  block : arena.Plays (.one .block) declared.body

theorem Function.DeclaredIn.mono
    {declared : Function}
    {arena later : Arena}
    (is : declared.DeclaredIn arena)
    (formed : arena.WellFormed)
    (before : arena ≤ later) :
    declared.DeclaredIn later := by
  obtain ⟨⟨id, node, found, kind, name, parameters, body⟩, block⟩ := is
  have plays := (formed.function_children found kind).1
  refine ⟨⟨id, node, Tree.Arena.get?_of_le before found, kind, name, ?_, body⟩,
    block.mono before⟩
  rw [Tree.Arena.parameterNames_of_le plays before, parameters]

/-- The nodes of the machine have been read, and its functions are declared by them. -/
structure Machine.Parsed (machine : Machine) : Prop where
  isRead : machine.arena.IsRead
  functions : ∀ place declared, machine.store.callable? place = some (.function declared) →
    declared.DeclaredIn machine.arena

/-- The functions of the one machine are those of the other, in the same places, and their
bodies are the same blocks. -/
def Machine.KeepsBodies (machine later : Machine) : Prop :=
  ∀ place declared, machine.store.callable? place = some (.function declared) →
    later.store.callable? place = some (.function declared) ∧
    ∃ body block, declared.body = some body ∧ block.kind = .block ∧
      machine.arena.get? body = some block ∧ later.arena.get? body = some block

theorem Machine.Parsed.keepsBodies
    {machine later : Machine}
    (parsed : machine.Parsed)
    (grows : machine.Grows later) :
    machine.KeepsBodies later := by
  intro place declared stored
  obtain ⟨body, same, block, found, kind⟩ :=
    (parsed.functions place declared stored).block.exists_of_one
  exact ⟨grows.callable?_eq stored, body, block, same, List.mem_singleton.mp kind, found,
    Tree.Arena.get?_of_le grows.arena found⟩

/-! ## The regime -/

namespace Machine.Parsed

variable {machine later : Machine}

/-- What has been read and declared stays so in a machine that has grown out of it without
a further function. -/
theorem of_callables
    (parsed : machine.Parsed)
    (grows : machine.Grows later)
    (isRead : later.arena.IsRead)
    (callables : later.store.callables = machine.store.callables) :
    later.Parsed where
  isRead := isRead
  functions place declared stored := by
    rw [Store.callable?, callables] at stored
    exact (parsed.functions place declared stored).mono parsed.isRead.wellFormed grows.arena

theorem readSource (parsed : machine.Parsed) (source : String) :
    (machine.readSource source).2.Parsed :=
  parsed.of_callables (.step (.read machine source)) (.read parsed.isRead rfl) rfl

theorem step (parsed : machine.Parsed) (step : machine.Step later) : later.Parsed := by
  have grows := Grows.step step
  cases step with
  | declare present kind =>
      refine ⟨parsed.isRead, fun place declared stored => ?_⟩
      obtain before | same := Store.callable?_addCallable_cases stored
      · exact parsed.functions place declared before
      · cases same
        obtain ⟨id, rfl, found⟩ := Tree.Arena.exists_of_node? present
        have block := (parsed.isRead.wellFormed.function_children found kind).2
        exact ⟨⟨id, _, found, kind, rfl, rfl, rfl⟩, block⟩
  | read source => exact parsed.readSource source
  | _ => exact parsed.of_callables grows parsed.isRead rfl

theorem visits
    {calls : Machine → Callable → Prop}
    {back : Machine → Machine}
    (parsed : machine.Parsed)
    (visits : machine.Visits calls later back) :
    later.Parsed := by
  have grows := visits.grows
  cases visits with
  | block | body => exact parsed.of_callables grows parsed.isRead (by simp)
  | call => exact parsed.of_callables grows parsed.isRead rfl
  | program source => exact parsed.of_callables grows (parsed.readSource source).isRead rfl

/-- Going back changes no node and no function. -/
theorem visited
    {calls : Machine → Callable → Prop}
    {inner : Machine}
    {back : Machine → Machine}
    (parsed : later.Parsed)
    (visits : machine.Visits calls inner back) :
    (back later).Parsed := by
  cases visits <;> exact ⟨parsed.isRead, parsed.functions⟩

end Machine.Parsed

/-- Programs run by their shape, on machines that have grown out of the given one. -/
def Regime.parsed (start : Machine) : Regime where
  holds machine := start.Grows machine ∧ machine.Parsed
  leads _ _ := True
  evaluates arena id := arena.Plays (.maybe .expression) id
  executes arena id := arena.Executable id
  calls machine callable := ∃ place, machine.store.callable? place = some callable
  refl _ := trivial
  trans _ _ := trivial
  evaluates_mono before plays := plays.mono before
  executes_mono before := .imp (·.mono before) (·.mono before)
  calls_mono := @Machine.Grows.exists_callable?
  operand := by
    intro machine id node ⟨_, parsed⟩ plays present _ position
    obtain ⟨index, rfl, found⟩ := Arena.exists_of_node? present
    exact parsed.isRead.wellFormed.plays_operand found (plays.kind present) position
  statement := by
    intro machine id node _ plays present isStatement
    have other := NodeSort.isStatement_of_expression _ (plays.kind present)
    exact absurd (isStatement.symm.trans other) (by decide)
  part := by
    intro machine id node ⟨_, parsed⟩ _ present isStatement notFunction position
    obtain ⟨index, rfl, found⟩ := Arena.exists_of_node? present
    have plays := parsed.isRead.wellFormed.plays_part found isStatement notFunction position
    split at plays <;> rename_i executed
    · rw [if_pos executed]
      exact .inl plays
    · rw [if_neg executed]
      exact plays
  expression := by
    intro machine id node _ executable present isExpression
    have other := executable.isStatement present
    exact absurd (isExpression.symm.trans other) (by decide)
  body := by
    intro machine declared node ⟨_, parsed⟩ ⟨place, stored⟩ present position
    have block := (parsed.functions place declared stored).block
    have kind : node.kind = .block := List.mem_singleton.mp (block.kind present)
    obtain ⟨index, -, found⟩ := Arena.exists_of_node? present
    have plays := parsed.isRead.wellFormed.plays_part found (by rw [kind]; rfl)
      (by rw [kind]; decide) position
    rw [kind] at plays
    exact .inl plays
  root := by
    intro machine source ⟨_, parsed⟩
    exact .inr (Tree.isA_root rfl parsed.isRead.wellFormed)
  found _ found := ⟨_, found⟩
  step := by
    intro machine later ⟨grows, parsed⟩ step
    exact ⟨⟨grows.trans (.step step), parsed.step step⟩, trivial⟩
  enter := by
    intro machine inner back ⟨grows, parsed⟩ visits
    exact ⟨grows.trans visits.grows, parsed.visits visits⟩
  leave := by
    intro machine inner later back ⟨grows, _⟩ visits inside ⟨_, parsed⟩ _
    exact ⟨⟨grows.trans (visits.grows_back inside), parsed.visited visits⟩, trivial⟩

/-! ## Errands -/

/-- The errand is about a node of the sort that it asks for, which may be absent, or about a
function that has been declared. -/
def Errand.HasShape (errand : Errand) (machine : Machine) : Prop :=
  match errand with
  | .evaluate id => machine.arena.Plays (.maybe .expression) id
  | .execute id => machine.arena.Executable id
  | .call (.function declared) _ => declared.DeclaredIn machine.arena
  | .call (.builtin _) _ => True

/-- The errand comes to a rule that the evaluator has for nodes of the other sorts: a
statement that is evaluated is executed, an expression that is executed is evaluated, and
the value of a parameter is null. -/
def Errand.FallsBack (errand : Errand) (machine : Machine) : Prop :=
  match errand with
  | .evaluate id => ∃ node, machine.arena.node? id = some node ∧
      (node.kind.isStatement = true ∨ node.kind = .parameter)
  | .execute id => ∃ node, machine.arena.node? id = some node ∧ node.kind.isStatement = false
  | .call _ _ => False

theorem Errand.HasShape.not_fallsBack
    {errand : Errand}
    {machine : Machine}
    (shape : errand.HasShape machine) :
    ¬ errand.FallsBack machine := by
  cases errand with
  | evaluate id =>
      rintro ⟨node, present, other⟩
      have kind := shape.kind present
      obtain isStatement | isParameter := other
      · have isExpression := NodeSort.isStatement_of_expression _ kind
        exact absurd (isStatement.symm.trans isExpression) (by decide)
      · rw [isParameter] at kind
        exact absurd kind (by decide)
  | execute id =>
      rintro ⟨node, present, other⟩
      exact absurd (other.symm.trans (shape.isStatement present)) (by decide)
  | call => exact id

/-- What fits the regime has the shape that it asks for. -/
theorem Machine.Parsed.hasShape
    {machine start : Machine}
    (parsed : machine.Parsed)
    {errand : Errand}
    (fits : (Regime.parsed start).fits errand machine) :
    errand.HasShape machine := by
  cases errand with
  | evaluate id => exact fits
  | execute id => exact fits
  | call callable arguments =>
      cases callable with
      | builtin given => trivial
      | function declared =>
          obtain ⟨place, stored⟩ := fits
          exact parsed.functions place declared stored

end Scripting
