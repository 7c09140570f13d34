import Scripting.Proofs.Reading.Advance
import Scripting.Proofs.Syntax.Layout

/-!
# What is read has its shape

While a program is read, there are nodes that have been made and are not yet children: what
is held of them is which roles they can play (`Arena.Keeps`).  A rule of the grammar uses
some of the nodes that are held and gives others (`Builds`), and leaves what is held besides
as it is, also when it fails and what it has made is lost.  So a node is a child at most
once, and every node is made of children that can play their roles.

Main statements: `keeps_readProgram`, `Arena.IsRead.wellFormed`.
-/

namespace Scripting
namespace Tree

open Token (Kind)

/-- Indices that are not yet children, with the roles that they can play. -/
abbrev Held := List (Role × Option NodeId)

/-- Indices that can all play one role. -/
def Held.all (role : Role) (ids : List (Option NodeId)) : Held :=
  ids.map fun id => (role, id)

@[simp] theorem Held.roles_all (role : Role) (ids : List (Option NodeId)) :
    (all role ids).map Prod.fst = .replicate ids.length role := by
  simp [all, Function.comp_def]

@[simp] theorem Held.ids_all (role : Role) (ids : List (Option NodeId)) :
    (all role ids).map Prod.snd = ids := by
  simp [all, Function.comp_def]

/-- The arena is well-formed, and what is held can play its roles and is neither a child nor
held twice. -/
structure Arena.Keeps (arena : Arena) (held : Held) : Prop where
  formed : arena.WellFormed
  plays : ∀ item ∈ held, arena.Plays item.1 item.2
  apart : (held.filterMap Prod.snd ++ arena.childIds).Nodup

namespace Arena.Keeps

variable {arena : Arena} {frame used held : Held}

theorem nothing (formed : arena.WellFormed) : arena.Keeps [] :=
  ⟨formed, by simp, formed.once⟩

/-- What is held may be lost. -/
theorem lose (keeps : arena.Keeps held) (fewer : used.Sublist held) : arena.Keeps used where
  formed := keeps.formed
  plays item member := keeps.plays item (fewer.subset member)
  apart := keeps.apart.sublist ((fewer.filterMap _).append_right _)

/-- A node of a sort can be held as one of a wider sort, and where it might be absent. -/
theorem widen
    {sort wider : NodeSort}
    {optional : Bool}
    {id : Option NodeId}
    (keeps : arena.Keeps (frame ++ [(.one sort, id)]))
    (sorts : sort.kinds ⊆ wider.kinds) :
    arena.Keeps (frame ++ [(⟨wider, optional⟩, id)]) where
  formed := keeps.formed
  plays := by
    have before := keeps.plays
    simp only [List.forall_mem_append, List.forall_mem_singleton] at before ⊢
    exact ⟨before.1, before.2.widen sorts (by simp [Role.one])⟩
  apart := by
    have before := keeps.apart
    rw [List.filterMap_append] at before ⊢
    exact before

/-- What is absent can be held at any time. -/
theorem absent (keeps : arena.Keeps frame) (sort : NodeSort) :
    arena.Keeps (frame ++ [(.maybe sort, none)]) where
  formed := keeps.formed
  plays := by
    simp only [List.forall_mem_append, List.forall_mem_singleton]
    exact ⟨keeps.plays, rfl⟩
  apart := by
    rw [List.filterMap_append]
    simpa using keeps.apart

/-- What is held is in the arena. -/
theorem held_lt_size
    (keeps : arena.Keeps held)
    {id : NodeId}
    (member : id ∈ held.filterMap Prod.snd) :
    id < arena.size := by
  obtain ⟨⟨role, found⟩, inside, rfl⟩ := List.mem_filterMap.mp member
  exact IsA.lt_size (keeps.plays _ inside)

/-- A node is made of what is held last, and held in its place. -/
theorem add
    {kind : NodeKind}
    {token : Token}
    {constant : Option Constant}
    (keeps : arena.Keeps (frame ++ used))
    (layout : Layout kind token constant (used.map Prod.fst))
    {sort : NodeSort}
    (included : kind ∈ sort.kinds) :
    (arena.add ⟨kind, token, constant, used.map Prod.snd⟩).Keeps
      (frame ++ [(.one sort, some arena.nextId)]) := by
  have before := arena.le_add ⟨kind, token, constant, used.map Prod.snd⟩
  have children : (used.map Prod.snd).filterMap id = used.filterMap Prod.snd := by
    rw [List.filterMap_map]
    rfl
  have playAll := List.forall_mem_append.mp keeps.plays
  have fresh : arena.nextId ∉ (frame ++ used).filterMap Prod.snd ++ arena.childIds := by
    intro member
    obtain member | member := List.mem_append.mp member
    · exact Nat.lt_irrefl _ (keeps.held_lt_size member)
    · exact Nat.lt_irrefl _ (keeps.formed.childIds_lt_size member)
  -- The added index goes where what is used up was held, and that goes to the children.
  have apart : (frame.filterMap Prod.snd ++ arena.nextId ::
      (arena.childIds ++ used.filterMap Prod.snd)).Nodup := by
    have moved : (frame.filterMap Prod.snd ++ (arena.childIds ++ used.filterMap Prod.snd)).Perm
        (frame.filterMap Prod.snd ++ (used.filterMap Prod.snd ++ arena.childIds)) :=
      List.perm_append_comm.append_left _
    rw [List.perm_middle.nodup_iff, (moved.cons arena.nextId).nodup_iff, ← List.append_assoc,
      ← List.filterMap_append]
    exact List.nodup_cons.mpr ⟨fresh, keeps.apart⟩
  refine ⟨⟨fun id node found => ?shaped, fun id node found child member => ?earlier, ?once⟩,
    ?plays, ?apart⟩
  case shaped =>
    obtain found | ⟨rfl, rfl⟩ := get?_add_cases found
    · exact (keeps.formed.shaped id node found).mono before
    · refine ⟨_, layout, ?_⟩
      rw [List.forall₂_map_left_iff, List.forall₂_map_right_iff, List.forall₂_same]
      exact fun item member => (playAll.2 item member).mono before
  case earlier =>
    obtain found | ⟨rfl, rfl⟩ := get?_add_cases found
    · exact keeps.formed.earlier id node found child member
    · obtain ⟨⟨role, id⟩, inside, rfl⟩ := List.mem_map.mp member
      exact IsA.lt_size (playAll.2 _ inside)
  case once =>
    rw [childIds_add, children]
    exact (List.nodup_cons.mp (apart.sublist (List.sublist_append_right _ _))).2
  case plays =>
    simp only [List.forall_mem_append, List.forall_mem_singleton]
    refine ⟨fun item member => (playAll.1 item member).mono before, ?_⟩
    exact ⟨_, get?_add_nextId _ _, included⟩
  case apart =>
    rw [childIds_add, children, List.filterMap_append]
    simpa using apart

end Arena.Keeps

variable {α β : Type}

/-! ## Reading that uses what is held -/

/-- What reading gives is held, besides what was held before, unless it fails. -/
def ResultKeeps (frame : Held) (gives : α → Held) : EStateM.Result Fault Cursor α → Prop
  | .ok value later => later.arena.Keeps (frame ++ gives value)
  | .error _ later => later.arena.Keeps frame

theorem ResultKeeps.imp
    {frame kept : Held}
    {gives other : α → Held}
    {result : EStateM.Result Fault Cursor α}
    (keeps : ResultKeeps frame gives result)
    (given : ∀ (arena : Arena) value,
      arena.Keeps (frame ++ gives value) → arena.Keeps (kept ++ other value))
    (lost : ∀ arena : Arena, arena.Keeps frame → arena.Keeps kept) :
    ResultKeeps kept other result := by
  cases result with
  | ok value later => exact given _ value keeps
  | error fault later => exact lost _ keeps

/-- The work uses up what is held last, and gives something to be held in its place. What
is held besides stays as it is. -/
def Builds (used : Held) (work : Parse α) (gives : α → Held) : Prop :=
  ∀ (cursor : Cursor) (frame : Held), cursor.arena.Keeps (frame ++ used) →
    ResultKeeps frame gives (work cursor)

/-- The work gives the index of a node of the sort. -/
abbrev BuildsNode (used : Held) (work : Parse NodeId) (sort : NodeSort) : Prop :=
  Builds used work fun id => [(.one sort, some id)]

/-- The work leaves the arena as it is, and what it gives is as described. -/
def Glances (work : Parse α) (holds : α → Prop) : Prop :=
  ∀ cursor, (cursorAfter (work cursor)).arena = cursor.arena ∧
    ∀ value later, work cursor = .ok value later → holds value

namespace Builds

variable {used kept : Held}

theorem pure (gives : α → Held) (value : α) : Builds (gives value) (Pure.pure value) gives :=
  fun _ _ keeps => keeps

/-- What is held is given. -/
theorem hold (sort : NodeSort) (id : NodeId) :
    BuildsNode [(.one sort, some id)] (Pure.pure id) sort :=
  fun _ _ keeps => keeps

/-- What fails has used up everything. -/
theorem noExpression (gives : α → Held) : Builds used noExpression gives :=
  fun _ _ keeps => keeps.lose (List.sublist_append_left _ _)

theorem bind
    {work : Parse α}
    {next : α → Parse β}
    {between : α → Held}
    {gives : β → Held}
    (first : Builds used work between)
    (second : ∀ value, Builds (between value) (next value) gives) :
    Builds used (work >>= next) gives := by
  intro cursor frame keeps
  have after := first cursor frame keeps
  cases ends : work cursor with
  | ok value later =>
      rw [ends] at after
      rw [bind_of_ok ends]
      exact second value later frame after
  | error fault later =>
      rw [ends] at after
      rw [bind_of_error ends]
      exact after

/-- What is kept stays held besides what the work gives. -/
theorem beside
    {work : Parse α}
    {gives : α → Held}
    (builds : Builds [] work gives)
    (kept : Held) :
    Builds kept work fun value => kept ++ gives value := by
  intro cursor frame keeps
  have after := builds cursor (frame ++ kept) (by simpa using keeps)
  exact after.imp (fun _ _ keeps => by simpa using keeps) fun _ keeps =>
    keeps.lose (List.sublist_append_left _ _)

/-- Work that uses nothing goes before work that uses what is kept and what it gives. -/
theorem before
    {work : Parse α}
    {next : α → Parse β}
    {between : α → Held}
    {gives : β → Held}
    (first : Builds [] work between)
    (second : ∀ value, Builds (kept ++ between value) (next value) gives) :
    Builds kept (work >>= next) gives :=
  (first.beside kept).bind second

/-- A glance at what is next goes before work that uses what is kept. -/
theorem glance
    {work : Parse α}
    {next : α → Parse β}
    {holds : α → Prop}
    {gives : β → Held}
    (glances : Glances work holds)
    (second : ∀ value, holds value → Builds used (next value) gives) :
    Builds used (work >>= next) gives := by
  intro cursor frame keeps
  obtain ⟨same, known⟩ := glances cursor
  cases ends : work cursor with
  | ok value later =>
      rw [ends] at same
      rw [bind_of_ok ends]
      exact second value (known value later ends) later frame (same ▸ keeps)
  | error fault later =>
      rw [ends] at same
      rw [bind_of_error ends]
      exact Arena.Keeps.lose (same ▸ keeps) (List.sublist_append_left _ _)

/-- Not everything that is held has to be used. -/
theorem lose
    {work : Parse α}
    {gives : α → Held}
    (builds : Builds used work gives)
    (fewer : used.Sublist kept) :
    Builds kept work gives :=
  fun cursor frame keeps => builds cursor frame (keeps.lose (fewer.append_left frame))

/-- A node of a sort is one of every wider sort. -/
theorem widen
    {work : Parse NodeId}
    {sort wider : NodeSort}
    (builds : BuildsNode used work sort)
    (sorts : sort.kinds ⊆ wider.kinds) :
    BuildsNode used work wider :=
  fun cursor frame keeps =>
    (builds cursor frame keeps).imp (fun _ _ keeps => keeps.widen sorts) fun _ keeps => keeps

end Builds

/-! ## Tokens -/

theorem glances_peek : Glances peek fun _ => True :=
  fun _ => ⟨rfl, fun _ _ _ => trivial⟩

theorem glances_check (kind : Kind) : Glances (check kind) fun _ => True :=
  fun _ => ⟨rfl, fun _ _ _ => trivial⟩

theorem glances_skip : Glances skip fun _ => True :=
  fun _ => ⟨rfl, fun _ _ _ => trivial⟩

theorem glances_record (fault : Fault) : Glances (record fault) fun _ => True :=
  fun _ => ⟨rfl, fun _ _ _ => trivial⟩

theorem glances_acceptAny (wanted : List Kind) :
    Glances (acceptAny wanted) fun found => ∀ token ∈ found, token.kind ∈ wanted := by
  intro cursor
  unfold acceptAny
  split
  · exact ⟨rfl, by rintro _ _ ⟨⟩; simp⟩
  · split
    next member => exact ⟨rfl, by rintro _ _ ⟨⟩; simpa using member⟩
    next => exact ⟨rfl, by rintro _ _ ⟨⟩; simp⟩

theorem glances_accept (kind : Kind) :
    Glances (accept kind) fun found => ∀ token ∈ found, token.kind = kind := by
  simpa [accept] using glances_acceptAny [kind]

theorem glances_expect (kind : Kind) (message : String) :
    Glances (expect kind message) fun token => token.kind = kind := by
  intro cursor
  obtain ⟨same, known⟩ := glances_accept kind cursor
  unfold expect
  cases ends : accept kind cursor with
  | ok found later =>
      rw [ends] at same
      rw [bind_of_ok ends]
      cases found with
      | some token => exact ⟨same, by rintro _ _ ⟨⟩; exact known _ _ ends _ rfl⟩
      | none => exact ⟨same, by rintro _ _ ⟨⟩⟩
  | error fault later =>
      rw [ends] at same
      rw [bind_of_error ends]
      exact ⟨same, by rintro _ _ ⟨⟩⟩

/-! ## Nodes -/

/-- A node is made of all that is used. -/
theorem builds_addNode
    {used : Held}
    {kind : NodeKind}
    {token : Token}
    {constant : Option Constant}
    (layout : Layout kind token constant (used.map Prod.fst))
    {sort : NodeSort}
    (included : kind ∈ sort.kinds) :
    BuildsNode used (addNode ⟨kind, token, constant, used.map Prod.snd⟩) sort :=
  fun _ _ keeps => keeps.add layout included

/-- A node is made of any number of children. -/
theorem builds_add_of_eq
    {used : Held}
    {roles : List Role}
    {children : List (Option NodeId)}
    {kind : NodeKind}
    {token : Token}
    (playing : used.map Prod.fst = roles)
    (same : used.map Prod.snd = children)
    (layout : Layout kind token none roles)
    {sort : NodeSort}
    (included : kind ∈ sort.kinds) :
    BuildsNode used (add kind token children) sort := by
  subst playing same
  exact builds_addNode layout included

/-! ## The grammar -/

section Items

variable {item : Parse NodeId} {sort : NodeSort} (builds : BuildsNode [] item sort)

include builds

theorem builds_separated (rounds : Nat) (found : Array (Option NodeId)) :
    Builds (.all (.one sort) found.toList) (separated item rounds found)
      fun all => .all (.one sort) all.toList := by
  induction rounds generalizing found with
  | zero => exact .pure (fun all : Array (Option NodeId) => .all (.one sort) all.toList) found
  | succ rounds inductionHypothesis =>
      refine .before builds fun id => ?_
      have pushed : Held.all (.one sort) found.toList ++ [(.one sort, some id)] =
          .all (.one sort) (found.push (some id)).toList := by
        simp [Held.all]
      rw [pushed]
      refine .glance (glances_accept .comma) fun comma _ => ?_
      cases comma with
      | some _ => exact inductionHypothesis _
      | none => exact .pure (fun all : Array (Option NodeId) => .all (.one sort) all.toList) _

theorem builds_itemsBefore (closing : Kind) (rounds : Nat) :
    Builds [] (itemsBefore closing item rounds) (.all (.one sort)) := by
  refine .glance (glances_check closing) fun closes _ => ?_
  cases closes with
  | true => exact .pure (.all (.one sort)) []
  | false =>
      exact (builds_separated builds rounds #[]).bind fun all => .pure (.all (.one sort)) all.toList

end Items

/-- The sort of what a phrase reads. -/
def Phrase.sort : Phrase → NodeSort
  | .statement => .statement
  | .expression | .unary => .expression

section Rules

variable {read : Phrase → Parse NodeId}
  (builds : ∀ phrase, BuildsNode [] (read phrase) phrase.sort)
  (rounds : Nat)

include builds

/-! ### Expressions -/

theorem builds_primary : BuildsNode [] (primary read rounds) .expression := by
  refine .glance glances_peek fun token _ => ?_
  cases spelled : constantOf? token with
  | some constant =>
      exact .glance glances_skip fun _ _ => builds_addNode (.constant spelled) (by decide)
  | none =>
      dsimp only
      split
      next kind =>
        exact .glance glances_skip fun _ _ => builds_addNode (.variable kind) (by decide)
      next kind =>
        exact .glance glances_skip fun _ _ => .before (builds .expression) fun inner =>
          .glance (glances_expect _ _) fun _ _ => builds_addNode (.group kind) (by decide)
      next kind =>
        exact .glance glances_skip fun _ _ =>
          (builds_itemsBefore (builds .expression) _ _).bind fun elements =>
          .glance (glances_expect _ _) fun _ _ =>
            builds_add_of_eq (Held.roles_all _ _) (Held.ids_all _ _) (.array _ kind) (by decide)
      next => exact .noExpression _

theorem builds_applications (remaining : Nat) (target : NodeId) :
    BuildsNode [(.one .expression, some target)] (applications read rounds remaining target)
      .expression := by
  induction remaining generalizing target with
  | zero => exact .hold .expression target
  | succ remaining inductionHypothesis =>
      refine .glance (glances_accept _) fun opening _ => ?_
      cases opening with
      | some _ =>
          refine .before (builds_itemsBefore (builds .expression) _ _) fun arguments =>
            .glance (glances_expect _ _) fun paren kind => .bind ?_ inductionHypothesis
          refine builds_add_of_eq ?_ ?_ (.call arguments.length kind) (by decide)
          · simp [Phrase.sort]
          · simp
      | none =>
          refine .glance (glances_accept _) fun bracket _ => ?_
          cases bracket with
          | some _ =>
              exact .before (builds .expression) fun position =>
                .glance (glances_expect _ _) fun bracket kind =>
                  .bind (builds_addNode (.index kind) (by decide)) inductionHypothesis
          | none => exact .hold .expression target

theorem builds_unary : BuildsNode [] (unary read rounds) .expression := by
  refine .glance (glances_acceptAny _) fun operator kind => ?_
  cases operator with
  | some operator =>
      exact .before (builds .unary) fun operand =>
        builds_addNode (.unary (kind operator rfl)) (by decide)
  | none =>
      exact (builds_primary builds rounds).bind (builds_applications builds rounds rounds)

omit builds in
theorem builds_chain
    {level : Level}
    (known : level ∈ levels)
    {operand : Parse NodeId}
    (builds : BuildsNode [] operand .expression)
    (remaining : Nat)
    (left : NodeId) :
    BuildsNode [(.one .expression, some left)] (chain level operand remaining left)
      .expression := by
  induction remaining generalizing left with
  | zero => exact .hold .expression left
  | succ remaining inductionHypothesis =>
      refine .glance (glances_acceptAny _) fun operator member => ?_
      cases operator with
      | some operator =>
          obtain ⟨layout, included⟩ := Layout.of_level known (member operator rfl)
          exact .before builds fun right =>
            .bind (builds_addNode layout included) inductionHypothesis
      | none => exact .hold .expression left

theorem builds_binary {strengths : List Level} (known : strengths ⊆ levels) :
    BuildsNode [] (binary read rounds strengths) .expression := by
  induction strengths with
  | nil => exact builds_unary builds rounds
  | cons level tighter inductionHypothesis =>
      rw [List.cons_subset] at known
      have operand := inductionHypothesis known.2
      exact operand.bind (builds_chain known.1 operand rounds)

omit builds in
/-- A name that is assigned to goes into the assignment as a token only. -/
theorem builds_assigned (equals : Token) (target value : NodeId) :
    BuildsNode [(.one .expression, some target), (.one .expression, some value)]
      (get >>= fun cursor => assigned equals target value (cursor.arena.get? target))
      .expression := by
  intro cursor frame keeps
  rw [get_bind]
  obtain ⟨⟨kind, name, constant, children⟩, found, isName, same⟩ | same :=
    assigned_eq_or equals target value (cursor.arena.get? target)
  -- The target is left behind as a node that is no child.
  · rw [same]
    obtain ⟨roles, layout, -⟩ := keeps.formed.shaped target _ found
    have identifier : name.kind = .identifier := by
      cases isName
      cases layout
      assumption
    have builds : BuildsNode [(.one .expression, some value)]
        (add .assignment name [some value]) .expression :=
      builds_addNode (.assignment identifier) (by decide)
    exact builds.lose (List.sublist_cons_self _ _) cursor frame keeps
  -- The value is left behind.
  · rw [same]
    have builds : BuildsNode [(.one .expression, some target)]
        (record (.atToken .invalidAssignmentTarget equals) >>= fun _ => pure target) .expression :=
      .glance (glances_record _) fun _ _ => .hold .expression target
    exact builds.lose (by simp) cursor frame keeps

theorem builds_expression : BuildsNode [] (expression read rounds) .expression := by
  rw [expression_eq]
  refine (builds_binary builds rounds (List.Subset.refl levels)).bind fun target =>
    .glance (glances_accept _) fun equals _ => ?_
  cases equals with
  | none => exact .hold .expression target
  | some equals =>
      rw [afterTarget_some]
      exact .before (builds .expression) fun value => builds_assigned equals target value

/-! ### Statements -/

/-- A part that may be left out. -/
theorem builds_optional (phrase : Phrase) :
    Builds [] (some <$> read phrase) fun id => [(.maybe phrase.sort, id)] :=
  (builds phrase).bind fun _ _ _ keeps => keeps.widen (List.Subset.refl _)

omit builds in
/-- What is left out is held all the same. -/
theorem builds_none (sort : NodeSort) :
    Builds [] (pure none : Parse (Option NodeId)) fun id => [(.maybe sort, id)] :=
  fun _ _ keeps => .absent (by simpa using keeps) sort

theorem builds_variableDeclaration :
    BuildsNode [] (variableDeclaration read) .declaration := by
  refine .glance (glances_expect _ _) fun name kind =>
    .glance (glances_accept _) fun equals _ => ?_
  cases equals with
  | some _ =>
      exact (builds_optional builds .expression).bind fun initializer =>
        .glance (glances_expect _ _) fun _ _ => builds_addNode (.declaration kind) (by decide)
  | none =>
      exact (builds_none .expression).bind fun initializer =>
        .glance (glances_expect _ _) fun _ _ => builds_addNode (.declaration kind) (by decide)

theorem builds_attempt : BuildsNode [] (attempt read) .declaration := by
  refine .glance (glances_accept _) fun word _ => ?_
  cases word with
  | some _ => exact builds_variableDeclaration builds
  | none => exact (builds .statement).widen (by decide)

/-- A declaration that is lost is held as absent. -/
theorem keeps_declaration
    {cursor : Cursor}
    {frame : Held}
    (keeps : cursor.arena.Keeps frame) :
    (declaration read cursor).2.arena.Keeps
      (frame ++ [(.maybe .declaration, (declaration read cursor).1)]) := by
  have after := builds_attempt builds cursor frame (by simpa using keeps)
  rw [declaration_eq_recovering]
  cases ends : attempt read cursor with
  | ok id later =>
      rw [ends] at after
      rw [recovering_of_ok ends]
      exact Arena.Keeps.widen after (List.Subset.refl _)
  | error fault later =>
      rw [ends] at after
      rw [recovering_of_error ends]
      exact Arena.Keeps.absent after .declaration

theorem keeps_declarationsBefore
    (closing : Option Kind)
    (remaining : Nat)
    {found : Array (Option NodeId)}
    {cursor : Cursor}
    {frame : Held}
    (keeps : cursor.arena.Keeps (frame ++ .all (.maybe .declaration) found.toList)) :
    (declarationsBefore read closing remaining found cursor).2.arena.Keeps
      (frame ++ .all (.maybe .declaration)
        (declarationsBefore read closing remaining found cursor).1) := by
  induction remaining generalizing found cursor with
  | zero => exact keeps
  | succ remaining inductionHypothesis =>
      cases front : cursor.rest with
      | nil => simpa [declarationsBefore_of_nil front] using keeps
      | cons token others =>
          by_cases closes : some token.kind = closing
          · simpa [declarationsBefore_of_closing front closes] using keeps
          · rw [declarationsBefore_succ front closes]
            apply inductionHypothesis
            have after := keeps_declaration builds keeps
            simpa [Held.all] using after

theorem builds_blockRest :
    Builds [] (blockRest read rounds) (.all (.maybe .declaration)) := by
  have found : Builds [] (unfailing (declarationsBefore read (some .rightBrace) rounds #[]))
      (.all (.maybe .declaration)) :=
    fun _ _ keeps => keeps_declarationsBefore builds (some .rightBrace) rounds keeps
  exact found.bind fun ids => .glance (glances_expect _ _) fun _ _ =>
    .pure (.all (.maybe .declaration)) ids

/-- A block, which is a statement by itself or the body of a function. -/
theorem builds_block
    {brace : Token}
    (kind : brace.kind = .leftBrace)
    {sort : NodeSort}
    (included : .block ∈ sort.kinds) :
    BuildsNode [] (blockRest read rounds >>= add .block brace) sort :=
  (builds_blockRest builds rounds).bind fun _ =>
    builds_add_of_eq (Held.roles_all _ _) (Held.ids_all _ _) (.block _ kind) included

omit builds in
theorem builds_parameter : BuildsNode [] parameter .parameter :=
  .glance (glances_expect _ _) fun _ kind => builds_addNode (.parameter kind) (by decide)

theorem builds_functionDeclaration :
    BuildsNode [] (functionDeclaration read rounds) .statement := by
  refine .glance (glances_expect _ _) fun name kind => .glance (glances_expect _ _) fun _ _ =>
    (builds_itemsBefore builds_parameter _ _).bind fun parameters =>
    .glance (glances_expect _ _) fun _ _ => .glance (glances_expect _ _) fun brace isBrace => ?_
  have block : BuildsNode [] (blockRest read rounds >>= add .block brace) .block :=
    builds_block builds rounds isBrace (by decide)
  have whole : Builds (.all (.one .parameter) parameters)
      ((blockRest read rounds >>= add .block brace) >>= fun body =>
        add .function name (parameters ++ [some body]))
      fun id => [(.one .statement, some id)] := by
    refine .before block fun body => ?_
    refine builds_add_of_eq ?_ ?_ (.function parameters.length kind) (by decide)
    · simp
    · simp
  simpa [bind_assoc] using whole

theorem builds_branch
    {keyword : Token}
    (kind : keyword.kind = .keyword .ifWord) :
    BuildsNode [] (branch read keyword) .statement := by
  refine .glance (glances_expect _ _) fun _ _ => .before (builds .expression) fun condition =>
    .glance (glances_expect _ _) fun _ _ => .before (builds .statement) fun consequence =>
    .glance (glances_accept _) fun other _ => ?_
  cases other with
  | some _ =>
      exact .before (builds_optional builds .statement) fun alternative =>
        builds_addNode (.branch kind) (by decide)
  | none =>
      exact .before (builds_none .statement) fun alternative =>
        builds_addNode (.branch kind) (by decide)

theorem builds_loop
    {keyword : Token}
    (kind : keyword.kind = .keyword .whileWord) :
    BuildsNode [] (loop read keyword) .statement :=
  .glance (glances_expect _ _) fun _ _ => .before (builds .expression) fun condition =>
    .glance (glances_expect _ _) fun _ _ => .before (builds .statement) fun body =>
      builds_addNode (.loop kind) (by decide)

theorem builds_giveBack
    {keyword : Token}
    (kind : keyword.kind = .keyword .returnWord) :
    BuildsNode [] (giveBack read keyword) .statement := by
  refine .glance (glances_check _) fun empty _ => ?_
  cases empty with
  | true =>
      exact (builds_none .expression).bind fun value => .glance (glances_expect _ _) fun _ _ =>
        builds_addNode (.giveBack kind) (by decide)
  | false =>
      exact (builds_optional builds .expression).bind fun value =>
        .glance (glances_expect _ _) fun _ _ => builds_addNode (.giveBack kind) (by decide)

theorem builds_statement : BuildsNode [] (statement read rounds) .statement := by
  refine .glance glances_peek fun token _ => ?_
  split
  next kind => exact .glance glances_skip fun _ _ => builds_functionDeclaration builds rounds
  next kind =>
    exact .glance glances_skip fun _ _ => .before (builds .expression) fun value =>
      .glance (glances_expect _ _) fun _ _ => builds_addNode (.echo kind) (by decide)
  next kind => exact .glance glances_skip fun _ _ => builds_branch builds kind
  next kind => exact .glance glances_skip fun _ _ => builds_loop builds kind
  next kind => exact .glance glances_skip fun _ _ => builds_giveBack builds kind
  next kind => exact .glance glances_skip fun _ _ => builds_block builds rounds kind (by decide)
  next =>
    exact (builds_expression builds rounds).bind fun value =>
      .glance (glances_expect _ _) fun _ kind => builds_addNode (.discard kind) (by decide)

theorem builds_rule (phrase : Phrase) :
    BuildsNode [] (phrase.rule read rounds) phrase.sort := by
  cases phrase with
  | statement => exact builds_statement builds rounds
  | expression => exact builds_expression builds rounds
  | unary => exact builds_unary builds rounds

end Rules

theorem builds_readWithin (count : Nat) (phrase : Phrase) :
    BuildsNode [] (phrase.readWithin count) phrase.sort := by
  induction count generalizing phrase with
  | zero => exact .noExpression _
  | succ count inductionHypothesis =>
      intro cursor
      rw [readWithin_succ]
      exact builds_rule inductionHypothesis (count + 1) phrase cursor

/-! ## Programs -/

section Programs

variable {tokens : Token.Sequence} {arena : Arena}
  (closed : tokens.ending.kind = .endOfInput)
  (formed : arena.WellFormed)

include closed formed

/-- The root of a program is made of its declarations, and is all that is held in the end. -/
theorem keeps_readProgram :
    (readProgram tokens arena).arena.Keeps
      [(.one .program, some (readProgram tokens arena).root)] := by
  have start : arena.Keeps ([] ++ Held.all (.maybe .declaration) []) := .nothing formed
  have found : (readDeclarations tokens arena).2.arena.Keeps
      ([] ++ Held.all (.maybe .declaration) (readDeclarations tokens arena).1) :=
    keeps_declarationsBefore (builds_readWithin _) none _ start
  have layout : Layout .statements tokens.ending none
      ((Held.all (.maybe .declaration) (readDeclarations tokens arena).1).map Prod.fst) := by
    rw [Held.roles_all]
    exact .statements _ closed
  have root : NodeKind.statements ∈ NodeSort.program.kinds := by decide
  have added := found.add layout root
  rw [Held.ids_all] at added
  rw [readProgram_eq closed arena]
  exact added

/-- Reading a program keeps the arena well-formed. -/
theorem wellFormed_readProgram : (readProgram tokens arena).arena.WellFormed :=
  (keeps_readProgram closed formed).formed

/-- The root of a program is a list of declarations. -/
theorem isA_root :
    (readProgram tokens arena).arena.IsA .program (readProgram tokens arena).root :=
  (keeps_readProgram closed formed).plays _ List.mem_cons_self

end Programs

/-- An arena into which programs have been read, one after the other. -/
inductive Arena.IsRead : Arena → Prop
  | empty : IsRead .empty
  | read {arena : Arena} {tokens : Token.Sequence} :
      IsRead arena → tokens.ending.kind = .endOfInput → IsRead (readProgram tokens arena).arena

/-- Whatever programs are read, well-formed or not, the arena is well-formed. -/
theorem Arena.IsRead.wellFormed {arena : Arena} (isRead : arena.IsRead) : arena.WellFormed := by
  induction isRead with
  | empty => exact wellFormed_empty
  | read _ closed inductionHypothesis => exact wellFormed_readProgram closed inductionHypothesis

end Tree
end Scripting
