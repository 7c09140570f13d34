import Scripting.Proofs.Reading.Advance

/-!
# No token is blamed twice

Every fault that reading records is blamed on a token that reading has gone past, and a
reading that fails blames the token it fails at, which is taken by whoever catches the
failure.  So no two faults are blamed on one token, unless it is the end of the input,
which is never taken.

A token is named by the number of tokens that are left when it is next
(`Cursor.tokenAt`).

Main statement: `blaming_declarationsBefore`.
-/

namespace Scripting
namespace Tree

open Token (Kind)

/-- The token that is next when so many tokens are left, and the end of the input when
none is. -/
def Cursor.tokenAt (cursor : Cursor) (left : Nat) : Token :=
  (cursor.rest.drop (cursor.rest.length - left)).headD cursor.ending

theorem Cursor.tokenAt_length (cursor : Cursor) :
    cursor.tokenAt cursor.rest.length = cursor.current := by
  simp [tokenAt, current]

/-- The tokens that are left are those that were left before. -/
theorem Cursor.Onward.tokenAt_eq
    {cursor later : Cursor}
    (onward : cursor.Onward later)
    {left : Nat}
    (few : left ≤ later.rest.length) :
    later.tokenAt left = cursor.tokenAt left := by
  obtain ⟨taken, whole⟩ := onward.rest
  have behind : (taken ++ later.rest).length - left =
      taken.length + (later.rest.length - left) := by
    rw [List.length_append]
    omega
  rw [Cursor.tokenAt, Cursor.tokenAt, onward.ending, ← whole, behind, List.drop_append]
  simp

/-- The fault is one of the token that is next when so many tokens are left. -/
def Cursor.Blames (cursor : Cursor) (fault : Fault) (left : Nat) : Prop :=
  ∃ cause, fault = Fault.atToken cause (cursor.tokenAt left)

/-- What was recorded on the way from one cursor to another, each fault with the number of
tokens that were left when the token it is blamed on was next. All these tokens have been
taken, each is blamed once, and only the end of the input is blamed without that. -/
structure Cursor.Blaming (cursor later : Cursor) (blamed : List (Fault × Nat)) : Prop where
  onward : cursor.Onward later
  added : later.faults.toList = cursor.faults.toList ++ blamed.map Prod.fst
  blames : ∀ entry ∈ blamed, cursor.Blames entry.1 entry.2
  before : ∀ entry ∈ blamed, entry.2 ≤ cursor.rest.length
  taken : ∀ entry ∈ blamed, entry.2 = 0 ∨ later.rest.length < entry.2
  once : blamed.Pairwise fun entry other => entry.2 = other.2 → entry.2 = 0

namespace Cursor.Blaming

variable {cursor between later : Cursor}

/-- Nothing is blamed where no fault is recorded. -/
theorem of_onward
    (onward : cursor.Onward later)
    (same : later.faults = cursor.faults) :
    cursor.Blaming later [] :=
  ⟨onward, by simp [same], by simp, by simp, by simp, .nil⟩

theorem trans
    {blamed others : List (Fault × Nat)}
    (first : cursor.Blaming between blamed)
    (second : between.Blaming later others) :
    cursor.Blaming later (blamed ++ others) where
  onward := first.onward.trans second.onward
  added := by rw [second.added, first.added, List.map_append, List.append_assoc]
  blames entry member := by
    obtain member | member := List.mem_append.mp member
    · exact first.blames entry member
    · obtain ⟨cause, same⟩ := second.blames entry member
      exact ⟨cause, first.onward.tokenAt_eq (second.before entry member) ▸ same⟩
  before entry member := by
    obtain member | member := List.mem_append.mp member
    · exact first.before entry member
    · exact Nat.le_trans (second.before entry member) first.onward.rest.length_le
  taken entry member := by
    obtain member | member := List.mem_append.mp member
    · exact (first.taken entry member).imp_right
        (Nat.lt_of_le_of_lt second.onward.rest.length_le)
    · exact second.taken entry member
  once := by
    refine List.pairwise_append.mpr
      ⟨first.once, second.once, fun entry member other next same => ?_⟩
    have early := first.taken entry member
    have late := second.before other next
    omega

/-- One more fault is recorded, on a token that has been taken and not been blamed. -/
theorem record
    {blamed : List (Fault × Nat)}
    (blaming : cursor.Blaming between blamed)
    {fault : Fault}
    {left : Nat}
    (blames : cursor.Blames fault left)
    (fresh : ∀ entry ∈ blamed, entry.2 = left → left = 0)
    (before : left ≤ cursor.rest.length)
    (onward : between.Onward later)
    (recorded : later.faults = between.faults.push fault)
    (taken : left = 0 ∨ later.rest.length < left) :
    cursor.Blaming later (blamed ++ [(fault, left)]) where
  onward := blaming.onward.trans onward
  added := by simp [recorded, blaming.added]
  blames entry member := by
    obtain member | member := List.mem_append.mp member
    · exact blaming.blames entry member
    · exact List.mem_singleton.mp member ▸ blames
  before entry member := by
    obtain member | member := List.mem_append.mp member
    · exact blaming.before entry member
    · exact List.mem_singleton.mp member ▸ before
  taken entry member := by
    obtain member | member := List.mem_append.mp member
    · exact (blaming.taken entry member).imp_right (Nat.lt_of_le_of_lt onward.rest.length_le)
    · exact List.mem_singleton.mp member ▸ taken
  once := by
    refine List.pairwise_append.mpr ⟨blaming.once, .cons (by simp) .nil, ?_⟩
    intro entry member last isLast same
    obtain rfl := List.mem_singleton.mp isLast
    exact same.trans (fresh entry member same)

end Cursor.Blaming

variable {α β : Type}

/-- No token has been blamed twice since the given cursor, and a failure blames the token
that is next. -/
def Cursor.EndsBlaming (cursor : Cursor) : EStateM.Result Fault Cursor α → Prop
  | .ok _ later => ∃ blamed, cursor.Blaming later blamed
  | .error fault later =>
      later.Blames fault later.rest.length ∧ ∃ blamed, cursor.Blaming later blamed

theorem Cursor.Blaming.ends
    {cursor between : Cursor}
    {blamed : List (Fault × Nat)}
    (blaming : cursor.Blaming between blamed)
    {result : EStateM.Result Fault Cursor α}
    (following : between.EndsBlaming result) :
    cursor.EndsBlaming result := by
  cases result with
  | ok value later =>
      obtain ⟨others, more⟩ := following
      exact ⟨_, blaming.trans more⟩
  | error fault later =>
      obtain ⟨failure, others, more⟩ := following
      exact ⟨failure, _, blaming.trans more⟩

/-- The work blames no token twice, and if it fails, it does so at the token that is
next. -/
def BlamesOnce (work : Parse α) : Prop :=
  ∀ cursor : Cursor, cursor.EndsBlaming (work cursor)

namespace BlamesOnce

/-- Work that always succeeds and records nothing. -/
theorem of_onward
    {work : Parse α}
    (onward : GoesOnward work)
    (silent : ∀ cursor, ∃ value later, work cursor = .ok value later ∧
      later.faults = cursor.faults) :
    BlamesOnce work := by
  intro cursor
  obtain ⟨value, later, equation, same⟩ := silent cursor
  rw [equation]
  exact ⟨[], .of_onward (onward.after_ok equation) same⟩

theorem pure (value : α) : BlamesOnce (Pure.pure value) :=
  .of_onward (.pure value) fun cursor => ⟨value, cursor, rfl, rfl⟩

theorem bind
    {work : Parse α}
    {next : α → Parse β}
    (first : BlamesOnce work)
    (second : ∀ value, BlamesOnce (next value)) :
    BlamesOnce (work >>= next) := by
  intro cursor
  have before := first cursor
  cases equation : work cursor with
  | ok value between =>
      rw [equation] at before
      rw [bind_of_ok equation]
      obtain ⟨blamed, blaming⟩ := before
      exact blaming.ends (second value between)
  | error fault later =>
      rw [equation] at before
      rw [bind_of_error equation]
      exact before

theorem map
    {work : Parse α}
    (blames : BlamesOnce work)
    (change : α → β) :
    BlamesOnce (change <$> work) :=
  blames.bind fun value => .pure (change value)

end BlamesOnce

theorem blamesOnce_peek : BlamesOnce peek :=
  .of_onward onward_peek fun cursor => ⟨_, cursor, rfl, rfl⟩

theorem blamesOnce_check (kind : Kind) : BlamesOnce (check kind) :=
  .of_onward (onward_check kind) fun cursor => ⟨_, cursor, rfl, rfl⟩

theorem blamesOnce_skip : BlamesOnce skip :=
  .of_onward onward_skip fun _ => ⟨(), _, rfl, rfl⟩

/-- Whether or not the next token is taken, nothing is recorded. -/
theorem acceptAny_silent (wanted : List Kind) (cursor : Cursor) :
    ∃ found later, acceptAny wanted cursor = .ok found later ∧ later.faults = cursor.faults := by
  unfold acceptAny
  split
  · exact ⟨none, cursor, rfl, rfl⟩
  · split
    · exact ⟨_, _, rfl, rfl⟩
    · exact ⟨none, cursor, rfl, rfl⟩

theorem blamesOnce_acceptAny (wanted : List Kind) : BlamesOnce (acceptAny wanted) :=
  .of_onward (onward_acceptAny wanted) (acceptAny_silent wanted)

theorem blamesOnce_accept (kind : Kind) : BlamesOnce (accept kind) :=
  blamesOnce_acceptAny [kind]

theorem blamesOnce_addNode (node : Node) : BlamesOnce (addNode node) :=
  .of_onward (onward_addNode node) fun _ => ⟨_, _, rfl, rfl⟩

theorem blamesOnce_add (kind : NodeKind) (token : Token) (children : List (Option NodeId)) :
    BlamesOnce (add kind token children) :=
  blamesOnce_addNode _

/-- A failure at the token that is next. -/
theorem blamesOnce_throw_peek (cause : Cause) :
    BlamesOnce (peek >>= fun token => throw (Fault.atToken cause token) : Parse α) := by
  intro cursor
  refine ⟨⟨cause, ?_⟩, [], .of_onward (.refl cursor) rfl⟩
  rw [cursor.tokenAt_length]

theorem blamesOnce_noExpression : BlamesOnce (noExpression : Parse α) :=
  blamesOnce_throw_peek _

theorem blamesOnce_expect (kind : Kind) (message : String) : BlamesOnce (expect kind message) := by
  refine (blamesOnce_accept kind).bind fun found => ?_
  cases found with
  | some token => exact .pure token
  | none => exact blamesOnce_throw_peek _

theorem blamesOnce_separated
    {item : Parse NodeId}
    (blames : BlamesOnce item)
    (rounds : Nat)
    (found : Array (Option NodeId)) :
    BlamesOnce (separated item rounds found) := by
  induction rounds generalizing found with
  | zero => exact .pure found
  | succ rounds inductionHypothesis =>
      refine blames.bind fun id => .bind (blamesOnce_accept .comma) fun comma => ?_
      cases comma with
      | some _ => exact inductionHypothesis _
      | none => exact .pure _

theorem blamesOnce_itemsBefore
    {item : Parse NodeId}
    (blames : BlamesOnce item)
    (closing : Kind)
    (rounds : Nat) :
    BlamesOnce (itemsBefore closing item rounds) := by
  refine .bind (blamesOnce_check closing) fun closes => ?_
  cases closes with
  | true => exact .pure []
  | false => exact (blamesOnce_separated blames rounds #[]).bind fun all => .pure all.toList

section Rules

variable {read : Phrase → Parse NodeId} (blames : ∀ phrase, BlamesOnce (read phrase))
  (rounds : Nat)

include blames

theorem blamesOnce_primary : BlamesOnce (primary read rounds) := by
  refine .bind blamesOnce_peek fun token => ?_
  cases constantOf? token with
  | some constant => exact .bind blamesOnce_skip fun _ => blamesOnce_addNode _
  | none =>
      dsimp only
      split
      · exact .bind blamesOnce_skip fun _ => blamesOnce_add _ _ _
      · exact .bind blamesOnce_skip fun _ => .bind (blames _) fun inner =>
          .bind (blamesOnce_expect _ _) fun _ => blamesOnce_add _ _ _
      · exact .bind blamesOnce_skip fun _ =>
          .bind (blamesOnce_itemsBefore (blames _) _ _) fun elements =>
          .bind (blamesOnce_expect _ _) fun _ => blamesOnce_add _ _ _
      · exact blamesOnce_noExpression

theorem blamesOnce_applications (remaining : Nat) (target : NodeId) :
    BlamesOnce (applications read rounds remaining target) := by
  induction remaining generalizing target with
  | zero => exact .pure target
  | succ remaining inductionHypothesis =>
      refine .bind (blamesOnce_accept _) fun opening => ?_
      cases opening with
      | some _ =>
          exact .bind (blamesOnce_itemsBefore (blames _) _ _) fun _ =>
            .bind (blamesOnce_expect _ _) fun _ => .bind (blamesOnce_add _ _ _) fun call =>
            inductionHypothesis call
      | none =>
          refine .bind (blamesOnce_accept _) fun bracket => ?_
          cases bracket with
          | some _ =>
              exact .bind (blames _) fun _ => .bind (blamesOnce_expect _ _) fun _ =>
                .bind (blamesOnce_add _ _ _) fun element => inductionHypothesis element
          | none => exact .pure target

theorem blamesOnce_unary : BlamesOnce (unary read rounds) := by
  refine .bind (blamesOnce_acceptAny _) fun operator => ?_
  cases operator with
  | some _ => exact .bind (blames _) fun _ => blamesOnce_add _ _ _
  | none =>
      exact .bind (blamesOnce_primary blames rounds) fun target =>
        blamesOnce_applications blames rounds rounds target

omit blames in
theorem blamesOnce_chain
    {level : Level}
    {operand : Parse NodeId}
    (operandBlames : BlamesOnce operand)
    (remaining : Nat)
    (left : NodeId) :
    BlamesOnce (chain level operand remaining left) := by
  induction remaining generalizing left with
  | zero => exact .pure left
  | succ remaining inductionHypothesis =>
      refine .bind (blamesOnce_acceptAny _) fun operator => ?_
      cases operator with
      | some _ =>
          exact operandBlames.bind fun _ => .bind (blamesOnce_add _ _ _) fun joined =>
            inductionHypothesis joined
      | none => exact .pure left

theorem blamesOnce_binary (levels : List Level) : BlamesOnce (binary read rounds levels) := by
  induction levels with
  | nil => exact blamesOnce_unary blames rounds
  | cons level tighter inductionHypothesis =>
      exact inductionHypothesis.bind fun left => blamesOnce_chain inductionHypothesis rounds left

/-- The equals sign of an assignment without a proper target is blamed after its value has
been read. It stands before everything that is blamed in the value. -/
theorem blamesOnce_assignment (target : NodeId) :
    BlamesOnce (accept .equal >>= afterTarget read target) := by
  intro cursor
  obtain ⟨found, middle, accepted, silent⟩ :
      ∃ found later, accept .equal cursor = .ok found later ∧ later.faults = cursor.faults :=
    acceptAny_silent [.equal] cursor
  have past : cursor.Blaming middle [] := .of_onward ((onward_accept _).after_ok accepted) silent
  rw [bind_of_ok accepted]
  cases found with
  | none => exact ⟨_, past⟩
  | some equals =>
      obtain ⟨front, -⟩ := accept_eq_some accepted
      have length : cursor.rest.length = middle.rest.length + 1 := by
        rw [front, List.length_cons]
      have blamed : cursor.Blames (.atToken .invalidAssignmentTarget equals) cursor.rest.length :=
        ⟨_, by rw [cursor.tokenAt_length, Cursor.current, front, List.headD_cons]⟩
      have valueEnds := blames .expression middle
      rw [afterTarget_some]
      cases ends : read .expression middle with
      | error fault later =>
          rw [ends] at valueEnds
          rw [bind_of_error ends]
          exact past.ends valueEnds
      | ok value third =>
          rw [ends] at valueEnds
          rw [bind_of_ok ends, get_bind]
          obtain ⟨inValue, blaming⟩ := valueEnds
          have whole := past.trans blaming
          obtain ⟨node, -, -, same⟩ | same :=
            assigned_eq_or equals target value (third.arena.get? target)
          · rw [same]
            exact whole.ends (blamesOnce_add .assignment _ [some value] third)
          · rw [same]
            refine ⟨_, whole.record blamed (fun entry member same => ?_) (Nat.le_refl _)
              (onward_record _ third) rfl (.inr ?_)⟩
            · have inside := blaming.before entry member
              omega
            · have shorter := blaming.onward.rest.length_le
              change third.rest.length < _
              omega

theorem blamesOnce_expression : BlamesOnce (expression read rounds) := by
  rw [expression_eq]
  exact (blamesOnce_binary blames rounds levels).bind fun target =>
    blamesOnce_assignment blames target

theorem blamesOnce_variableDeclaration : BlamesOnce (variableDeclaration read) := by
  refine .bind (blamesOnce_expect _ _) fun name => .bind (blamesOnce_accept _) fun equals => ?_
  have following : ∀ initializer : Option NodeId,
      BlamesOnce (do
        let _ ← expect .semicolon "expected ';' after variable declaration"
        add .declaration name [initializer]) :=
    fun initializer => .bind (blamesOnce_expect _ _) fun _ => blamesOnce_add _ _ _
  cases equals with
  | some _ => exact ((blames _).map some).bind following
  | none => exact (BlamesOnce.pure none).bind following

theorem blamesOnce_attempt : BlamesOnce (attempt read) := by
  refine .bind (blamesOnce_accept _) fun word => ?_
  cases word with
  | some _ => exact blamesOnce_variableDeclaration blames
  | none => exact blames _

/-- The token at which a declaration is lost is taken before reading goes on. -/
theorem blaming_declaration (cursor : Cursor) :
    ∃ blamed, cursor.Blaming (declaration read cursor).2 blamed := by
  have attempted := blamesOnce_attempt blames cursor
  rw [declaration_eq_recovering]
  cases ends : attempt read cursor with
  | ok id later =>
      rw [ends] at attempted
      rw [recovering_of_ok ends]
      exact attempted
  | error fault later =>
      rw [ends] at attempted
      rw [recovering_of_error ends]
      obtain ⟨⟨cause, same⟩, blamed, blaming⟩ := attempted
      have onward : later.Onward
          { later with faults := later.faults.push fault, rest := resume later.rest } :=
        ⟨resume_suffix _, rfl, Arena.le_refl _, by simp⟩
      refine ⟨_, blaming.record ⟨cause, blaming.onward.tokenAt_eq (Nat.le_refl _) ▸ same⟩
        (fun entry member equal => ?_) blaming.onward.rest.length_le onward rfl ?_⟩
      · have before := blaming.taken entry member
        omega
      · cases front : later.rest with
        | nil => exact .inl rfl
        | cons token others => exact .inr (resume_shorter (List.cons_ne_nil token others))

theorem blaming_declarationsBefore
    (closing : Option Kind)
    (remaining : Nat)
    (found : Array (Option NodeId))
    (cursor : Cursor) :
    ∃ blamed, cursor.Blaming (declarationsBefore read closing remaining found cursor).2 blamed := by
  induction remaining generalizing found cursor with
  | zero => exact ⟨[], .of_onward (.refl cursor) rfl⟩
  | succ remaining inductionHypothesis =>
      cases front : cursor.rest with
      | nil =>
          rw [declarationsBefore_of_nil front]
          exact ⟨[], .of_onward (.refl cursor) rfl⟩
      | cons token others =>
          by_cases closes : some token.kind = closing
          · rw [declarationsBefore_of_closing front closes]
            exact ⟨[], .of_onward (.refl cursor) rfl⟩
          · rw [declarationsBefore_succ front closes]
            obtain ⟨blamed, blaming⟩ := blaming_declaration blames cursor
            obtain ⟨more, following⟩ := inductionHypothesis _ (declaration read cursor).2
            exact ⟨_, blaming.trans following⟩

theorem blamesOnce_blockRest : BlamesOnce (blockRest read rounds) := by
  have found : BlamesOnce (unfailing (declarationsBefore read (some .rightBrace) rounds #[])) :=
    fun cursor => blaming_declarationsBefore blames _ _ _ cursor
  exact found.bind fun ids => .bind (blamesOnce_expect _ _) fun _ => .pure ids

omit blames in
theorem blamesOnce_parameter : BlamesOnce parameter :=
  .bind (blamesOnce_expect _ _) fun _ => blamesOnce_add _ _ _

theorem blamesOnce_functionDeclaration : BlamesOnce (functionDeclaration read rounds) :=
  .bind (blamesOnce_expect _ _) fun _ => .bind (blamesOnce_expect _ _) fun _ =>
    .bind (blamesOnce_itemsBefore blamesOnce_parameter _ _) fun _ =>
    .bind (blamesOnce_expect _ _) fun _ => .bind (blamesOnce_expect _ _) fun _ =>
    .bind (blamesOnce_blockRest blames rounds) fun _ => .bind (blamesOnce_add _ _ _) fun _ =>
    blamesOnce_add _ _ _

theorem blamesOnce_branch (keyword : Token) : BlamesOnce (branch read keyword) := by
  refine .bind (blamesOnce_expect _ _) fun _ => .bind (blames _) fun condition =>
    .bind (blamesOnce_expect _ _) fun _ => .bind (blames _) fun consequence =>
    .bind (blamesOnce_accept _) fun other => ?_
  cases other with
  | some _ => exact .bind ((blames _).map some) fun _ => blamesOnce_add _ _ _
  | none => exact .bind (.pure none) fun _ => blamesOnce_add _ _ _

theorem blamesOnce_loop (keyword : Token) : BlamesOnce (loop read keyword) :=
  .bind (blamesOnce_expect _ _) fun _ => .bind (blames _) fun _ =>
    .bind (blamesOnce_expect _ _) fun _ => .bind (blames _) fun _ => blamesOnce_add _ _ _

theorem blamesOnce_giveBack (keyword : Token) : BlamesOnce (giveBack read keyword) := by
  refine .bind (blamesOnce_check _) fun empty => ?_
  cases empty with
  | true =>
      exact .bind (.pure none) fun _ => .bind (blamesOnce_expect _ _) fun _ => blamesOnce_add _ _ _
  | false =>
      exact .bind ((blames _).map some) fun _ => .bind (blamesOnce_expect _ _) fun _ =>
        blamesOnce_add _ _ _

theorem blamesOnce_statement : BlamesOnce (statement read rounds) := by
  refine .bind blamesOnce_peek fun token => ?_
  split
  · exact .bind blamesOnce_skip fun _ => blamesOnce_functionDeclaration blames rounds
  · exact .bind blamesOnce_skip fun _ => .bind (blames _) fun _ =>
      .bind (blamesOnce_expect _ _) fun _ => blamesOnce_add _ _ _
  · exact .bind blamesOnce_skip fun _ => blamesOnce_branch blames token
  · exact .bind blamesOnce_skip fun _ => blamesOnce_loop blames token
  · exact .bind blamesOnce_skip fun _ => blamesOnce_giveBack blames token
  · exact .bind blamesOnce_skip fun _ => .bind (blamesOnce_blockRest blames rounds) fun _ =>
      blamesOnce_add _ _ _
  · exact .bind (blamesOnce_expression blames rounds) fun _ =>
      .bind (blamesOnce_expect _ _) fun _ => blamesOnce_add _ _ _

theorem blamesOnce_rule (phrase : Phrase) : BlamesOnce (phrase.rule read rounds) := by
  cases phrase with
  | statement => exact blamesOnce_statement blames rounds
  | expression => exact blamesOnce_expression blames rounds
  | unary => exact blamesOnce_unary blames rounds

end Rules

theorem blamesOnce_readWithin (count : Nat) (phrase : Phrase) :
    BlamesOnce (phrase.readWithin count) := by
  induction count generalizing phrase with
  | zero => exact blamesOnce_noExpression
  | succ count inductionHypothesis =>
      intro cursor
      rw [readWithin_succ]
      exact blamesOnce_rule inductionHypothesis (count + 1) phrase cursor

end Tree
end Scripting
