import Scripting.Proofs.Reading.Programs
import Scripting.Proofs.Reading.Prospects

/-!
# Missing tokens are reported where the input becomes hopeless

Nothing is taken that cannot go on to a program, and before it is reported that something is
missing every way to go on has been tried.  So the first report of this sort lies at the first
token with which what has been taken can no longer become a program, in the grammar that asks
nothing of the target of an assignment.

Every part of reading follows its phrases: it brings a cursor which awaits a phrase before
something else to what comes behind the phrase (`follows_expression` and the others, by
induction on the number of tokens in `followsPhrases_readWithin`).

Main statement: `first_missing_is_hopeless`.
-/

namespace Scripting
namespace Tree

open Token (Kind)
open Loose (Form oneOf byFirst Possible Avoids Closes extenders avoids_oneOf_mul avoids_form_mul
  closes_oneOf_mul cons_mem_byFirst_add_mul)

variable {read : Phrase → Parse NodeId} {count rounds : Nat} {following : Language Token}

/-- What may follow a statement before which an `else` belongs to a branch: an `else` may only
begin it if a statement may stand before the same again. -/
def ElseGoesOn (following : Language Token) : Prop :=
  ∀ token others, token.kind ∈ [Kind.keyword .elseWord] → token :: others ∈ following →
    others ∈ Form.statement.language * following

theorem ElseGoesOn.of_avoids (avoids : Avoids following [.keyword .elseWord]) :
    ElseGoesOn following :=
  avoids.apart

/-- The readers of phrases with at most `count` tokens follow them. -/
structure FollowsPhrases (read : Phrase → Parse NodeId) (count : Nat) : Prop where
  onward (phrase : Phrase) : GoesOnward (read phrase)
  takes : Takes (read .statement)
  expression (following : Language Token) [Possible following] : Closes following →
    Follows count (read .expression) (Form.expression.language * following) following
  unary (following : Language Token) [Possible following] : Avoids following (extenders []) →
    Follows count (read .unary) (Form.unary.language * following) following
  statement (following : Language Token) [Possible following] : ElseGoesOn following →
    Follows count (read .statement) (Form.statement.language * following) following

/-! ## Lists -/

section Lists

variable {item : Parse NodeId} {each all : Language Token} {kinds : List Kind}
  (list : all = each * (oneOf [.comma] * all + 1))
  (itemFollows : ∀ (following : Language Token) [Possible following], Avoids following kinds →
    Follows count item (each * following) following)
  (comma : .comma ∉ kinds)

include list itemFollows comma

/-- A list follows when what comes behind its first comma does. -/
theorem follows_separated_of_rest
    [Possible following]
    {limit : Nat}
    (avoids : Avoids following (.comma :: kinds))
    (within : limit ≤ count)
    (rest : ∀ less, limit = less + 1 → ∀ found,
      Follows less (separated item rounds found) (all * following) following)
    (found : Array (Option NodeId)) :
    Follows limit (separated item (rounds + 1) found) (all * following) following := by
  have parts : all * following = each * (oneOf [.comma] * (all * following) + following) := by
    conv_lhs => rw [list]
    simp only [mul_assoc, add_mul, one_mul]
  rw [parts]
  have stops : Avoids (oneOf [.comma] * (all * following) + following) kinds :=
    .add (avoids_oneOf_mul (by simpa using comma)) (avoids.mono (List.subset_cons_self _ _))
  refine ((itemFollows _ stops).restrict within).bind fun id => ?_
  have noComma : Avoids following [.comma] := avoids.mono (by simp)
  exact .acceptAny noComma.apart (fun less more token member => rest less more _) (follows_pure _)

theorem follows_separated
    [Possible following]
    {limit : Nat}
    (avoids : Avoids following (.comma :: kinds))
    (within : limit ≤ count)
    (enough : limit ≤ rounds)
    (found : Array (Option NodeId)) :
    Follows limit (separated item (rounds + 1) found) (all * following) following := by
  induction rounds generalizing limit found with
  | zero =>
      refine follows_separated_of_rest list itemFollows comma avoids within ?_ found
      intro less more
      omega
  | succ rounds inductionHypothesis =>
      refine follows_separated_of_rest list itemFollows comma avoids within ?_ found
      intro less more found
      exact inductionHypothesis (by omega) (by omega) found

/-- A list in brackets, which may be empty. -/
theorem follows_itemsBefore
    [Possible following]
    {closing : Kind}
    (other : closing ∉ .comma :: kinds)
    (opens : ∀ following, Avoids (all * following) [closing]) :
    Follows count (itemsBefore closing item (count + 1))
      ((1 + all) * (oneOf [closing] * following)) (oneOf [closing] * following) := by
  rw [add_mul, one_mul]
  refine .check (opens _) (follows_pure []) ?_
  have stops : Avoids (oneOf [closing] * following) (.comma :: kinds) :=
    avoids_oneOf_mul (by simpa using other)
  exact (follows_separated list itemFollows comma stops (Nat.le_refl _) (Nat.le_refl _) #[]).bind
    fun all => follows_pure all.toList

end Lists

theorem follows_arguments
    (reads : FollowsPhrases read count)
    (following : Language Token)
    [Possible following]
    {closing : Kind}
    (closes : closing = .rightParen ∨ closing = .rightBracket) :
    Follows count (itemsBefore closing (read .expression) (count + 1))
      (Form.arguments.language * (oneOf [closing] * following)) (oneOf [closing] * following) := by
  rw [Form.language_arguments]
  refine follows_itemsBefore Form.language_items reads.expression (by decide) ?_ fun following => ?_
  · rcases closes with rfl | rfl <;> decide
  · rcases closes with rfl | rfl <;> exact avoids_form_mul .items (by decide) rfl

theorem follows_parameter [Possible following] :
    Follows count parameter (oneOf [.identifier] * following) following :=
  (follows_expect _ _).bind fun _ => follows_add _ _ _

theorem follows_parameters [Possible following] :
    Follows count (itemsBefore .rightParen parameter (count + 1))
      (Form.parameters.language * (oneOf [.rightParen] * following))
      (oneOf [.rightParen] * following) := by
  rw [Form.language_parameters]
  have names (following : Language Token) [Possible following] (_ : Avoids following []) :
      Follows count parameter (oneOf [.identifier] * following) following :=
    follows_parameter
  exact follows_itemsBefore Form.language_names names (by decide) (by decide)
    fun following => avoids_form_mul .names (by decide) rfl

/-! ## Expressions -/

section Expressions

variable (reads : FollowsPhrases read count)

/-- Constants begin with no name and no bracket. -/
theorem avoids_constants_mul :
    Avoids (Form.constants * following) [.identifier, .leftParen, .leftBracket] := by
  rintro token others ⟨_, ⟨constant, value, spelled, rfl⟩, back, -, same⟩
  obtain ⟨rfl, -⟩ := List.cons.inj same
  cases spelled with
  | null kind => simp [kind]
  | truth kind => simp [kind]
  | falsehood kind => simp [kind]
  | literal kind => rcases kind with kind | kind <;> simp [kind]

/-- A token that is a constant by itself is a whole primary expression. -/
theorem cons_mem_primary_mul_of_constantOf?
    {token : Token}
    {value : Constant}
    {others : List Token}
    (constant : constantOf? token = some value) :
    token :: others ∈ (byFirst Form.simple + Form.constants) * following ↔ others ∈ following := by
  rw [add_mul]
  constructor
  · rintro (member | ⟨_, ⟨_, _, _, rfl⟩, back, isBack, same⟩)
    · obtain ⟨_, _, same, kind⟩ := Loose.exists_of_mem_byFirst_mul member
      obtain ⟨rfl, -⟩ := List.cons.inj same
      simp only [Form.simple, List.map_cons, List.map_nil, List.mem_cons, List.not_mem_nil,
        or_false] at kind
      rcases kind with kind | kind | kind <;> simp [constantOf?, kind] at constant
    · obtain ⟨rfl, rfl⟩ := List.cons.inj same
      exact isBack
  · intro member
    have single : [token] ∈ Form.constants := ⟨token, value, constantOf?_spelledBy constant, rfl⟩
    exact .inr (Language.append_mem_mul single member)

/-- What begins with a primary expression begins with a constant, a name or a bracket. -/
theorem exists_of_mem_primary_mul
    {input : List Token}
    (member : input ∈ (byFirst Form.simple + Form.constants) * following) :
    ∃ token others, input = token :: others ∧
      (token.kind ∈ [.identifier, .leftParen, .leftBracket] ∨
        ∃ value, constantOf? token = some value) := by
  rw [add_mul] at member
  rcases member with member | ⟨_, ⟨token, value, spelled, rfl⟩, back, -, rfl⟩
  · obtain ⟨token, others, rfl, kind⟩ := Loose.exists_of_mem_byFirst_mul member
    exact ⟨token, others, rfl, .inl kind⟩
  · exact ⟨token, _, rfl, .inr ⟨value, constantOf?_of_spelledBy spelled⟩⟩

/-- How a primary expression goes on after its first token. -/
theorem cons_mem_primary_mul_of_kind
    (kind : Kind)
    (continuation : Language Token)
    (among : (kind, continuation) ∈ Form.simple)
    {token : Token}
    (same : token.kind = kind)
    (others : List Token) :
    token :: others ∈ (byFirst Form.simple + Form.constants) * following ↔
      others ∈ continuation * following := by
  refine cons_mem_byFirst_add_mul (by simp [Form.simple]) among (avoids_constants_mul.mono ?_) same
  refine List.cons_subset.mpr ⟨?_, List.nil_subset _⟩
  have member : kind ∈ Form.simple.map Prod.fst := List.mem_map.mpr ⟨_, among, rfl⟩
  exact member

include reads in
theorem follows_primary [Possible following] :
    Follows (count + 1) (primary read (count + 1)) (Form.primary.language * following)
      following := by
  have possible : Possible (Form.primary.language * following) := inferInstance
  rw [Form.language_primary] at possible ⊢
  refine .peek fun token => ?_
  cases constant : constantOf? token with
  | some value =>
      refine .skip (fun ends => ?_)
        (fun others => cons_mem_primary_mul_of_constantOf? constant) (follows_addNode _)
      simp [constantOf?, ends] at constant
  | none =>
      dsimp only
      split
      next kind =>
          refine .skip (by simp [kind])
            (cons_mem_primary_mul_of_kind _ 1 (by simp [Form.simple]) kind) ?_
          rw [one_mul]
          exact follows_add _ _ _
      next kind =>
          refine .skip (by simp [kind])
            (cons_mem_primary_mul_of_kind _ _ (.tail _ (.head _)) kind) ?_
          rw [mul_assoc]
          have closes : Closes (oneOf [.rightParen] * following) := closes_oneOf_mul (by decide)
          exact (reads.expression _ closes).bind fun inner =>
            (follows_expect _ _).bind fun _ => follows_add _ _ _
      next kind =>
          refine .skip (by simp [kind])
            (cons_mem_primary_mul_of_kind _ _ (.tail _ (.tail _ (.head _))) kind) ?_
          rw [mul_assoc]
          exact (follows_arguments reads _ (.inr rfl)).bind fun elements =>
            (follows_expect _ _).bind fun _ => follows_add _ _ _
      next noName noParen noBracket =>
          refine followsFrom_noExpression fun others member => ?_
          obtain ⟨first, rest, rfl, opens⟩ := exists_of_mem_primary_mul member
          refine ⟨first, rest, rfl, ?_⟩
          rintro rfl
          rcases opens with kind | ⟨value, found⟩
          · simp only [List.mem_cons, List.not_mem_nil, or_false] at kind
            rcases kind with kind | kind | kind
            · exact noName kind
            · exact noParen kind
            · exact noBracket kind
          · simp [found] at constant

/-- Calls and indexings go on as long as their brackets open. -/
theorem suffixes_mul :
    Form.suffixes.language * following =
      oneOf [.leftParen] * (Form.arguments.language * (oneOf [.rightParen] *
          (Form.suffixes.language * following))) +
        (oneOf [.leftBracket] * (Form.expression.language * (oneOf [.rightBracket] *
          (Form.suffixes.language * following))) + following) := by
  conv_lhs => rw [Form.language_suffixes]
  simp only [mul_assoc, add_mul, one_mul]

include reads in
theorem follows_applications
    [Possible following]
    (avoids : Avoids following (extenders []))
    {remaining : Nat}
    (within : remaining ≤ count + 1)
    (target : NodeId) :
    Follows remaining (applications read (count + 1) remaining target)
      (Form.suffixes.language * following) following := by
  induction remaining generalizing target with
  | zero =>
      rw [suffixes_mul]
      refine follows_pure_at_end target (fun others member => .inr (.inr member)) ?_
      rintro (begins | begins | member)
      · exact absurd begins Loose.nil_not_mem_oneOf_mul
      · exact absurd begins Loose.nil_not_mem_oneOf_mul
      · exact member
  | succ remaining inductionHypothesis =>
      have again := fun target => inductionHypothesis (by omega) target
      have noCall : Avoids (oneOf [.leftBracket] * (Form.expression.language *
          (oneOf [.rightBracket] * (Form.suffixes.language * following))) + following)
          [.leftParen] :=
        .add (avoids_oneOf_mul (by decide)) (avoids.mono (by decide))
      have noIndex : Avoids following [.leftBracket] := avoids.mono (by decide)
      rw [suffixes_mul]
      refine .acceptAny noCall.apart (fun less more opening _ => ?_)
        (.acceptAny noIndex.apart (fun less more opening _ => ?_) (follows_pure target))
      · obtain rfl : remaining = less := by omega
        have arguments := follows_arguments reads (Form.suffixes.language * following) (.inl rfl)
        exact (arguments.restrict (by omega)).bind fun _ => (follows_expect _ _).bind fun _ =>
          (follows_add _ _ _).bind fun call => again call
      · obtain rfl : remaining = less := by omega
        have closes : Closes (oneOf [.rightBracket] * (Form.suffixes.language * following)) :=
          closes_oneOf_mul (by decide)
        exact ((reads.expression _ closes).restrict (by omega)).bind fun _ =>
          (follows_expect _ _).bind fun _ => (follows_add _ _ _).bind fun element => again element

include reads in
theorem follows_unary
    [Possible following]
    (avoids : Avoids following (extenders [])) :
    Follows (count + 1) (unary read (count + 1)) (Form.unary.language * following) following := by
  have parts : Form.unary.language * following =
      oneOf [.bang, .minus] * (Form.unary.language * following) +
        Form.application.language * following := by
    conv_lhs => rw [Form.language_unary]
    simp only [mul_assoc, add_mul]
  have unsigned : Avoids (Form.application.language * following) [.bang, .minus] :=
    avoids_form_mul .application (by decide) rfl
  rw [parts]
  refine .acceptAny unsigned.apart (fun less more operator _ => ?_) ?_
  · obtain rfl : count = less := by omega
    exact (reads.unary _ avoids).bind fun operand => follows_add _ _ _
  · rw [Form.language_application, mul_assoc]
    exact (follows_primary reads).bind fun target =>
      follows_applications reads avoids (Nat.le_refl _) target

/-- Operators of a strength go on with their right operands. -/
theorem operands_mul (strength : Strength) (tighter : List Strength) :
    (Form.operands strength tighter).language * following =
      oneOf strength.operators * ((Form.operation tighter).language *
        ((Form.operands strength tighter).language * following)) + following := by
  conv_lhs => rw [Form.language_operands]
  simp only [mul_assoc, add_mul, one_mul]

/-- Behind an operand stands nothing that would go on with it. -/
theorem avoids_operands_mul
    {strength : Strength}
    {tighter : List Strength}
    (other : strength ∉ tighter)
    (avoids : Avoids following (extenders (strength :: tighter))) :
    Avoids ((Form.operands strength tighter).language * following) (extenders tighter) := by
  rw [operands_mul]
  exact .add (avoids_oneOf_mul (Loose.operator_not_mem_extenders other))
    (avoids.mono (Loose.extenders_subset_cons strength tighter))

theorem follows_chain
    [Possible following]
    {strength : Strength}
    {tighter : List Strength}
    {operand : Parse NodeId}
    (other : strength ∉ tighter)
    (avoids : Avoids following (extenders (strength :: tighter)))
    (operandFollows : ∀ (following : Language Token) [Possible following],
      Avoids following (extenders tighter) →
        Follows count operand ((Form.operation tighter).language * following) following)
    {remaining : Nat}
    (within : remaining ≤ count)
    (left : NodeId) :
    Follows remaining (chain strength.level operand remaining left)
      ((Form.operands strength tighter).language * following) following := by
  have stops := avoids_operands_mul other avoids
  induction remaining generalizing left with
  | zero =>
      rw [operands_mul]
      refine follows_pure_at_end left (fun others member => .inr member) ?_
      exact fun member => member.resolve_left Loose.nil_not_mem_oneOf_mul
  | succ remaining inductionHypothesis =>
      have noOperator : Avoids following strength.operators :=
        avoids.mono (by simp [extenders])
      rw [operands_mul]
      refine .acceptAny noOperator.apart (fun less more operator _ => ?_) (follows_pure left)
      obtain rfl : remaining = less := by omega
      exact ((operandFollows _ stops).restrict (by omega)).bind fun right =>
        (follows_add _ _ _).bind fun joined => inductionHypothesis (by omega) joined

include reads in
theorem follows_binary
    {strengths : List Strength}
    (distinct : strengths.Nodup)
    (following : Language Token)
    [Possible following]
    (avoids : Avoids following (extenders strengths)) :
    Follows (count + 1) (binary read (count + 1) (strengths.map Strength.level))
      ((Form.operation strengths).language * following) following := by
  induction strengths generalizing following with
  | nil =>
      rw [Form.language_operation_nil]
      exact follows_unary reads avoids
  | cons strength tighter inductionHypothesis =>
      obtain ⟨other, distinct⟩ := List.nodup_cons.mp distinct
      have operand := inductionHypothesis distinct
      rw [Form.language_operation_cons, mul_assoc]
      exact (operand _ (avoids_operands_mul other avoids)).bind fun left =>
        follows_chain other avoids operand (Nat.le_refl _) left

theorem follows_assigned (equals : Token) (target value : NodeId) (found : Option Node) :
    Follows count (assigned equals target value found) following following := by
  rcases assigned_eq_or equals target value found with ⟨node, -, -, same⟩ | same
  · rw [same]
    exact follows_add _ _ _
  · rw [same]
    exact (follows_record rfl).bind fun _ => follows_pure target

include reads in
theorem follows_expression
    [Possible following]
    (closes : Closes following) :
    Follows (count + 1) (expression read (count + 1)) (Form.expression.language * following)
      following := by
  have parts : Form.expression.language * following =
      (Form.operation Strength.all).language *
        (oneOf [.equal] * (Form.expression.language * following) + following) := by
    conv_lhs => rw [Form.language_expression]
    simp only [mul_assoc, add_mul, one_mul]
  have stops : Avoids (oneOf [.equal] * (Form.expression.language * following) + following)
      (extenders Strength.all) :=
    .add (avoids_oneOf_mul (by decide)) (closes.mono (List.subset_cons_self _ _))
  have noEquals : Avoids following [.equal] := closes.mono (by simp)
  rw [parts, expression_eq, Strength.levels_eq]
  refine (follows_binary reads Strength.all_nodup _ stops).bind fun target => ?_
  refine .acceptAny noEquals.apart (fun less more equals _ => ?_) (follows_pure target)
  obtain rfl : count = less := by omega
  rw [afterTarget_some]
  exact (reads.expression _ closes).bind fun value => follows_get.bind fun cursor =>
    follows_assigned _ _ _ _

end Expressions

/-! ## Declarations -/

section Declarations

variable (reads : FollowsPhrases read count)

include reads

theorem follows_variableDeclaration
    [Possible following]
    {limit : Nat}
    (within : limit ≤ count) :
    Follows limit (variableDeclaration read)
      (oneOf [.identifier] * (Form.initializer * following)) following := by
  have parts : Form.initializer * following =
      oneOf [.equal] * (Form.expression.language * (oneOf [.semicolon] * following)) +
        oneOf [.semicolon] * following := by
    simp only [Form.initializer, mul_assoc, add_mul]
  have closes : Closes (oneOf [.semicolon] * following) := closes_oneOf_mul (by decide)
  have noEquals : Avoids (oneOf [.semicolon] * following) [.equal] := avoids_oneOf_mul (by decide)
  rw [parts]
  refine (follows_expect _ _).bind fun name => .acceptAny noEquals.apart
    (fun less more equals _ => ?_) ?_
  · exact (((reads.expression _ closes).restrict (by omega)).map some).bind fun _ =>
      (follows_expect _ _).bind fun _ => follows_add _ _ _
  · exact (follows_pure none).bind fun _ => (follows_expect _ _).bind fun _ => follows_add _ _ _

theorem follows_attempt
    [Possible following]
    (noElse : Avoids following [.keyword .elseWord]) :
    Follows count (attempt read) (Form.declaration.language * following) following := by
  have parts : Form.declaration.language * following =
      oneOf [.keyword .letWord] * (oneOf [.identifier] * (Form.initializer * following)) +
        Form.statement.language * following := by
    conv_lhs => rw [Form.language_declaration]
    simp only [mul_assoc, add_mul]
  have plain : Avoids (Form.statement.language * following) [.keyword .letWord] :=
    avoids_form_mul .statement (by decide) rfl
  rw [parts]
  exact .acceptAny plain.apart
    (fun less more word _ => follows_variableDeclaration reads (by omega))
    (reads.statement _ (.of_avoids noElse))

variable {goal : Language Token} {tokens : Token.Sequence} {cursor : Cursor}

/-- A declaration is read, or its loss is the doom of the program. -/
theorem awaits_declaration
    [Possible following]
    (noElse : Avoids following [.keyword .elseWord])
    (short : cursor.rest.length ≤ count)
    (awaits : cursor.Awaits goal tokens (Form.declaration.language * following)) :
    (declaration read cursor).2.Awaits goal tokens following := by
  have arrives := follows_attempt reads noElse goal tokens cursor short awaits
  have ending := (onward_attempt reads.onward cursor).ending
  rw [declaration_eq_recovering, recovering]
  cases ends : attempt read cursor with
  | ok id later =>
      rw [ends] at arrives
      exact arrives.2
  | error fault later =>
      rw [ends] at arrives ending
      refine ⟨?_, .inr ?_⟩
      · exact (congrArg Token.kind ending).trans awaits.closed
      · rw [Array.toList_push]
        exact arrives

omit reads in
/-- Declarations, if there are any, begin with one. -/
theorem declarations_mul :
    Form.declarations.language * following =
      Form.declaration.language * (Form.declarations.language * following) + following := by
  conv_lhs => rw [Form.language_declarations]
  simp only [mul_assoc, add_mul, one_mul]

section Closing

variable {closing : Option Kind}
  (closes : ∀ token others, token :: others ∈ following → some token.kind = closing)
  (apart : ∀ kind ∈ closing, kind ∉ .keyword .elseWord :: Form.declaration.openers)

include closes apart

omit reads closes in
/-- Before the token that closes declarations no further one is awaited. -/
theorem awaits_of_closing
    (ends : ∀ token ∈ cursor.rest.head?, some token.kind = closing)
    (awaits : cursor.Awaits goal tokens (Form.declarations.language * following)) :
    cursor.Awaits goal tokens following := by
  rw [declarations_mul] at awaits
  refine awaits.narrow (fun _ => .inr) fun others member same => member.resolve_left ?_
  rintro ⟨front, isFront, back, -, rfl⟩
  obtain ⟨first, rest, rfl, opens⟩ := Loose.opens isFront rfl
  exact apart first.kind (ends first same.symm).symm (List.mem_cons_of_mem _ opens)

omit reads in
theorem avoids_else_of_closing :
    Avoids (Form.declarations.language * following) [.keyword .elseWord] := by
  rw [declarations_mul]
  refine .add (avoids_form_mul .declaration (by decide) rfl) fun token others member kind => ?_
  exact apart token.kind (closes token others member).symm
    (List.mem_cons.mpr (.inl (List.mem_singleton.mp kind)))

/-- Declarations are read up to the token that closes them, and what follows them begins with
no other. -/
theorem awaits_declarationsBefore
    [Possible following]
    {remaining : Nat}
    (enough : cursor.rest.length ≤ remaining)
    (short : cursor.rest.length ≤ count)
    (found : Array (Option NodeId))
    (awaits : cursor.Awaits goal tokens (Form.declarations.language * following)) :
    (declarationsBefore read closing remaining found cursor).2.Awaits goal tokens following := by
  induction remaining generalizing cursor found with
  | zero =>
      have nothing := List.eq_nil_of_length_eq_zero (Nat.le_zero.mp enough)
      rw [declarationsBefore_of_nil nothing]
      exact awaits_of_closing apart (by simp [nothing]) awaits
  | succ remaining inductionHypothesis =>
      cases front : cursor.rest with
      | nil =>
          rw [declarationsBefore_of_nil front]
          exact awaits_of_closing apart (by simp [front]) awaits
      | cons token others =>
          by_cases ends : some token.kind = closing
          · rw [declarationsBefore_of_closing front ends]
            exact awaits_of_closing apart (by simpa [front] using ends) awaits
          · have shorter := declaration_shorter reads.onward reads.takes awaits.closed
              (show cursor.rest ≠ [] by simp [front])
            rw [declarationsBefore_succ front ends]
            refine inductionHypothesis (by omega) (by omega) _
              (awaits_declaration reads (avoids_else_of_closing closes apart) short ?_)
            rw [declarations_mul] at awaits
            refine awaits.narrow (fun _ => .inl) fun input member same => member.resolve_right ?_
            intro begins
            obtain ⟨rest, rfl⟩ := List.head?_eq_some_iff.mp (same.trans (by rw [front]; rfl))
            exact ends (closes token rest begins)

end Closing

/-- A block after its opening brace. -/
theorem follows_blockRest [Possible following] :
    Follows count (blockRest read (count + 1)) (Form.blockRest * following) following := by
  rw [Form.blockRest, mul_assoc]
  refine Follows.bind (fun goal tokens cursor short awaits => ?_) fun found =>
    (follows_expect .rightBrace _).bind fun _ => follows_pure found
  have onward := onward_declarationsBefore reads.onward (some .rightBrace) (count + 1) #[] cursor
  refine ⟨onward.rest.length_le, ?_⟩
  refine awaits_declarationsBefore reads ?_ ?_ (Nat.le_succ_of_le short) short #[] awaits
  · intro token others member
    rw [List.mem_singleton.mp (Loose.cons_mem_oneOf_mul.mp member).1]
  · rintro _ ⟨⟩
    decide

end Declarations

/-! ## Statements -/

section Statements

variable (reads : FollowsPhrases read count)

include reads

theorem follows_functionDeclaration [Possible following] :
    Follows count (functionDeclaration read (count + 1)) (Form.functionRest * following)
      following := by
  simp only [Form.functionRest, mul_assoc]
  exact (follows_expect _ _).bind fun _ => (follows_expect _ _).bind fun _ =>
    follows_parameters.bind fun _ => (follows_expect _ _).bind fun _ =>
    (follows_expect _ _).bind fun _ => (follows_blockRest reads).bind fun _ =>
    (follows_add _ _ _).bind fun _ => follows_add _ _ _

omit reads in
/-- Before an alternative, or where there is none, an `else` goes on with the branch. -/
theorem ElseGoesOn.alternative
    (elseGoesOn : ElseGoesOn following) :
    ElseGoesOn (Form.alternative * following) := by
  have within : ∀ others ∈ Form.statement.language * following,
      others ∈ Form.statement.language * (Form.alternative * following) := by
    rintro _ ⟨front, isFront, back, isBack, rfl⟩
    exact Language.append_mem_mul isFront ⟨[], .inr rfl, back, isBack, rfl⟩
  intro token others kind member
  rw [Form.alternative, add_mul, one_mul, mul_assoc] at member
  rcases member with member | member
  · exact within _ (Loose.cons_mem_oneOf_mul.mp member).2
  · exact within _ (elseGoesOn token others kind member)

theorem follows_branch
    [Possible following]
    (elseGoesOn : ElseGoesOn following)
    (keyword : Token) :
    Follows count (branch read keyword) (Form.branchRest * following) following := by
  have parts : Form.alternative * following =
      oneOf [.keyword .elseWord] * (Form.statement.language * following) + following := by
    simp only [Form.alternative, mul_assoc, add_mul, one_mul]
  simp only [Form.branchRest, mul_assoc]
  have closes : Closes (oneOf [.rightParen] * (Form.statement.language *
      (Form.alternative * following))) := closes_oneOf_mul (by decide)
  refine (follows_expect _ _).bind fun _ => (reads.expression _ closes).bind fun _ =>
    (follows_expect _ _).bind fun _ => (reads.statement _ elseGoesOn.alternative).bind fun _ => ?_
  rw [parts]
  refine .acceptAny elseGoesOn (fun less more other _ => ?_) ?_
  · exact (((reads.statement _ elseGoesOn).restrict (by omega)).map some).bind fun _ =>
      follows_add _ _ _
  · exact (follows_pure none).bind fun _ => follows_add _ _ _

theorem follows_loop
    [Possible following]
    (elseGoesOn : ElseGoesOn following)
    (keyword : Token) :
    Follows count (loop read keyword) (Form.loopRest * following) following := by
  simp only [Form.loopRest, mul_assoc]
  have closes : Closes (oneOf [.rightParen] * (Form.statement.language * following)) :=
    closes_oneOf_mul (by decide)
  exact (follows_expect _ _).bind fun _ => (reads.expression _ closes).bind fun _ =>
    (follows_expect _ _).bind fun _ => (reads.statement _ elseGoesOn).bind fun _ =>
    follows_add _ _ _

theorem follows_giveBack
    [Possible following]
    (keyword : Token) :
    Follows count (giveBack read keyword) (Form.giveBackRest * following) following := by
  have closes : Closes (oneOf [.semicolon] * following) := closes_oneOf_mul (by decide)
  have noSemicolon : Avoids (Form.expression.language * (oneOf [.semicolon] * following))
      [.semicolon] := avoids_form_mul .expression (by decide) rfl
  simp only [Form.giveBackRest, add_mul, mul_assoc]
  refine .check noSemicolon ?_ ?_
  · exact (follows_pure none).bind fun _ => (follows_expect _ _).bind fun _ => follows_add _ _ _
  · exact ((reads.expression _ closes).map some).bind fun _ => (follows_expect _ _).bind fun _ =>
      follows_add _ _ _

omit reads in
/-- How a statement that does not begin with an expression goes on after its first token. -/
theorem cons_mem_statement_mul_of_kind
    (kind : Kind)
    (continuation : Language Token)
    (among : (kind, continuation) ∈ Form.marked)
    {token : Token}
    (same : token.kind = kind)
    (others : List Token) :
    token :: others ∈
        (byFirst Form.marked + Form.expression.language * oneOf [.semicolon]) * following ↔
      others ∈ continuation * following := by
  refine cons_mem_byFirst_add_mul (by simp [Form.marked]) among ?_ same
  rw [mul_assoc]
  have avoids : Avoids (Form.expression.language * (oneOf [.semicolon] * following))
      (Form.marked.map Prod.fst) := by
    refine avoids_form_mul .expression ?_ rfl
    simp [Form.marked, Form.openers, Expression.Form.openers, Expression.simpleOpeners]
  exact avoids.mono (List.cons_subset.mpr ⟨List.mem_map.mpr ⟨_, among, rfl⟩, List.nil_subset _⟩)

theorem follows_statement
    [Possible following]
    (elseGoesOn : ElseGoesOn following) :
    Follows (count + 1) (statement read (count + 1)) (Form.statement.language * following)
      following := by
  have closes : Closes (oneOf [.semicolon] * following) := closes_oneOf_mul (by decide)
  rw [Form.language_statement]
  refine .peek fun token => ?_
  split
  next kind =>
      refine .skip (by simp [kind]) (cons_mem_statement_mul_of_kind _ _ (.head _) kind) ?_
      exact follows_functionDeclaration reads
  next kind =>
      refine .skip (by simp [kind])
        (cons_mem_statement_mul_of_kind _ _ (.tail _ (.head _)) kind) ?_
      rw [mul_assoc]
      exact (reads.expression _ closes).bind fun _ => (follows_expect _ _).bind fun _ =>
        follows_add _ _ _
  next kind =>
      refine .skip (by simp [kind])
        (cons_mem_statement_mul_of_kind _ _ (.tail _ (.tail _ (.head _))) kind) ?_
      exact follows_branch reads elseGoesOn token
  next kind =>
      refine .skip (by simp [kind])
        (cons_mem_statement_mul_of_kind _ _ (.tail _ (.tail _ (.tail _ (.head _)))) kind) ?_
      exact follows_loop reads elseGoesOn token
  next kind =>
      refine .skip (by simp [kind])
        (cons_mem_statement_mul_of_kind _ Form.giveBackRest (by simp [Form.marked]) kind) ?_
      exact follows_giveBack reads token
  next kind =>
      refine .skip (by simp [kind])
        (cons_mem_statement_mul_of_kind _ Form.blockRest (by simp [Form.marked]) kind) ?_
      exact (follows_blockRest reads).bind fun _ => follows_add _ _ _
  next noFunction noEcho noBranch noLoop noGiveBack noBlock =>
      have discarded : Follows (count + 1) (do
          let value ← expression read (count + 1)
          let semicolon ← expect .semicolon "expected ';' after expression"
          add .discard semicolon [some value])
          (Form.expression.language * (oneOf [.semicolon] * following)) following :=
        (follows_expression reads closes).bind fun _ => (follows_expect _ _).bind fun _ =>
          follows_add _ _ _
      rw [add_mul, mul_assoc]
      refine discarded.fromToken (fun _ => .inr) fun others member => ?_
      refine member.symm.imp_right fun begins => ?_
      obtain ⟨first, rest, rfl, marked⟩ := Loose.exists_of_mem_byFirst_mul begins
      refine ⟨first, rest, rfl, ?_⟩
      rintro rfl
      simp only [Form.marked, List.map_cons, List.map_nil, List.mem_cons, List.not_mem_nil,
        or_false] at marked
      rcases marked with kind | kind | kind | kind | kind | kind
      · exact noFunction kind
      · exact noEcho kind
      · exact noBranch kind
      · exact noLoop kind
      · exact noGiveBack kind
      · exact noBlock kind

end Statements

/-- Reading follows its phrases, with a level for every token. -/
theorem followsPhrases_readWithin (count : Nat) :
    FollowsPhrases (Phrase.readWithin count) count := by
  induction count with
  | zero =>
      refine ⟨onward_readWithin 0, takes_readWithin 0, ?_, ?_, ?_⟩
      · exact fun _ _ _ => follows_noExpression_at_end (Loose.nil_not_mem_form_mul .expression rfl)
      · exact fun _ _ _ => follows_noExpression_at_end (Loose.nil_not_mem_form_mul .unary rfl)
      · exact fun _ _ _ => follows_noExpression_at_end (Loose.nil_not_mem_form_mul .statement rfl)
  | succ count inductionHypothesis =>
      have rule (phrase : Phrase) : Phrase.readWithin (count + 1) phrase =
          phrase.rule (Phrase.readWithin count) (count + 1) :=
        funext (readWithin_succ count phrase)
      refine ⟨onward_readWithin _, takes_readWithin _, ?_, ?_, ?_⟩
      · intro following _ closes
        rw [rule]
        exact follows_expression inductionHypothesis closes
      · intro following _ avoids
        rw [rule]
        exact follows_unary inductionHypothesis avoids
      · intro following _ elseGoesOn
        rw [rule]
        exact follows_statement inductionHypothesis elseGoesOn

/-! ## Programs -/

section Programs

variable {tokens : Token.Sequence} (closed : tokens.ending.kind = .endOfInput) (arena : Arena)

include closed

/-- Behind its last declaration a program awaits nothing. -/
theorem awaits_readDeclarations :
    (readDeclarations tokens arena).2.Awaits Form.declarations.language tokens 1 := by
  have enough := le_levelsFor tokens.body.length
  have start : Cursor.Awaits Form.declarations.language tokens
      ⟨tokens.body, tokens.ending, arena, #[]⟩ (Form.declarations.language * 1) := by
    refine ⟨closed, .inl ⟨rfl, by simp, [], rfl, fun others member => ?_,
      fun others _ member => ?_⟩⟩
    · rwa [mul_one] at member
    · rwa [mul_one]
  refine awaits_declarationsBefore (followsPhrases_readWithin _) (fun _ _ member => ?_)
    (fun _ closing => ?_) enough enough #[] start
  · cases member
  · cases closing

/-- Either the tokens are a program and nothing is missing, or the first report that something
is missing lies where they become hopeless. -/
theorem program_or_doomed :
    (Loose .declarations tokens.body ∧
        ∀ fault ∈ (readProgram tokens arena).faults, fault.cause.isMissing = false) ∨
      Doomed Form.declarations.language tokens (readProgram tokens arena).faults := by
  rw [readProgram_eq closed]
  refine (awaits_readDeclarations closed arena).either.imp_left fun expects => ?_
  obtain ⟨taken, whole, leads, -⟩ := expects.exists_taken
  refine ⟨?_, expects.sound⟩
  have reached := leads [] rfl
  rwa [List.append_nil, ← List.append_nil taken, ← readDeclarations_rest closed arena, ← whole]
    at reached

end Programs

/-- What the grammar derives is a program, for which it does not matter what is assigned to. -/
theorem Statement.Derives.loose
    {input : List Token}
    {trees : List Statement}
    (derivation : Statement.Derives .declarations input [] trees) :
    Loose .declarations input := by
  let whole : Token.Sequence := ⟨input, .placeless .endOfInput ""⟩
  obtain ⟨nearest, nearestDerivation, isNearest⟩ := derivation.exists_elseNearest
  have faultless := (readProgram_of_derives whole nearestDerivation isNearest Arena.empty).1
  have closed : whole.ending.kind = .endOfInput := rfl
  rcases program_or_doomed closed Arena.empty with ⟨isProgram, -⟩ | doomed
  · exact isProgram
  · rw [faultless] at doomed
    obtain ⟨fault, first, -⟩ := doomed
    cases first

/-- Nothing is reported missing exactly when the tokens are a program. -/
theorem nothing_missing_iff (tokens : List Token) (arena : Arena) :
    (∀ fault ∈ (readProgram (.ofList tokens) arena).faults, fault.cause.isMissing = false) ↔
      Loose .declarations (Token.Sequence.ofList tokens).body := by
  have closed := Token.Sequence.ofList_ending_kind tokens
  rcases program_or_doomed closed arena with ⟨isProgram, nothing⟩ | ⟨fault, first, hopeless⟩
  · exact ⟨fun _ => isProgram, fun _ => nothing⟩
  · refine ⟨fun nothing => ?_, fun isProgram => absurd isProgram hopeless.body_not_mem⟩
    have missing := List.find?_some first
    simp [nothing fault (List.mem_of_find?_eq_some first)] at missing

/-- The tokens can go on to a program. -/
def Continuable (input : List Token) : Prop :=
  ∃ others, Loose .declarations (input ++ others)

/-- The first report that something is missing is blamed on the first token that makes the
input hopeless: what stands before it can go on to a program, but not with it. It is blamed on
the end of the input exactly when the whole input can go on to a program and is none. -/
theorem first_missing_is_hopeless
    (tokens : List Token)
    (arena : Arena)
    (fault : Fault)
    (first : (readProgram (.ofList tokens) arena).faults.find? (·.cause.isMissing) = some fault) :
    let sequence := Token.Sequence.ofList tokens
    ∃ before token after,
      sequence.toList = before ++ token :: after ∧
        fault = Fault.atToken fault.cause token ∧
        Continuable before ∧
        (after ≠ [] → ¬ Continuable (before ++ [token])) ∧
        (after = [] ↔ Continuable sequence.body ∧ ¬ Loose .declarations sequence.body) := by
  intro sequence
  have closed : sequence.ending.kind = .endOfInput := Token.Sequence.ofList_ending_kind tokens
  rcases program_or_doomed closed arena with ⟨-, nothing⟩ | ⟨_, isFirst, hopeless⟩
  · have missing := List.find?_some first
    simp [nothing fault (List.mem_of_find?_eq_some first)] at missing
  · obtain rfl := Option.some.inj (isFirst.symm.trans first)
    obtain ⟨taken, rest, whole, blamed, continuable, never⟩ := hopeless
    cases rest with
    | nil =>
        rw [List.append_nil] at whole
        refine ⟨taken, sequence.ending, [], ?_, blamed, continuable, nofun, fun _ => ?_,
          fun _ => rfl⟩
        · rw [Token.Sequence.toList, whole]
        · rw [whole]
          exact ⟨continuable, by simpa using never [] rfl⟩
    | cons token rest =>
        refine ⟨taken, token, rest ++ [sequence.ending], ?_, blamed, continuable, fun _ => ?_,
          by simp, ?_⟩
        · rw [Token.Sequence.toList, whole, List.append_assoc, List.cons_append]
        · rintro ⟨others, isProgram⟩
          exact never (token :: others) rfl (by simpa using isProgram)
        · rintro ⟨⟨others, isProgram⟩, -⟩
          rw [whole] at isProgram
          exact absurd (by simpa using isProgram) (never (token :: (rest ++ others)) rfl)

/-- The word `let` can go on to a program, but not with a semicolon, which is reported. -/
theorem nameless_declaration_is_hopeless :
    let sequence := Token.Sequence.ofList
      [.placeless (.keyword .letWord) "let", .placeless .semicolon ";"]
    let fault := Fault.atToken (.expected "expected variable name") (.placeless .semicolon ";")
    (readProgram sequence Arena.empty).faults.find? (·.cause.isMissing) = some fault ∧
      ∃ before token after,
        sequence.toList = before ++ token :: after ∧
          fault = Fault.atToken fault.cause token ∧
          Continuable before ∧
          (after ≠ [] → ¬ Continuable (before ++ [token])) ∧
          (after = [] ↔ Continuable sequence.body ∧ ¬ Loose .declarations sequence.body) :=
  ⟨rfl, first_missing_is_hopeless
    [.placeless (.keyword .letWord) "let", .placeless .semicolon ";"] Arena.empty _ rfl⟩

end Tree
end Scripting
