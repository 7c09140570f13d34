import Scripting.Proofs.Reading.Advance
import Scripting.Proofs.Syntax.Beginnings

/-!
# What reading still expects

While the input is read, some continuations of what has been taken lead to a phrase of the goal
and others do not.  A cursor `Expects` a language if it holds the continuations that begin as
the input goes on and holds nothing but continuations, and no fault yet says that something is
missing.  Once such a fault has been recorded the first of them stays the first, so a cursor
`Awaits` a language if it expects it or is `Doomed`: the first such fault lies at the token that
makes the input hopeless.

`Follows count work before after` says that the work brings a cursor with at most `count` tokens
from the one language to the other, or to its doom.

Main statements: work follows when its parts do, one after the other (`Follows.bind`), and a
token that is taken when it is there chooses between two languages (`Follows.acceptAny`).
-/

namespace Scripting

/-- Whether the cause is that what has to come next is missing. -/
def Cause.isMissing : Cause → Bool
  | expected _ | expectedExpression => true
  | _ => false

namespace Tree

open Token (Kind)
open Loose (oneOf Possible Avoids cons_mem_oneOf_mul)

variable {α β : Type} {goal : Language Token} {tokens : Token.Sequence}

/-! ## Hopeless input -/

/-- The fault is blamed on the token that makes the input hopeless: what stands before it can
go on to the goal, but not with this token. -/
def Hopeless (goal : Language Token) (tokens : Token.Sequence) (fault : Fault) : Prop :=
  ∃ taken rest,
    tokens.body = taken ++ rest ∧
      fault = Fault.atToken fault.cause (rest.headD tokens.ending) ∧
      (∃ others, taken ++ others ∈ goal) ∧
      ∀ others, others.head? = rest.head? → taken ++ others ∉ goal

/-- Of the faults which say that something is missing the first is one at which the input
becomes hopeless. -/
def Doomed (goal : Language Token) (tokens : Token.Sequence) (faults : List Fault) : Prop :=
  ∃ fault, faults.find? (·.cause.isMissing) = some fault ∧ Hopeless goal tokens fault

/-- Later faults change nothing. -/
theorem Doomed.of_prefix
    {faults more : List Fault}
    (doomed : Doomed goal tokens faults)
    (longer : faults <+: more) :
    Doomed goal tokens more := by
  obtain ⟨others, rfl⟩ := longer
  obtain ⟨fault, first, hopeless⟩ := doomed
  exact ⟨fault, by rw [List.find?_append, first]; rfl, hopeless⟩

/-- A program that leaves no hope is not one. -/
theorem Hopeless.body_not_mem
    {fault : Fault}
    (hopeless : Hopeless goal tokens fault) :
    tokens.body ∉ goal := by
  obtain ⟨taken, rest, whole, -, -, never⟩ := hopeless
  exact whole ▸ never rest rfl

/-! ## Cursors and what they await -/

/-- The language holds what may come, of that which begins as the input goes on. -/
structure Cursor.Expects
    (goal : Language Token)
    (tokens : Token.Sequence)
    (cursor : Cursor)
    (prospect : Language Token) : Prop where
  ending : cursor.ending = tokens.ending
  sound : ∀ fault ∈ cursor.faults.toList, fault.cause.isMissing = false
  exists_taken : ∃ taken,
    tokens.body = taken ++ cursor.rest ∧
      (∀ others ∈ prospect, taken ++ others ∈ goal) ∧
      ∀ others, others.head? = cursor.rest.head? → taken ++ others ∈ goal → others ∈ prospect

/-- The cursor expects the language, or the input is hopeless already. -/
structure Cursor.Awaits
    (goal : Language Token)
    (tokens : Token.Sequence)
    (cursor : Cursor)
    (prospect : Language Token) : Prop where
  closed : cursor.ending.kind = .endOfInput
  either : cursor.Expects goal tokens prospect ∨ Doomed goal tokens cursor.faults.toList

section Cursors

variable {cursor : Cursor} {before after : Language Token}

/-- Only what begins as the input goes on matters. -/
theorem Cursor.Awaits.narrow
    (awaits : cursor.Awaits goal tokens before)
    (within : ∀ others ∈ after, others ∈ before)
    (covers : ∀ others ∈ before, others.head? = cursor.rest.head? → others ∈ after) :
    cursor.Awaits goal tokens after := by
  refine ⟨awaits.closed, awaits.either.imp_left fun expects => ?_⟩
  obtain ⟨taken, whole, leads, complete⟩ := expects.exists_taken
  exact ⟨expects.ending, expects.sound, taken, whole,
    fun others member => leads others (within others member),
    fun others same member => covers others (complete others same member) same⟩

/-- Behind its next token the cursor expects what may follow that token. -/
theorem Cursor.Awaits.advance
    {token : Token}
    {rest : List Token}
    (awaits : cursor.Awaits goal tokens before)
    (front : cursor.rest = token :: rest)
    (goesOn : ∀ others, token :: others ∈ before ↔ others ∈ after) :
    Cursor.Awaits goal tokens { cursor with rest } after := by
  refine ⟨awaits.closed, awaits.either.imp_left fun expects => ?_⟩
  obtain ⟨taken, whole, leads, complete⟩ := expects.exists_taken
  refine ⟨expects.ending, expects.sound, taken ++ [token], by simp [whole, front],
    fun others member => ?_, fun others same member => ?_⟩
  · simpa using leads (token :: others) ((goesOn others).mpr member)
  · exact (goesOn others).mp (complete (token :: others) (by simp [front]) (by simpa using member))

/-- Where nothing that may come begins as the input goes on, the input is hopeless. -/
theorem Cursor.Awaits.doomed
    [possible : Possible before]
    {cause : Cause}
    (missing : cause.isMissing = true)
    (awaits : cursor.Awaits goal tokens before)
    (never : ∀ others ∈ before, others.head? ≠ cursor.rest.head?) :
    Doomed goal tokens (cursor.faults.toList ++ [Fault.atToken cause cursor.current]) := by
  rcases awaits.either with expects | doomed
  · obtain ⟨taken, whole, leads, complete⟩ := expects.exists_taken
    obtain ⟨others, member⟩ := possible.nonempty
    refine ⟨Fault.atToken cause cursor.current, ?_, taken, cursor.rest, whole, ?_,
      ⟨others, leads others member⟩,
      fun others same reached => never others (complete others same reached) same⟩
    · rw [List.find?_append, List.find?_eq_none.mpr fun fault member => by
        simp [expects.sound fault member]]
      simp [Fault.atToken, missing]
    · rw [← expects.ending]
      rfl
  · exact doomed.of_prefix (List.prefix_append _ _)

end Cursors

/-! ## Work that follows what is awaited -/

/-- Where reading arrives from a cursor: at the language, or at its doom. -/
def Arrives
    (goal : Language Token)
    (tokens : Token.Sequence)
    (after : Language Token)
    (cursor : Cursor) : EStateM.Result Fault Cursor α → Prop
  | .ok _ later => later.rest.length ≤ cursor.rest.length ∧ later.Awaits goal tokens after
  | .error fault later => Doomed goal tokens (later.faults.toList ++ [fault])

/-- Reading that arrives from a cursor arrives from one with more tokens. -/
theorem Arrives.of_le
    {after : Language Token}
    {cursor earlier : Cursor}
    {result : EStateM.Result Fault Cursor α}
    (arrives : Arrives goal tokens after cursor result)
    (more : cursor.rest.length ≤ earlier.rest.length) :
    Arrives goal tokens after earlier result := by
  cases result with
  | ok value later => exact ⟨arrives.1.trans more, arrives.2⟩
  | error fault later => exact arrives

/-- The work brings every cursor with at most `count` tokens from one language to another. -/
def Follows (count : Nat) (work : Parse α) (before after : Language Token) : Prop :=
  ∀ goal tokens cursor, cursor.rest.length ≤ count → Cursor.Awaits goal tokens cursor before →
    Arrives goal tokens after cursor (work cursor)

section Rules

variable {count less : Nat} {work : Parse α} {before between after : Language Token}

theorem Follows.restrict
    (follows : Follows count work before after)
    (fewer : less ≤ count) :
    Follows less work before after :=
  fun goal tokens cursor short => follows goal tokens cursor (short.trans fewer)

/-- Work follows when its parts follow one after the other. -/
theorem Follows.bind
    {next : α → Parse β}
    (first : Follows count work before between)
    (second : ∀ value, Follows count (next value) between after) :
    Follows count (work >>= next) before after := by
  intro goal tokens cursor short awaits
  have arrives := first goal tokens cursor short awaits
  cases ends : work cursor with
  | ok value later =>
      rw [ends] at arrives
      rw [bind_of_ok ends]
      exact (second value goal tokens later (arrives.1.trans short) arrives.2).of_le arrives.1
  | error fault later =>
      rw [ends] at arrives
      rwa [bind_of_error ends]

/-! ### Steps that take nothing -/

theorem follows_pure (value : α) : Follows count (pure value) after after :=
  fun _ _ _ _ awaits => ⟨Nat.le_refl _, awaits⟩

theorem follows_get : Follows count get after after :=
  fun _ _ _ _ awaits => ⟨Nat.le_refl _, awaits⟩

theorem Follows.map
    (follows : Follows count work before after)
    (change : α → β) :
    Follows count (change <$> work) before after :=
  follows.bind fun value => follows_pure (change value)

theorem follows_addNode (node : Node) : Follows count (addNode node) after after := by
  intro goal tokens cursor short awaits
  refine ⟨Nat.le_refl _, awaits.closed, awaits.either.imp_left fun expects => ?_⟩
  exact ⟨expects.ending, expects.sound, expects.exists_taken⟩

theorem follows_add (kind : NodeKind) (token : Token) (children : List (Option NodeId)) :
    Follows count (add kind token children) after after :=
  follows_addNode _

/-- A fault of another sort may be recorded. -/
theorem follows_record
    {fault : Fault}
    (other : fault.cause.isMissing = false) :
    Follows count (record fault) after after := by
  intro goal tokens cursor short awaits
  refine ⟨Nat.le_refl _, awaits.closed, awaits.either.imp (fun expects => ?_) fun doomed => ?_⟩
  · refine ⟨expects.ending, fun recorded member => ?_, expects.exists_taken⟩
    simp only [Array.toList_push, List.mem_append, List.mem_singleton] at member
    rcases member with member | rfl
    · exact expects.sound recorded member
    · exact other
  · refine doomed.of_prefix ?_
    simp

/-! ### Steps that look at the next token -/

/-- What is read next is a token of a wanted kind, or it is refused. -/
theorem exists_front_or_refused (wanted : List Kind) (rest : List Token) :
    (∃ token others, rest = token :: others ∧ token.kind ∈ wanted) ∨
      ∀ token ∈ rest.head?, token.kind ∉ wanted := by
  cases rest with
  | nil => exact .inr nofun
  | cons token others =>
      by_cases member : token.kind ∈ wanted
      · exact .inl ⟨token, others, rfl, member⟩
      · exact .inr (by simpa using member)

/-- What begins with a wanted token does not begin like what is refused. -/
theorem not_mem_oneOf_mul_of_refused
    {wanted : List Kind}
    {rest others : List Token}
    {following : Language Token}
    (refused : ∀ token ∈ rest.head?, token.kind ∉ wanted)
    (same : others.head? = rest.head?) :
    others ∉ oneOf wanted * following := by
  intro begins
  obtain ⟨token, more, rfl, kind, -⟩ := Loose.mem_oneOf_mul.mp begins
  exact refused token same.symm kind

/-- A wanted token is taken if it is there. What may follow without it must not begin with a
wanted token, unless it goes on in the same way. -/
theorem Follows.acceptAny
    {wanted : List Kind}
    {next : Option Token → Parse α}
    {taken : Language Token}
    (apart : ∀ token others, token.kind ∈ wanted → token :: others ∈ between → others ∈ taken)
    (found : ∀ less, count = less + 1 → ∀ token, token.kind ∈ wanted →
      Follows less (next (some token)) taken after)
    (missed : Follows count (next none) between after) :
    Follows count (acceptAny wanted >>= next) (oneOf wanted * taken + between) after := by
  intro goal tokens cursor short awaits
  obtain ⟨rest, ending, arena, faults⟩ := cursor
  obtain ⟨token, others, rfl, member⟩ | refused := exists_front_or_refused wanted rest
  · rw [bind_of_ok (acceptAny_of_mem others ending arena faults member)]
    obtain ⟨less, rfl⟩ : ∃ less, count = less + 1 := ⟨count - 1, by
      simp only [List.length_cons] at short
      omega⟩
    have advanced : Cursor.Awaits goal tokens ⟨others, ending, arena, faults⟩ taken :=
      awaits.advance rfl fun others =>
        ⟨fun begins => begins.elim (fun begins => (cons_mem_oneOf_mul.mp begins).2)
            fun begins => apart token others member begins,
          fun goesOn => .inl (cons_mem_oneOf_mul.mpr ⟨member, goesOn⟩)⟩
    exact (found less rfl token member goal tokens _ (Nat.le_of_succ_le_succ short) advanced).of_le
      (Nat.le_succ _)
  · rw [bind_of_ok (acceptAny_of_not_mem ending arena faults refused)]
    refine missed goal tokens _ short (awaits.narrow (fun _ => .inr) fun others member same => ?_)
    exact member.resolve_left (not_mem_oneOf_mul_of_refused refused same)

/-- A token that has to be there is taken. -/
theorem follows_expect
    [Possible after]
    (kind : Kind)
    (message : String) :
    Follows count (expect kind message) (oneOf [kind] * after) after := by
  intro goal tokens cursor short awaits
  obtain ⟨rest, ending, arena, faults⟩ := cursor
  obtain ⟨token, others, rfl, member⟩ | refused := exists_front_or_refused [kind] rest
  · rw [expect_of_eq others ending arena faults message (List.mem_singleton.mp member)]
    exact ⟨Nat.le_succ _, awaits.advance rfl fun others => by simp [List.mem_singleton.mp member]⟩
  · rw [expect_of_ne ending arena faults message fun token head same =>
      refused token head (List.mem_singleton.mpr same)]
    exact awaits.doomed rfl fun others member same =>
      not_mem_oneOf_mul_of_refused refused same member

/-- A look at the next token chooses between two languages. -/
theorem Follows.check
    {kind : Kind}
    {next : Bool → Parse α}
    {taken : Language Token}
    (avoids : Avoids between [kind])
    (found : Follows count (next true) (oneOf [kind] * taken) after)
    (missed : Follows count (next false) between after) :
    Follows count (check kind >>= next) (oneOf [kind] * taken + between) after := by
  intro goal tokens cursor short awaits
  obtain ⟨rest, ending, arena, faults⟩ := cursor
  obtain ⟨token, others, rfl, member⟩ | refused := exists_front_or_refused [kind] rest
  · rw [bind_of_ok (check_of_eq others ending arena faults (List.mem_singleton.mp member))]
    refine found goal tokens _ short (awaits.narrow (fun _ => .inl) fun others begins front => ?_)
    refine begins.resolve_right fun begins => ?_
    obtain ⟨rest, rfl⟩ := List.head?_eq_some_iff.mp front
    exact avoids token rest begins member
  · have missing : Tree.check kind ⟨rest, ending, arena, faults⟩ =
        .ok false ⟨rest, ending, arena, faults⟩ := by
      cases rest with
      | nil => rfl
      | cons token others =>
          exact check_of_ne others ending arena faults fun same =>
            refused token rfl (List.mem_singleton.mpr same)
    rw [bind_of_ok missing]
    refine missed goal tokens _ short (awaits.narrow (fun _ => .inr) fun others member same => ?_)
    exact member.resolve_left (not_mem_oneOf_mul_of_refused refused same)

/-! ### Steps after a look at the next token -/

/-- Work that follows from the cursors at which the given token is read next. -/
def FollowsFrom (token : Token) (count : Nat) (work : Parse α) (before after : Language Token) :
    Prop :=
  ∀ goal tokens cursor, cursor.current = token → cursor.rest.length ≤ count →
    Cursor.Awaits goal tokens cursor before → Arrives goal tokens after cursor (work cursor)

theorem Follows.peek
    {next : Token → Parse α}
    (follows : ∀ token, FollowsFrom token count (next token) before after) :
    Follows count (peek >>= next) before after := by
  intro goal tokens cursor short awaits
  rw [bind_of_ok (peek_eq cursor)]
  exact follows cursor.current goal tokens cursor rfl short awaits

/-- A token that is known is taken, and reading goes on with one token less. -/
theorem FollowsFrom.skip
    {token : Token}
    {next : Parse α}
    (inside : token.kind ≠ .endOfInput)
    (goesOn : ∀ others, token :: others ∈ before ↔ others ∈ between)
    (follows : Follows count next between after) :
    FollowsFrom token (count + 1) (skip >>= fun _ => next) before after := by
  rintro goal tokens cursor rfl short awaits
  have front := rest_eq awaits.closed inside
  have shorter : cursor.rest.length = cursor.rest.tail.length + 1 := by
    conv_lhs => rw [front]
    rfl
  exact (follows goal tokens { cursor with rest := cursor.rest.tail } (by simp only; omega)
    (awaits.advance front goesOn)).of_le (by simp only; omega)

/-- What begins as the input goes on begins with the token that is read next. -/
theorem eq_current_of_head?
    {cursor : Cursor}
    {first : Token}
    {others : List Token}
    (same : (first :: others).head? = cursor.rest.head?) :
    first = cursor.current := by
  obtain ⟨rest, front⟩ := List.head?_eq_some_iff.mp same.symm
  simp [Cursor.current, front]

/-- At the end of the input nothing but the empty word begins as the input goes on. -/
theorem eq_nil_of_head?
    {cursor : Cursor}
    {others : List Token}
    (short : cursor.rest.length ≤ 0)
    (same : others.head? = cursor.rest.head?) :
    others = [] := by
  rw [List.eq_nil_of_length_eq_zero (Nat.le_zero.mp short)] at same
  exact List.head?_eq_none_iff.mp same

/-- What cannot begin with the token need not be considered. -/
theorem Follows.fromToken
    {token : Token}
    (follows : Follows count work between after)
    (within : ∀ others ∈ between, others ∈ before)
    (covers : ∀ others ∈ before,
      others ∈ between ∨ ∃ first rest, others = first :: rest ∧ first ≠ token) :
    FollowsFrom token count work before after := by
  rintro goal tokens cursor rfl short awaits
  refine follows goal tokens cursor short (awaits.narrow within fun others member same => ?_)
  refine (covers others member).resolve_right ?_
  rintro ⟨first, rest, rfl, different⟩
  exact different (eq_current_of_head? same)

/-- Where nothing begins with the token, it is right to say that an expression is missing. -/
theorem followsFrom_noExpression
    [Possible before]
    {token : Token}
    (never : ∀ others ∈ before, ∃ first rest, others = first :: rest ∧ first ≠ token) :
    FollowsFrom token count (noExpression : Parse α) before after := by
  rintro goal tokens cursor rfl short awaits
  refine awaits.doomed rfl fun others member same => ?_
  obtain ⟨first, rest, rfl, different⟩ := never others member
  exact different (eq_current_of_head? same)

/-- At the end of the input nothing can follow that is not empty. -/
theorem follows_noExpression_at_end
    [Possible before]
    (never : [] ∉ before) :
    Follows 0 (noExpression : Parse α) before after := by
  intro goal tokens cursor short awaits
  exact awaits.doomed rfl fun others member same => never (eq_nil_of_head? short same ▸ member)

/-- At the end of the input only what may be empty follows. -/
theorem follows_pure_at_end
    (value : α)
    (within : ∀ others ∈ after, others ∈ before)
    (covers : [] ∈ before → [] ∈ after) :
    Follows 0 (pure value) before after := by
  intro goal tokens cursor short awaits
  refine ⟨Nat.le_refl _, awaits.narrow within fun others member same => ?_⟩
  obtain rfl := eq_nil_of_head? short same
  exact covers member

end Rules

end Tree
end Scripting
