import Scripting.Proofs.Syntax.Loose

/-!
# How phrases begin

What the next token says of the phrases that may come.  A language is `Possible` if it has an
element at all, and `Avoids` kinds with which none of its elements begins.

Main statements: there are phrases of every form (`Form.possible`), what follows an expression
is told apart from the operators that may go on with it (`avoids_operands_mul` and the like),
and the first token of what goes on as its kind says decides how it goes on
(`cons_mem_byFirst_add_mul`).
-/

namespace Scripting
namespace Tree
namespace Loose

open Token (Kind)

/-! ## Languages that have an element -/

/-- The language has an element. -/
class Possible (language : Language Token) : Prop where
  nonempty : ∃ input, input ∈ language

namespace Possible

theorem exists_mem (language : Language Token) [possible : Possible language] :
    ∃ input, input ∈ language :=
  possible.nonempty

instance one : Possible 1 := ⟨⟨[], rfl⟩⟩

instance oneOf {kind : Kind} {kinds : List Kind} : Possible (Loose.oneOf (kind :: kinds)) :=
  ⟨⟨[.placeless kind ""], _, List.mem_cons_self, rfl⟩⟩

instance mul {first second : Language Token} [Possible first] [Possible second] :
    Possible (first * second) := by
  obtain ⟨front, isFirst⟩ := exists_mem first
  obtain ⟨back, isSecond⟩ := exists_mem second
  exact ⟨⟨front ++ back, Language.append_mem_mul isFirst isSecond⟩⟩

instance add_right {first second : Language Token} [Possible second] :
    Possible (first + second) := by
  obtain ⟨input, isSecond⟩ := exists_mem second
  exact ⟨⟨input, .inr isSecond⟩⟩

end Possible

/-- There are phrases of every form. -/
instance Form.possible (form : Form) : Possible form.language := by
  have named : Loose .primary [.placeless .identifier ""] := .mention rfl
  have unary : Loose .unary [.placeless .identifier ""] := .unsigned (.applied named .noSuffixes)
  have operation (strengths : List Strength) :
      Loose (.operation strengths) [.placeless .identifier ""] := by
    induction strengths with
    | nil => exact .operand unary
    | cons strength tighter inductionHypothesis => exact .joined inductionHypothesis .noOperands
  have expression : Loose .expression [.placeless .identifier ""] := .operation (operation _)
  have statement : Loose .statement [.placeless .identifier "", .placeless .semicolon ""] :=
    .discard expression rfl
  constructor
  cases form with
  | expression => exact ⟨_, expression⟩
  | operation strengths => exact ⟨_, operation strengths⟩
  | operands => exact ⟨_, .noOperands⟩
  | unary => exact ⟨_, unary⟩
  | application => exact ⟨_, .applied named .noSuffixes⟩
  | primary => exact ⟨_, named⟩
  | suffixes => exact ⟨_, .noSuffixes⟩
  | items => exact ⟨_, .lastItem expression⟩
  | arguments => exact ⟨_, .noArguments⟩
  | names => exact ⟨[.placeless .identifier ""], .lastName rfl⟩
  | parameters => exact ⟨_, .noParameters⟩
  | statement => exact ⟨_, statement⟩
  | declaration => exact ⟨_, .plain statement⟩
  | declarations => exact ⟨_, .done⟩

namespace Form

instance blockRest_possible : Possible blockRest :=
  inferInstanceAs (Possible (declarations.language * oneOf [.rightBrace]))

instance alternative_possible : Possible alternative :=
  inferInstanceAs (Possible (oneOf [.keyword .elseWord] * statement.language + 1))

end Form

/-! ## Kinds with which nothing begins -/

/-- No element of the language begins with a token of one of the kinds. -/
def Avoids (language : Language Token) (kinds : List Kind) : Prop :=
  ∀ token others, token :: others ∈ language → token.kind ∉ kinds

section Avoids

variable {first second following : Language Token} {kinds fewer wanted : List Kind}

theorem Avoids.mono
    (avoids : Avoids following kinds)
    (subset : fewer ⊆ kinds) :
    Avoids following fewer :=
  fun token others member kind => avoids token others member (subset kind)

/-- What begins with none of the kinds is told apart from what does. -/
theorem Avoids.apart
    (avoids : Avoids following kinds)
    (token : Token)
    (others : List Token)
    (kind : token.kind ∈ kinds)
    (member : token :: others ∈ following) :
    others ∈ first :=
  absurd kind (avoids token others member)

theorem Avoids.add
    (left : Avoids first kinds)
    (right : Avoids second kinds) :
    Avoids (first + second) kinds := by
  rintro token others (member | member)
  · exact left token others member
  · exact right token others member

theorem avoids_oneOf_mul (others : ∀ kind ∈ wanted, kind ∉ kinds) :
    Avoids (oneOf wanted * following) kinds :=
  fun _ _ member => others _ (cons_mem_oneOf_mul.mp member).1

/-- What begins with a phrase that may not be empty avoids the kinds with which no such phrase
begins. -/
theorem avoids_form_mul
    (form : Form)
    (others : ∀ kind ∈ form.openers, kind ∉ kinds)
    (nonempty : form.mayBeEmpty = false) :
    Avoids (form.language * following) kinds := by
  rintro token rest ⟨front, isFront, back, -, same⟩
  obtain ⟨opening, between, rfl, opens⟩ := isFront.opens nonempty
  obtain ⟨rfl, -⟩ := List.cons.inj same
  exact others _ opens

/-- What begins with a phrase that may not be empty is not empty. -/
theorem nil_not_mem_form_mul
    (form : Form)
    (nonempty : form.mayBeEmpty = false) :
    [] ∉ form.language * following := by
  rintro ⟨front, isFront, back, -, same⟩
  obtain ⟨opening, between, rfl, -⟩ := isFront.opens nonempty
  cases same

end Avoids

/-! ## What goes on with an expression -/

/-- The kinds of the tokens that go on with operands and operators of the strengths. -/
def extenders (strengths : List Strength) : List Kind :=
  strengths.flatMap Strength.operators ++ [.leftParen, .leftBracket]

theorem extenders_subset_cons (strength : Strength) (tighter : List Strength) :
    extenders tighter ⊆ extenders (strength :: tighter) := by
  rw [extenders, extenders, List.flatMap_cons, List.append_assoc]
  exact List.subset_append_right _ _

/-- Operators do not go on with operators of other strengths. -/
theorem operator_not_mem_extenders
    {strength : Strength}
    {tighter : List Strength}
    (other : strength ∉ tighter)
    (kind : Kind)
    (operator : kind ∈ strength.operators) :
    kind ∉ extenders tighter := by
  intro member
  rcases List.mem_append.mp member with member | member
  · obtain ⟨another, among, same⟩ := List.mem_flatMap.mp member
    exact other (Strength.eq_of_mem_operators operator same ▸ among)
  · cases strength <;> simp only [Strength.operators, List.mem_cons, List.not_mem_nil, or_false]
      at operator member <;> grind

/-- What may follow a whole expression begins with nothing that would go on with it. -/
def Closes (following : Language Token) : Prop :=
  Avoids following (.equal :: extenders Strength.all)

theorem closes_oneOf_mul
    {wanted : List Kind}
    {following : Language Token}
    (others : ∀ kind ∈ wanted, kind ∉ .equal :: extenders Strength.all) :
    Closes (oneOf wanted * following) :=
  avoids_oneOf_mul others

/-! ## Alternatives told apart by the first token -/

section Alternatives

variable {alternatives : List (Kind × Language Token)}
  {other following continuation : Language Token} {kind : Kind} {token : Token}
  {others : List Token}

/-- What begins like one of the alternatives has a first token. -/
theorem exists_of_mem_byFirst_mul
    {input : List Token}
    (member : input ∈ byFirst alternatives * following) :
    ∃ first rest, input = first :: rest ∧ first.kind ∈ alternatives.map Prod.fst := by
  obtain ⟨front, ⟨alternative, among, begins⟩, back, -, rfl⟩ := member
  obtain ⟨opening, _, rfl, opens, -⟩ := mem_oneOf_singleton_mul.mp begins
  exact ⟨opening, _, rfl, List.mem_map.mpr ⟨alternative, among, opens.symm⟩⟩

/-- What begins with the token of an alternative goes on as the alternative says. -/
theorem cons_mem_byFirst_add_mul
    (distinct : (alternatives.map Prod.fst).Nodup)
    (among : (kind, continuation) ∈ alternatives)
    (avoids : Avoids (other * following) [kind])
    (same : token.kind = kind) :
    token :: others ∈ (byFirst alternatives + other) * following ↔
      others ∈ continuation * following := by
  rw [add_mul]
  constructor
  · rintro (⟨front, ⟨alternative, member, begins⟩, back, isBack, whole⟩ | member)
    · obtain ⟨opening, rest, rfl, opens, isRest⟩ := mem_oneOf_singleton_mul.mp begins
      obtain ⟨rfl, rfl⟩ := List.cons.inj whole
      obtain rfl := List.inj_on_of_nodup_map distinct member among (opens.symm.trans same)
      exact Language.append_mem_mul isRest isBack
    · exact absurd (List.mem_singleton.mpr same) (avoids token others member)
  · rintro ⟨front, isFront, back, isBack, rfl⟩
    have begins := cons_mem_byFirst kind continuation among same isFront
    exact .inl (Language.append_mem_mul begins isBack)

end Alternatives

end Loose
end Tree
end Scripting
