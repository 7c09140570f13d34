import Scripting.Proofs.Syntax.Grammar

/-!
# The nearest `if`

Where one `if` stands inside another, the grammar lets an `else` belong to either.
`ElseNearest` singles out the trees in which every `else` belongs to the nearest
`if` that still lacks one: what an `else` follows does not itself end with such an
`if`.

Main statement: whatever can be derived can be derived with such a tree
(`Derives.exists_elseNearest`), since an `else` can be handed on to the nearest
`if`.
-/

namespace Scripting
namespace Tree
namespace Statement

/-- Whether a statement ends with an `if` that lacks an `else`. -/
def endsOpen : Statement → Bool
  | .branch .. => true
  | .choice _ _ _ alternative => alternative.endsOpen
  | .loop _ _ body => body.endsOpen
  | _ => false

mutual

/-- Every `else` in the statement belongs to the nearest `if` that lacks one. -/
def ElseNearest : Statement → Prop
  | .block _ body => AllElseNearest body
  | .branch _ _ consequence => consequence.ElseNearest
  | .choice _ _ consequence alternative =>
      consequence.endsOpen = false ∧ consequence.ElseNearest ∧ alternative.ElseNearest
  | .loop _ _ body => body.ElseNearest
  | .function _ _ _ body => AllElseNearest body
  | _ => True

/-- Every `else` in the statements belongs to the nearest `if` that lacks one. -/
def AllElseNearest : List Statement → Prop
  | [] => True
  | statement :: others => statement.ElseNearest ∧ AllElseNearest others

end

@[simp] theorem allElseNearest_nil : AllElseNearest [] := by
  simp [AllElseNearest]

@[simp] theorem allElseNearest_cons (statement : Statement) (others : List Statement) :
    AllElseNearest (statement :: others) ↔ statement.ElseNearest ∧ AllElseNearest others := by
  simp [AllElseNearest]

@[simp] theorem allElseNearest_append (first second : List Statement) :
    AllElseNearest (first ++ second) ↔ AllElseNearest first ∧ AllElseNearest second := by
  induction first with
  | nil => simp
  | cons statement others inductionHypothesis => simp [inductionHypothesis, and_assoc]

/-- Every `else` in what has a form belongs to the nearest `if` that lacks one. -/
def Form.ElseNearest : (form : Form) → form.Tree → Prop
  | .declarations, trees => AllElseNearest trees
  | .declaration, tree => tree.ElseNearest
  | .statement, tree => tree.ElseNearest

/-- The statement with an alternative for the nearest `if` at its end that lacks one. -/
def attach (alternative : Statement) : Statement → Statement
  | .branch keyword condition consequence =>
      if consequence.endsOpen then .branch keyword condition (attach alternative consequence)
      else .choice keyword condition consequence alternative
  | .choice keyword condition consequence other =>
      .choice keyword condition consequence (attach alternative other)
  | .loop keyword condition body => .loop keyword condition (attach alternative body)
  | statement => statement

/-- An `else` goes to the nearest `if` that lacks one. -/
theorem Derives.attach
    {other : Token}
    {following rest : List Token}
    {alternative : Statement}
    (elseWord : other.kind = .keyword .elseWord)
    (second : Derives .statement following rest alternative) :
    ∀ {statement : Statement} {input : List Token},
      Derives .statement input (other :: following) statement → statement.endsOpen = true →
      Derives .statement input rest (attach alternative statement)
  | .branch _ _ consequence, _, derivation, _ => by
      cases derivation with
      | branch word opening condition closing inner =>
          unfold Statement.attach
          split
          next isOpen =>
              exact .branch word opening condition closing
                (Derives.attach elseWord second inner isOpen)
          next => exact .choice word opening condition closing inner elseWord second
  | .choice _ _ _ last, _, derivation, isOpen => by
      cases derivation with
      | choice word opening condition closing inner otherWord outer =>
          simp only [endsOpen] at isOpen
          exact .choice word opening condition closing inner otherWord
            (Derives.attach elseWord second outer isOpen)
  | .loop _ _ body, _, derivation, isOpen => by
      cases derivation with
      | loop word opening condition closing inner =>
          simp only [endsOpen] at isOpen
          exact .loop word opening condition closing (Derives.attach elseWord second inner isOpen)
  | .declaration .., _, _, isOpen => by simp [endsOpen] at isOpen
  | .echo .., _, _, isOpen => by simp [endsOpen] at isOpen
  | .discard .., _, _, isOpen => by simp [endsOpen] at isOpen
  | .block .., _, _, isOpen => by simp [endsOpen] at isOpen
  | .function .., _, _, isOpen => by simp [endsOpen] at isOpen
  | .giveBack .., _, _, isOpen => by simp [endsOpen] at isOpen

theorem ElseNearest.attach
    {alternative : Statement}
    (nearest : alternative.ElseNearest) :
    ∀ {statement : Statement}, statement.ElseNearest →
      (Statement.attach alternative statement).ElseNearest
  | .branch _ _ consequence, inner => by
      simp only [ElseNearest] at inner
      unfold Statement.attach
      split
      next => simpa only [ElseNearest] using nearest.attach inner
      next closed =>
          simp only [ElseNearest]
          exact ⟨by simpa using closed, inner, nearest⟩
  | .choice _ _ _ other, inner => by
      simp only [ElseNearest] at inner
      simp only [Statement.attach, ElseNearest]
      exact ⟨inner.1, inner.2.1, nearest.attach inner.2.2⟩
  | .loop _ _ body, inner => by
      simp only [ElseNearest] at inner
      simpa only [Statement.attach, ElseNearest] using nearest.attach inner
  | .declaration .., inner => inner
  | .echo .., inner => inner
  | .discard .., inner => inner
  | .block .., inner => inner
  | .function .., inner => inner
  | .giveBack .., inner => inner

/-- What can be derived can be derived with every `else` at the nearest `if`. -/
theorem Derives.exists_elseNearest
    {form : Form}
    {input rest : List Token}
    {tree : form.Tree}
    (derivation : Derives form input rest tree) :
    ∃ nearest, Derives form input rest nearest ∧ form.ElseNearest nearest := by
  induction derivation with
  | bare word named semicolon =>
      exact ⟨_, .bare word named semicolon, by simp [Form.ElseNearest, ElseNearest]⟩
  | initialized word named equals value semicolon =>
      exact ⟨_, .initialized word named equals value semicolon,
        by simp [Form.ElseNearest, ElseNearest]⟩
  | plain _ inductionHypothesis =>
      obtain ⟨statement, derivation, nearest⟩ := inductionHypothesis
      exact ⟨statement, .plain derivation, nearest⟩
  | function word named opening parameters closing brace _ ending inductionHypothesis =>
      obtain ⟨body, derivation, nearest⟩ := inductionHypothesis
      exact ⟨_, .function word named opening parameters closing brace derivation ending,
        by simpa [Form.ElseNearest, ElseNearest] using nearest⟩
  | echo word value semicolon =>
      exact ⟨_, .echo word value semicolon, by simp [Form.ElseNearest, ElseNearest]⟩
  | branch word opening condition closing _ inductionHypothesis =>
      obtain ⟨consequence, derivation, nearest⟩ := inductionHypothesis
      exact ⟨_, .branch word opening condition closing derivation,
        by simpa [Form.ElseNearest, ElseNearest] using nearest⟩
  | choice word opening condition closing _ other _ innerHypothesis outerHypothesis =>
      obtain ⟨consequence, inner, innerNearest⟩ := innerHypothesis
      obtain ⟨alternative, outer, outerNearest⟩ := outerHypothesis
      simp only [Form.ElseNearest] at innerNearest outerNearest
      cases isOpen : consequence.endsOpen with
      | true =>
          refine ⟨_, .branch word opening condition closing (.attach other outer inner isOpen), ?_⟩
          simpa only [Form.ElseNearest, ElseNearest] using outerNearest.attach innerNearest
      | false =>
          refine ⟨_, .choice word opening condition closing inner other outer, ?_⟩
          simp only [Form.ElseNearest, ElseNearest]
          exact ⟨isOpen, innerNearest, outerNearest⟩
  | loop word opening condition closing _ inductionHypothesis =>
      obtain ⟨body, derivation, nearest⟩ := inductionHypothesis
      exact ⟨_, .loop word opening condition closing derivation,
        by simpa [Form.ElseNearest, ElseNearest] using nearest⟩
  | giveNothing word semicolon =>
      exact ⟨_, .giveNothing word semicolon, by simp [Form.ElseNearest, ElseNearest]⟩
  | giveBack word value semicolon =>
      exact ⟨_, .giveBack word value semicolon, by simp [Form.ElseNearest, ElseNearest]⟩
  | block brace _ ending inductionHypothesis =>
      obtain ⟨body, derivation, nearest⟩ := inductionHypothesis
      exact ⟨_, .block brace derivation ending,
        by simpa [Form.ElseNearest, ElseNearest] using nearest⟩
  | discard value semicolon =>
      exact ⟨_, .discard value semicolon, by simp [Form.ElseNearest, ElseNearest]⟩
  | done => exact ⟨[], .done, by simp [Form.ElseNearest]⟩
  | next _ _ firstHypothesis othersHypothesis =>
      obtain ⟨first, firstDerivation, firstNearest⟩ := firstHypothesis
      obtain ⟨others, othersDerivation, othersNearest⟩ := othersHypothesis
      simp only [Form.ElseNearest] at firstNearest othersNearest
      exact ⟨first :: others, .next firstDerivation othersDerivation,
        by simp [Form.ElseNearest, firstNearest, othersNearest]⟩

end Statement
end Tree
end Scripting
