import Scripting.Tree.Outline
import Scripting.Proofs.Syntax.Layout
import Scripting.Proofs.Syntax.Quotes

/-!
# Sketches of trees

The outline of a tree is the text of a sketch: words, and lists of sketches in parentheses
(`StandsAt.outline_eq`).  A sketch is known by its text when all of its words are, that is, when
they are quoted texts or hold none of the characters that set words apart (`chars_injective`).
-/

namespace Scripting
namespace Tree

/-- Words, and lists in parentheses. -/
inductive Sketch where
  | word (text : String)
  | list (items : List Sketch)

namespace Sketch

mutual

/-- The text of a sketch. -/
def chars : Sketch → List Char
  | word text => text.toList
  | list items => '(' :: (row items ++ [')'])

/-- The texts of sketches, with spaces between them. -/
def row : List Sketch → List Char
  | [] => []
  | item :: others => item.chars ++ rowBehind others

/-- The texts of sketches, each behind a space. -/
def rowBehind : List Sketch → List Char
  | [] => []
  | item :: others => ' ' :: (item.chars ++ rowBehind others)

end

/-! ## Words -/

/-- Whether a character sets words apart. -/
def isDelimiter (c : Char) : Bool :=
  c == ' ' || c == '(' || c == ')' || c == '"'

/-- The texts of words. -/
inductive IsWord : List Char → Prop
  | plain {text : List Char} (nonempty : text ≠ []) (plain : ∀ c ∈ text, isDelimiter c = false) :
      IsWord text
  | quoted (text : List Char) : IsWord (Text.quoted text)

mutual

/-- All words of the sketch are words. -/
def Fits : Sketch → Prop
  | word text => IsWord text.toList
  | list items => AllFit items

/-- All words of the sketches are words. -/
def AllFit : List Sketch → Prop
  | [] => True
  | item :: others => item.Fits ∧ AllFit others

end

/-- A word or a list ends before this text. -/
def Ends (rest : List Char) : Prop :=
  ∀ c ∈ rest.head?, c = ' ' ∨ c = ')'

theorem ends_nil : Ends [] := by
  simp [Ends]

theorem ends_rowBehind (items : List Sketch) (rest : List Char) :
    Ends (rowBehind items ++ ')' :: rest) := by
  cases items <;> simp [Ends, rowBehind]

variable {text other rest otherRest : List Char}

/-- A plain word reaches up to its end. -/
theorem takeWhile_append_of_ends
    (plain : ∀ d ∈ text, isDelimiter d = false)
    (ends : Ends rest) :
    (text ++ rest).takeWhile (!isDelimiter ·) = text := by
  rw [List.takeWhile_append_of_pos (by simpa using plain)]
  cases rest with
  | nil => simp
  | cons c others =>
      have delimits : isDelimiter c = true := by
        obtain rfl | rfl := ends c rfl <;> rfl
      rw [List.takeWhile_cons_of_neg (by simp [delimits]), List.append_nil]

/-- A word begins with no space and no parenthesis. -/
theorem IsWord.head_ne (isWord : IsWord text) :
    ∃ c others, text = c :: others ∧ c ≠ ' ' ∧ c ≠ '(' ∧ c ≠ ')' := by
  cases isWord with
  | plain nonempty plain =>
      obtain ⟨c, others, rfl⟩ := List.exists_cons_of_ne_nil nonempty
      refine ⟨c, others, rfl, ?_⟩
      have notDelimiter := plain c List.mem_cons_self
      simp only [isDelimiter, Bool.or_eq_false_iff, beq_eq_false_iff_ne] at notDelimiter
      exact ⟨notDelimiter.1.1.1, notDelimiter.1.1.2, notDelimiter.1.2⟩
  | quoted text => exact ⟨'"', _, rfl, by decide, by decide, by decide⟩

/-- Words before their ends are the same only if the words and what follows are. -/
theorem IsWord.append_inj
    (isWord : IsWord text)
    (otherWord : IsWord other)
    (ends : Ends rest)
    (otherEnds : Ends otherRest)
    (same : text ++ rest = other ++ otherRest) :
    text = other ∧ rest = otherRest := by
  cases isWord with
  | plain nonempty plain =>
      cases otherWord with
      | plain _ otherPlain =>
          have sameText := congrArg (List.takeWhile (!isDelimiter ·)) same
          rw [takeWhile_append_of_ends plain ends,
            takeWhile_append_of_ends otherPlain otherEnds] at sameText
          rw [sameText] at same ⊢
          exact ⟨rfl, List.append_cancel_left same⟩
      | quoted otherText =>
          obtain ⟨c, others, rfl⟩ := List.exists_cons_of_ne_nil nonempty
          obtain rfl := List.head_eq_of_cons_eq same
          exact absurd (plain '"' List.mem_cons_self) (by decide)
  | quoted text =>
      cases otherWord with
      | plain nonempty otherPlain =>
          obtain ⟨c, others, rfl⟩ := List.exists_cons_of_ne_nil nonempty
          obtain rfl := List.head_eq_of_cons_eq same
          exact absurd (otherPlain '"' List.mem_cons_self) (by decide)
      | quoted otherText =>
          obtain ⟨rfl, rfl⟩ := Text.quoted_append_inj same
          exact ⟨rfl, rfl⟩

/-! ## Texts of sketches -/

/-- A sketch begins with no space and no closing parenthesis. -/
theorem Fits.head_ne {sketch : Sketch} (fits : sketch.Fits) :
    ∃ c others, sketch.chars = c :: others ∧ c ≠ ' ' ∧ c ≠ ')' := by
  cases sketch with
  | word text =>
      rw [Fits] at fits
      obtain ⟨c, others, whole, noSpace, -, noClose⟩ := fits.head_ne
      exact ⟨c, others, by rw [chars, whole], noSpace, noClose⟩
  | list items => exact ⟨'(', _, by rw [chars], by decide, by decide⟩

mutual

/-- Sketches before their ends have the same text only if they are the same. -/
theorem chars_append_inj
    {rest otherRest : List Char} :
    ∀ {sketch other : Sketch}, sketch.Fits → other.Fits → Ends rest → Ends otherRest →
      sketch.chars ++ rest = other.chars ++ otherRest → sketch = other ∧ rest = otherRest
  | word text, word other, fits, otherFits, ends, otherEnds, same => by
      rw [Fits] at fits otherFits
      rw [chars, chars] at same
      obtain ⟨sameText, rfl⟩ := fits.append_inj otherFits ends otherEnds same
      rw [String.toList_inj.mp sameText]
      exact ⟨rfl, rfl⟩
  | word text, list items, fits, _, _, _, same => by
      rw [Fits] at fits
      obtain ⟨c, others, whole, -, noOpen, -⟩ := fits.head_ne
      rw [chars, chars, whole] at same
      exact absurd (List.head_eq_of_cons_eq same) noOpen
  | list items, word text, _, otherFits, _, _, same => by
      rw [Fits] at otherFits
      obtain ⟨c, others, whole, -, noOpen, -⟩ := otherFits.head_ne
      rw [chars, chars, whole] at same
      exact absurd (List.head_eq_of_cons_eq same).symm noOpen
  | list items, list others, fits, otherFits, _, _, same => by
      rw [Fits] at fits otherFits
      rw [chars, chars, List.cons_append, List.cons_append, List.append_assoc,
        List.append_assoc] at same
      obtain ⟨rfl, rfl⟩ := row_append_inj fits otherFits (List.tail_eq_of_cons_eq same)
      exact ⟨rfl, rfl⟩

/-- The same of sketches up to a closing parenthesis. -/
theorem row_append_inj
    {rest otherRest : List Char} :
    ∀ {items others : List Sketch}, AllFit items → AllFit others →
      row items ++ ')' :: rest = row others ++ ')' :: otherRest →
      items = others ∧ rest = otherRest
  | [], [], _, _, same => ⟨rfl, List.tail_eq_of_cons_eq same⟩
  | [], other :: others, _, otherFits, same => by
      rw [AllFit] at otherFits
      obtain ⟨c, behind, whole, -, noClose⟩ := otherFits.1.head_ne
      rw [row, row, whole] at same
      exact absurd (List.head_eq_of_cons_eq same).symm noClose
  | item :: items, [], fits, _, same => by
      rw [AllFit] at fits
      obtain ⟨c, behind, whole, -, noClose⟩ := fits.1.head_ne
      rw [row, row, whole] at same
      exact absurd (List.head_eq_of_cons_eq same) noClose
  | item :: items, other :: others, fits, otherFits, same => by
      rw [AllFit] at fits otherFits
      rw [row, row, List.append_assoc, List.append_assoc] at same
      obtain ⟨rfl, behind⟩ := chars_append_inj fits.1 otherFits.1 (ends_rowBehind _ _)
        (ends_rowBehind _ _) same
      obtain ⟨rfl, rfl⟩ := rowBehind_append_inj fits.2 otherFits.2 behind
      exact ⟨rfl, rfl⟩

/-- The same of sketches that each have a space before them. -/
theorem rowBehind_append_inj
    {rest otherRest : List Char} :
    ∀ {items others : List Sketch}, AllFit items → AllFit others →
      rowBehind items ++ ')' :: rest = rowBehind others ++ ')' :: otherRest →
      items = others ∧ rest = otherRest
  | [], [], _, _, same => ⟨rfl, List.tail_eq_of_cons_eq same⟩
  | [], other :: others, _, _, same => by
      rw [rowBehind, rowBehind] at same
      exact absurd (List.head_eq_of_cons_eq same) (by decide)
  | item :: items, [], _, _, same => by
      rw [rowBehind, rowBehind] at same
      exact absurd (List.head_eq_of_cons_eq same) (by decide)
  | item :: items, other :: others, fits, otherFits, same => by
      rw [AllFit] at fits otherFits
      rw [rowBehind, rowBehind, List.cons_append, List.cons_append, List.append_assoc,
        List.append_assoc] at same
      obtain ⟨rfl, behind⟩ := chars_append_inj fits.1 otherFits.1 (ends_rowBehind _ _)
        (ends_rowBehind _ _) (List.tail_eq_of_cons_eq same)
      obtain ⟨rfl, rfl⟩ := rowBehind_append_inj fits.2 otherFits.2 behind
      exact ⟨rfl, rfl⟩

end

/-- A sketch is known by its text. -/
theorem chars_injective
    {sketch other : Sketch}
    (fits : sketch.Fits)
    (otherFits : other.Fits)
    (same : sketch.chars = other.chars) :
    sketch = other :=
  (chars_append_inj fits otherFits ends_nil ends_nil (congrArg (· ++ []) same)).1

theorem rowBehind_eq (items : List Sketch) :
    rowBehind items = items.flatMap fun item => ' ' :: item.chars := by
  induction items with
  | nil => simp [rowBehind]
  | cons item others inductionHypothesis => simp [rowBehind, inductionHypothesis]

end Sketch

/-! ## Sketches of trees -/

/-- The words in front of the parts of a node. -/
def NodeKind.words (kind : NodeKind) (name : String) : List String :=
  match kind with
  | .statements => ["list"]
  | .declaration => ["var", name]
  | .echo => ["echo"]
  | .discard => ["expr"]
  | .block => ["block"]
  | .branch => ["if"]
  | .loop => ["while"]
  | .giveBack => ["return"]
  | .group => ["group"]
  | .assignment => ["assign", name]
  | .call => ["call"]
  | .array => ["array"]
  | .index => ["index"]
  | _ => [name]

/-- The sketch of a node, given the sketches of its children. -/
def Sketch.ofNode
    (kind : NodeKind)
    (token : Token)
    (constant : Option Constant)
    (children : List (Option Sketch)) : Sketch :=
  match kind with
  | .constant => .word (constant.getD .null).outline
  | .variable | .parameter => .word token.lexeme
  | .function =>
      let parameters := children.dropLast.map (·.getD (.word ""))
      .list (.word "fn" :: .word token.lexeme :: .list parameters ::
        children.getLast?.join.toList)
  | _ => .list ((kind.words token.lexeme).map .word ++ children.filterMap id)

namespace Rose

mutual

/-- The sketch of a tree that is not left out. -/
def sketch? : Rose → Option Sketch
  | absent => none
  | node kind token constant children =>
      some (.ofNode kind token constant (sketches children))

/-- The sketches of trees. -/
def sketches : List Rose → List (Option Sketch)
  | [] => []
  | tree :: trees => tree.sketch? :: sketches trees

end

end Rose

/-! ## Outlines -/

/-- What is shown for a child is its sketch. -/
def Shows (shown : Option NodeId → String) (id : Option NodeId) (sketch : Option Sketch) : Prop :=
  id.isSome = sketch.isSome ∧ (shown id).toList = (sketch.getD (.word "")).chars

theorem toList_parenthesized (head : String) (parts : List String) :
    (parenthesized head parts).toList =
      '(' :: (head.toList ++ parts.flatMap (' ' :: ·.toList) ++ [')']) := by
  simp [parenthesized, List.flatMap_map]

theorem toList_intercalate_space (text : String) (others : List String) :
    (" ".intercalate (text :: others)).toList =
      text.toList ++ others.flatMap (' ' :: ·.toList) := by
  induction others generalizing text with
  | nil => simp
  | cons other others inductionHypothesis =>
      rw [String.intercalate_cons_cons]
      simp [inductionHypothesis]

section Shown

variable {shown : Option NodeId → String} {ids : List (Option NodeId)}
  {sketches : List (Option Sketch)}

/-- The children that are there are shown one after the other. -/
theorem flatMap_shown (shows : List.Forall₂ (Shows shown) ids sketches) :
    ((ids.filter (·.isSome)).map shown).flatMap (' ' :: ·.toList) =
      Sketch.rowBehind (sketches.filterMap id) := by
  induction shows with
  | nil => rfl
  | @cons id sketch ids sketches first _ inductionHypothesis =>
      obtain ⟨present, text⟩ := first
      cases id <;> cases sketch <;> simp_all [Sketch.rowBehind]

/-- The last child is shown if it is there. -/
theorem flatMap_shown_getLast? (shows : List.Forall₂ (Shows shown) ids sketches) :
    (([ids.getLast?.join].filter (·.isSome)).map shown).flatMap (' ' :: ·.toList) =
      Sketch.rowBehind sketches.getLast?.join.toList := by
  induction shows with
  | nil => rfl
  | @cons id sketch ids sketches first others inductionHypothesis =>
      cases others with
      | nil =>
          obtain ⟨present, text⟩ := first
          cases id <;> cases sketch <;> simp_all [Sketch.rowBehind]
      | cons second others =>
          rw [List.getLast?_cons_cons, List.getLast?_cons_cons]
          exact inductionHypothesis

/-- Parameters are shown with spaces between them. -/
theorem toList_intercalate_shown (shows : List.Forall₂ (Shows shown) ids sketches) :
    (" ".intercalate (ids.map shown)).toList =
      Sketch.row (sketches.map (·.getD (.word ""))) := by
  cases shows with
  | nil => simp [Sketch.row]
  | cons first others =>
      rw [List.map_cons, List.map_cons, toList_intercalate_space, Sketch.row, first.2,
        Sketch.rowBehind_eq]
      congr 1
      induction others with
      | nil => rfl
      | cons second _ inductionHypothesis => simp [second.2, inductionHypothesis]

theorem forall₂_dropLast (shows : List.Forall₂ (Shows shown) ids sketches) :
    List.Forall₂ (Shows shown) ids.dropLast sketches.dropLast := by
  rw [List.dropLast_eq_take, List.dropLast_eq_take, shows.length_eq]
  exact List.forall₂_take _ shows

/-- The outline of a node is the text of its sketch. -/
theorem Node.toList_outline
    {node : Node}
    (shows : List.Forall₂ (Shows shown) node.children sketches) :
    (node.outline shown).toList =
      (Sketch.ofNode node.kind node.token node.constant sketches).chars := by
  unfold Node.outline Sketch.ofNode
  dsimp only
  cases isKind : node.kind with
  | constant => rw [Sketch.chars]
  | «variable» => rw [Sketch.chars, name]
  | parameter => rw [Sketch.chars, name]
  | function =>
      dsimp only
      rw [toList_parenthesized, Node.body, flatMap_shown_getLast? shows]
      simp only [String.toList_append]
      rw [Node.parameters, toList_intercalate_shown (forall₂_dropLast shows)]
      simp [Sketch.chars, Sketch.row, Sketch.rowBehind, name]
  | _ =>
      dsimp only
      rw [toList_parenthesized, flatMap_shown shows, Node.head, isKind]
      simp [NodeKind.words, Sketch.chars, Sketch.row, Sketch.rowBehind, name]

end Shown

namespace Rose

variable {arena : Arena}

mutual

/-- A tree is shown where it stands, if the levels suffice. -/
theorem StandsAt.shows (formed : arena.WellFormed) :
    ∀ {tree : Rose} {id : Option NodeId} {levels : Nat}, tree.StandsAt arena id →
      (∀ index, id = some index → index < levels) →
      Shows (arena.outlineWithin levels) id tree.sketch?
  | absent, id, levels, stands, _ => by
      obtain rfl := (standsAt_absent id).mp stands
      cases levels <;> simp [Shows, sketch?, Arena.outlineWithin, Arena.node?, Sketch.chars]
  | node kind token constant children, id, levels, stands, enough => by
      obtain ⟨index, ids, rfl, found, below⟩ := (standsAt_node ..).mp stands
      obtain ⟨levels, rfl⟩ := Nat.exists_eq_succ_of_ne_zero (Nat.ne_zero_of_lt (enough index rfl))
      have earlier : ∀ child, some child ∈ ids → child < levels := fun child member =>
        Nat.lt_of_lt_of_le (formed.earlier index _ found child member)
          (Nat.le_of_lt_succ (enough index rfl))
      have shows := AllStandAt.shows formed below earlier
      refine ⟨rfl, ?_⟩
      simp only [Arena.outlineWithin, Arena.node?, found, atLevel_eq, sketch?, Option.getD_some]
      exact Node.toList_outline shows

/-- Trees are shown where they stand, if the levels suffice. -/
theorem AllStandAt.shows (formed : arena.WellFormed) :
    ∀ {trees : List Rose} {ids : List (Option NodeId)} {levels : Nat},
      AllStandAt arena trees ids → (∀ index, some index ∈ ids → index < levels) →
      List.Forall₂ (Shows (arena.outlineWithin levels)) ids (sketches trees)
  | [], ids, levels, stand, _ => by
      obtain rfl := (allStandAt_nil ids).mp stand
      exact .nil
  | tree :: trees, ids, levels, stand, enough => by
      obtain ⟨id, others, rfl, stands, below⟩ := (allStandAt_cons ..).mp stand
      exact .cons (StandsAt.shows formed stands fun index isId => enough index (by simp [isId]))
        (AllStandAt.shows formed below fun index member =>
          enough index (List.mem_cons_of_mem _ member))

end

/-- The outline of a tree that stands in a well-formed arena is the text of its sketch. -/
theorem StandsAt.outline_eq
    (formed : arena.WellFormed)
    {tree : Rose}
    {index : NodeId}
    (stands : tree.StandsAt arena (some index)) :
    ∃ sketch, tree.sketch? = some sketch ∧
      (arena.outline (some index)).toList = sketch.chars := by
  have enough : ∀ other, some index = some other → other < levelsFor (arena.size + 1) := by
    rintro _ ⟨⟩
    cases tree with
    | absent => cases (standsAt_absent _).mp stands
    | node kind token constant children =>
        obtain ⟨_, ids, ⟨⟩, found, -⟩ := (standsAt_node ..).mp stands
        exact Nat.lt_of_lt_of_le (Nat.lt_succ_of_lt (Arena.lt_size_of_get? found)) (le_levelsFor _)
  obtain ⟨present, text⟩ := stands.shows formed enough
  obtain ⟨sketch, isSketch⟩ := Option.isSome_iff_exists.mp present.symm
  exact ⟨sketch, isSketch, by rw [Arena.outline, text, isSketch, Option.getD_some]⟩

end Rose
end Tree
end Scripting
