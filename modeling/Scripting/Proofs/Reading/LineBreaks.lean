import Scripting.Proofs.Reading.Excerpts

/-!
# Lines and their ends

What a line of a text is, apart from how lines are found.  A line goes up to the first line
break after its beginning, which is a newline together with the carriage return right before
it, if there is one.  What comes after the last newline is a line only if it is not empty, and
then it keeps a carriage return at its end.

Main statement: `Text.line?_eq_some_iff`.
-/

namespace Scripting
namespace Text

/-- What a text has before its first line break. A text without any is a line itself, unless
it is empty. -/
inductive IsFirstLine : (line text : List Char) → Prop
  | ended {line : List Char} (after : List Char) :
      '\n' ∉ line → '\r' ∉ line.getLast? → IsFirstLine line (line ++ '\n' :: after)
  | endedByTwo {line : List Char} (after : List Char) :
      '\n' ∉ line → IsFirstLine line (line ++ '\r' :: '\n' :: after)
  | last {line : List Char} : '\n' ∉ line → line ≠ [] → IsFirstLine line line

/-- The line of a text behind so many newlines. -/
def IsLineBehind (newlines : Nat) (line text : List Char) : Prop :=
  ∃ before rest, text = before ++ rest ∧ before.count '\n' = newlines ∧
    (∀ c ∈ before.getLast?, c = '\n') ∧ IsFirstLine line rest

variable {text line front : List Char}

theorem withoutReturn_append_return (front : List Char) :
    withoutReturn (front ++ ['\r']) = front := by
  rw [withoutReturn, if_pos (by simp), List.dropLast_concat]

/-- A text up to its first newline, and the line that it is without the return at its end. -/
theorem isFirstLine_withoutReturn (oneLine : '\n' ∉ front) (after : List Char) :
    IsFirstLine (withoutReturn front) (front ++ '\n' :: after) := by
  by_cases closed : '\r' ∈ front.getLast?
  · obtain ⟨rest, rfl⟩ := List.getLast?_eq_some_iff.mp closed
    rw [withoutReturn_append_return, List.append_assoc]
    exact .endedByTwo after fun member => oneLine (List.mem_append_left _ member)
  · rw [withoutReturn_of_getLast? closed]
    exact .ended after oneLine closed

/-- The line that a text begins with is the first one of its lines. -/
theorem getElem?_lines_zero_iff : (lines text)[0]? = some line ↔ IsFirstLine line text := by
  constructor
  · intro first
    obtain oneLine | ⟨front, rest, rfl, oneLine⟩ := notMem_or_exists_newline text
    · by_cases empty : text = []
      · simp [empty] at first
      · rw [lines_of_notMem oneLine empty] at first
        obtain rfl := Option.some.inj first
        exact .last oneLine empty
    · rw [lines_append_newline oneLine] at first
      obtain rfl := Option.some.inj first
      exact isFirstLine_withoutReturn oneLine rest
  · intro isFirst
    cases isFirst with
    | ended after oneLine closed =>
        rw [lines_append_newline oneLine, withoutReturn_of_getLast? closed]
        rfl
    | endedByTwo after oneLine =>
        have split : line ++ '\r' :: '\n' :: after = (line ++ ['\r']) ++ '\n' :: after := by simp
        have stays : '\n' ∉ line ++ ['\r'] := List.not_mem_append oneLine (by decide)
        rw [split, lines_append_newline stays, withoutReturn_append_return]
        rfl
    | last oneLine nonempty =>
        rw [lines_of_notMem oneLine nonempty]
        rfl

/-- Two texts whose first newlines are in the same text stand before and after them. -/
theorem append_newline_inj
    {other rest back : List Char}
    (oneLine : '\n' ∉ front)
    (oneMore : '\n' ∉ other)
    (same : front ++ '\n' :: rest = other ++ '\n' :: back) :
    front = other ∧ rest = back := by
  have taken := congrArg (List.takeWhile (· != '\n')) same
  have left := congrArg (List.dropWhile (· != '\n')) same
  have passes {stretch : List Char} (oneLine : '\n' ∉ stretch) :
      ∀ c ∈ stretch, (c != '\n') = true := by
    intro c member
    rw [bne_iff_ne]
    rintro rfl
    exact oneLine member
  rw [List.takeWhile_append_of_pos (passes oneLine), List.takeWhile_append_of_pos (passes oneMore)]
    at taken
  rw [List.dropWhile_append_of_pos (passes oneLine), List.dropWhile_append_of_pos (passes oneMore)]
    at left
  simpa using And.intro taken left

/-- A line behind a newline is one of the text behind the first newline. -/
theorem isLineBehind_succ_iff (oneLine : '\n' ∉ front) (rest : List Char) (newlines : Nat) :
    IsLineBehind (newlines + 1) line (front ++ '\n' :: rest) ↔
      IsLineBehind newlines line rest := by
  constructor
  · rintro ⟨before, back, whole, count, ends, isFirst⟩
    obtain none | ⟨other, others, rfl, oneMore⟩ := notMem_or_exists_newline before
    · rw [List.count_eq_zero_of_not_mem none] at count
      contradiction
    · rw [List.append_assoc, List.cons_append] at whole
      obtain ⟨rfl, rfl⟩ := append_newline_inj oneLine oneMore whole
      refine ⟨others, back, rfl, ?_, ?_, isFirst⟩
      · rw [List.count_append, List.count_eq_zero_of_not_mem oneLine, List.count_cons_self] at count
        omega
      · intro c last
        refine ends c ?_
        rw [List.getLast?_append_of_ne_nil _ (List.cons_ne_nil _ _), List.getLast?_cons,
          Option.mem_def.mp last]
        rfl
  · rintro ⟨before, back, rfl, count, ends, isFirst⟩
    refine ⟨front ++ '\n' :: before, back, by simp, ?_, ?_, isFirst⟩
    · rw [List.count_append, List.count_eq_zero_of_not_mem oneLine, List.count_cons_self, count]
      omega
    · intro c last
      rw [List.getLast?_append_of_ne_nil _ (List.cons_ne_nil _ _), List.getLast?_cons] at last
      cases isLast : before.getLast? with
      | none => simpa [isLast, eq_comm] using last
      | some d =>
          rw [isLast] at last
          exact (Option.some.inj last).symm.trans (ends d isLast)

/-- The lines that are found are the lines behind newlines. -/
theorem getElem?_lines_iff (newlines : Nat) :
    (lines text)[newlines]? = some line ↔ IsLineBehind newlines line text := by
  induction newlines generalizing text with
  | zero =>
      rw [getElem?_lines_zero_iff]
      constructor
      · exact fun isFirst => ⟨[], text, rfl, rfl, by simp, isFirst⟩
      · rintro ⟨before, rest, rfl, count, ends, isFirst⟩
        have empty : before = [] := by
          rw [← List.getLast?_eq_none_iff, Option.eq_none_iff_forall_not_mem]
          intro c last
          exact List.count_eq_zero.mp count (ends c last ▸ List.mem_of_getLast? last)
        rwa [empty]
  | succ newlines inductionHypothesis =>
      obtain oneLine | ⟨front, rest, rfl, oneLine⟩ := notMem_or_exists_newline text
      · have few : (lines text)[newlines + 1]? = none := by
          by_cases empty : text = []
          · rw [empty]
            rfl
          · rw [lines_of_notMem oneLine empty]
            rfl
        rw [few]
        refine iff_of_false (by simp) ?_
        rintro ⟨before, rest, rfl, count, -⟩
        have none : before.count '\n' = 0 :=
          List.count_eq_zero_of_not_mem fun member => oneLine (List.mem_append_left _ member)
        omega
      · rw [lines_append_newline oneLine, List.getElem?_cons_succ, inductionHypothesis,
          isLineBehind_succ_iff oneLine]

/-- A line with a number is the line of the text behind one newline less. -/
theorem line?_eq_some_iff {text line : String} {number : Nat} (positive : 0 < number) :
    line? text number = some line ↔ IsLineBehind (number - 1) line.toList text.toList := by
  rw [line?, if_neg (Nat.ne_of_gt positive), ← getElem?_lines_iff, Option.map_eq_some_iff]
  constructor
  · rintro ⟨found, isFound, rfl⟩
    rwa [String.toList_ofList]
  · exact fun found => ⟨line.toList, found, String.ofList_toList⟩

/-- A text that is not empty begins with its first line. -/
theorem isFirstLine_firstLine (nonempty : text ≠ []) : IsFirstLine (firstLine text) text :=
  getElem?_lines_zero_iff.mp (getElem?_lines_zero nonempty)

end Text
end Scripting
