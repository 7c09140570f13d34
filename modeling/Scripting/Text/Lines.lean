/-!
# The lines of a text

A newline ends the line before it, and a carriage return right before that
newline belongs to the line's end.  What follows the last newline is a line only
if it holds a character.
-/

namespace Scripting
namespace Text

/-- The stretches between newlines, at least one. -/
def newlineStretches (text : List Char) : List (List Char) :=
  text.foldr
    (fun c stretches =>
      if c = '\n' then [] :: stretches
      else match stretches with
        | [] => [[c]]
        | stretch :: others => (c :: stretch) :: others)
    [[]]

/-- A line without the carriage return that belongs to its end. -/
def withoutReturn (line : List Char) : List Char :=
  if line.getLast? = some '\r' then line.dropLast else line

/-- The lines that the stretches between newlines make: all but the last stretch
were ended by a newline. -/
def linesOfStretches : List (List Char) → List (List Char)
  | [] => []
  | [rest] => if rest.isEmpty then [] else [rest]
  | stretch :: others => withoutReturn stretch :: linesOfStretches others

/-- The lines of a text, without their ends. -/
def lines (text : List Char) : List (List Char) :=
  linesOfStretches (newlineStretches text)

@[simp] theorem lines_nil : lines [] = [] := rfl

@[simp] theorem newlineStretches_nil : newlineStretches [] = [[]] := rfl

@[simp] theorem newlineStretches_newline (rest : List Char) :
    newlineStretches ('\n' :: rest) = [] :: newlineStretches rest := rfl

theorem newlineStretches_ne_nil (text : List Char) : newlineStretches text ≠ [] := by
  induction text with
  | nil => simp
  | cons c rest inductionHypothesis =>
      unfold newlineStretches at inductionHypothesis ⊢
      simp only [List.foldr_cons]
      split
      · simp
      · split <;> simp

end Text
end Scripting
