import Scripting.CommandLine

/-!
# Lines at the prompt

The lines that are taken at the prompt fall into entries, one after the other: a line that is
blank or holds a command is an entry by itself, and the lines of every text that is run are
one.  A text has as many lines as it needs to close its braces and no more, and while it is
being put together no line means anything else, whatever it holds.  How the lines fall into
entries depends on nothing but the lines, and in particular not on what the texts do when
they are run.

Main statement: `Prompt.takeLines_entries`.
-/

namespace Scripting
namespace Prompt

open CommandLine (linesText)

/-! ## Entries -/

/-- The braces of a text that the lines make up are not all closed. -/
def IsOpen (lines : List String) : Prop :=
  0 < openBraces (linesText lines).toList

/-- The lines are the beginning of a text that is not complete. -/
structure IsPending (lines : List String) : Prop where
  /-- The first line is neither blank nor a command. -/
  begins : ∀ first ∈ lines.head?, meaningOf first = .program
  opened : ∀ front, front <+: lines → front ≠ [] → IsOpen front

/-- The lines make up a text that is complete, as no shorter beginning of it is. -/
structure IsText (lines : List String) : Prop where
  nonempty : lines ≠ []
  /-- The first line is neither blank nor a command. -/
  begins : ∀ first ∈ lines.head?, meaningOf first = .program
  complete : ¬ IsOpen lines
  shortest : ∀ front, front <+: lines → front ≠ [] → front ≠ lines → IsOpen front

/-- What is taken at once. -/
inductive Entry where
  /-- A line that is no part of a text. -/
  | single (line : String)
  /-- The lines of a text. -/
  | text (lines : List String)

namespace Entry

/-- The lines of an entry. -/
def lines : Entry → List String
  | single line => [line]
  | text lines => lines

/-- The entry is what it claims to be. -/
def Fits : Entry → Prop
  | single line => meaningOf line = .blank ∨ meaningOf line = .help ∨ meaningOf line = .clear
  | text lines => IsText lines

/-- The text that is run. -/
def source? : Entry → Option String
  | single _ => none
  | text lines => some (linesText lines)

/-- Takes an entry in a session. -/
def serve (restart : Session → Session) (session : Session) : Entry → Session
  | single line =>
      match meaningOf line with
      | .help => helpLines.foldl Session.print session
      | .clear => (restart session).print "State cleared."
      | _ => session
  | text lines =>
      let (report, session) := session.run (linesText lines)
      (session.reportAll report).resetError

end Entry

/-- How the lines at the prompt end. -/
inductive Ending where
  /-- A line leaves the prompt, and others are not taken. -/
  | left (line : String) (others : List String)
  /-- No line is left, and a text that has begun is dropped. -/
  | exhausted (pending : List String)

namespace Ending

/-- The lines behind the last entry. -/
def lines : Ending → List String
  | left line others => line :: others
  | exhausted pending => pending

/-- The ending is what it claims to be. -/
def Fits : Ending → Prop
  | left line _ => meaningOf line = .leave
  | exhausted pending => IsPending pending

end Ending

/-- The text that a step runs. -/
def Step.source? : Step → Option String
  | .run source => some source
  | _ => none

/-! ## Pending lines -/

variable {front lines : List String} {line : String}

@[simp] theorem linesText_nil : linesText [] = "" := rfl

/-- A line more is joined to the text of the others. -/
theorem linesText_append_singleton (front : List String) (line : String) :
    linesText (front ++ [line]) = joined (linesText front) line := by
  simp [linesText, joined, String.join_append, String.append_assoc]

/-- Lines make up an empty text only if there are none. -/
theorem isEmpty_linesText (front : List String) : (linesText front).isEmpty = front.isEmpty := by
  cases front with
  | nil => rfl
  | cons first others => simp [linesText]

theorem isPending_nil : IsPending [] where
  begins := by simp
  opened front before nonempty := absurd (List.prefix_nil.mp before) nonempty

/-- What is before a line more is the whole or a beginning of the others. -/
theorem IsPending.opened_append
    (pending : IsPending front)
    {shorter : List String}
    (before : shorter <+: front ++ [line])
    (nonempty : shorter ≠ []) :
    shorter = front ++ [line] ∨ IsOpen shorter := by
  obtain whole | inside := List.prefix_concat_iff.mp before
  · exact .inl whole
  · exact .inr (pending.opened shorter inside nonempty)

theorem IsPending.begins_append
    (pending : IsPending front)
    (continues : front = [] → meaningOf line = .program) :
    ∀ first ∈ (front ++ [line]).head?, meaningOf first = .program := by
  cases front with
  | nil => simpa using continues
  | cons first others => exact pending.begins

/-- With a line more, pending lines are pending still, or a text. -/
theorem IsPending.append
    (pending : IsPending front)
    (continues : front = [] → meaningOf line = .program) :
    (IsOpen (front ++ [line]) → IsPending (front ++ [line])) ∧
      (¬ IsOpen (front ++ [line]) → IsText (front ++ [line])) := by
  have begins := pending.begins_append continues
  refine ⟨fun opened => ⟨begins, fun shorter before nonempty => ?_⟩,
    fun complete => ⟨by simp, begins, complete, fun shorter before nonempty proper => ?_⟩⟩
  · obtain rfl | inside := pending.opened_append before nonempty
    · exact opened
    · exact inside
  · exact (pending.opened_append before nonempty).resolve_left proper

/-! ## Steps -/

/-- The entries and the ending are those of the lines behind the pending ones. -/
structure Divides (front lines : List String) (entries : List Entry) (ending : Ending) : Prop where
  whole : front ++ lines = entries.flatMap Entry.lines ++ ending.lines
  entriesFit : ∀ entry ∈ entries, entry.Fits
  endingFits : ending.Fits
  sources : (stepsFrom (linesText front) lines).filterMap Step.source? =
    entries.filterMap Entry.source?
  serves : ∀ restart session,
    (stepsFrom (linesText front) lines).foldl (take restart) session =
      entries.foldl (Entry.serve restart) session

theorem stepsFrom_cons_of_ne
    {pending : String}
    (stays : stepOf pending line ≠ .leave)
    (lines : List String) :
    stepsFrom pending (line :: lines) =
      stepOf pending line :: stepsFrom (stepOf pending line).pending lines := by
  rw [stepsFrom]
  split
  next leaves => exact absurd leaves stays
  next => rfl

/-- A line of a program is kept or completes a text. -/
theorem IsPending.stepOf_eq
    (pending : IsPending front)
    (continues : front = [] → meaningOf line = .program) :
    stepOf (linesText front) line = programStep (linesText (front ++ [line])) := by
  unfold stepOf
  rw [isEmpty_linesText, linesText_append_singleton]
  cases front with
  | nil => simp [continues rfl]
  | cons first others => simp

/-- A line that is kept leaves the entries as they are. -/
theorem Divides.keep
    {entries : List Entry}
    {ending : Ending}
    (divides : Divides (front ++ [line]) lines entries ending)
    (kept : stepOf (linesText front) line = .keep (linesText (front ++ [line]))) :
    Divides front (line :: lines) entries ending := by
  have steps := stepsFrom_cons_of_ne (by rw [kept]; exact Step.noConfusion) lines
  rw [kept] at steps
  refine ⟨?_, divides.entriesFit, divides.endingFits, ?_, fun restart session => ?_⟩
  · rw [← divides.whole, List.append_assoc, List.singleton_append]
  · rw [steps]
    exact divides.sources
  · rw [steps]
    exact divides.serves restart session

/-- A line that completes an entry is followed by the entries of the others. -/
theorem Divides.cons
    {entries : List Entry}
    {ending : Ending}
    (divides : Divides [] lines entries ending)
    {entry : Entry}
    (fits : entry.Fits)
    (isLines : entry.lines = front ++ [line])
    (stays : stepOf (linesText front) line ≠ .leave)
    (complete : (stepOf (linesText front) line).pending = "")
    (source : (stepOf (linesText front) line).source? = entry.source?)
    (serves : ∀ restart session,
      take restart session (stepOf (linesText front) line) = entry.serve restart session) :
    Divides front (line :: lines) (entry :: entries) ending := by
  have steps := stepsFrom_cons_of_ne stays lines
  rw [complete] at steps
  refine ⟨?_, List.forall_mem_cons.mpr ⟨fits, divides.entriesFit⟩, divides.endingFits, ?_,
    fun restart session => ?_⟩
  · rw [List.flatMap_cons, isLines, List.append_assoc, List.append_assoc, ← divides.whole]
    simp
  · have sources := divides.sources
    rw [linesText_nil] at sources
    rw [steps, List.filterMap_cons, List.filterMap_cons, source, sources]
  · rw [steps, List.foldl_cons, List.foldl_cons, serves]
    exact divides.serves restart _

/-- A line that is no part of a text is an entry when nothing is pending. -/
theorem Divides.single
    {entries : List Entry}
    {ending : Ending}
    (divides : Divides [] lines entries ending)
    (fits : (Entry.single line).Fits) :
    Divides [] (line :: lines) (.single line :: entries) ending := by
  obtain meaning | meaning | meaning := fits
  all_goals
    refine divides.cons (by simp [Entry.Fits, meaning]) rfl ?stays ?complete ?source ?serves
    case stays => simp [stepOf, meaning]
    case complete => simp [stepOf, meaning, Step.pending]
    case source => simp [stepOf, meaning, Step.source?, Entry.source?]
    case serves => simp [stepOf, meaning, take, Entry.serve]

/-- However far a text has been put together, the lines divide into entries and an ending. -/
theorem IsPending.exists_divides (pending : IsPending front) (lines : List String) :
    ∃ entries ending, Divides front lines entries ending := by
  induction lines generalizing front with
  | nil =>
      exact ⟨[], .exhausted front, by simp [Ending.lines], by simp, pending, rfl, fun _ _ => rfl⟩
  | cons line lines inductionHypothesis =>
      obtain ⟨entries, ending, behind⟩ := inductionHypothesis isPending_nil
      by_cases continues : front = [] → meaningOf line = .program
      · have step := pending.stepOf_eq continues
        obtain ⟨goesOn, ends⟩ := pending.append continues
        by_cases opened : IsOpen (front ++ [line])
        · obtain ⟨others, last, divides⟩ := inductionHypothesis (goesOn opened)
          exact ⟨others, last, divides.keep (step.trans (if_pos opened))⟩
        · have runs := step.trans (if_neg opened)
          exact ⟨.text (front ++ [line]) :: entries, ending,
            behind.cons (ends opened) rfl (by rw [runs]; exact Step.noConfusion) (by rw [runs]; rfl)
              (by rw [runs]; rfl) (by rw [runs]; exact fun _ _ => rfl)⟩
      · obtain ⟨rfl, special⟩ := Classical.not_imp.mp continues
        cases meaning : meaningOf line with
        | program => exact absurd meaning special
        | leave =>
            have leaves : stepOf (linesText []) line = .leave := by
              simp [stepOf, meaning]
            have steps := stepsFrom_of_leave leaves lines
            exact ⟨[], .left line lines, rfl, by simp, meaning, by rw [steps]; rfl,
              fun _ _ => by rw [steps]; rfl⟩
        | blank => exact ⟨_, _, behind.single (.inl meaning)⟩
        | help => exact ⟨_, _, behind.single (.inr (.inl meaning))⟩
        | clear => exact ⟨_, _, behind.single (.inr (.inr meaning))⟩

/-- The lines at the prompt are the entries, one after the other and each with all its lines,
and the ending.  The texts that are run are those of the entries, and what a session becomes
is what serving the entries makes of it: how the lines are divided does not depend on the
session, nor on what a text did in it. -/
theorem takeLines_entries (lines : List String) :
    ∃ (entries : List Entry) (ending : Ending),
      lines = entries.flatMap Entry.lines ++ ending.lines ∧
      (∀ entry ∈ entries, entry.Fits) ∧
      ending.Fits ∧
      (steps lines).filterMap Step.source? = entries.filterMap Entry.source? ∧
      ∀ restart session,
        takeLines restart session lines =
          (entries.foldl (Entry.serve restart) session).print "Goodbye!" := by
  obtain ⟨entries, ending, divides⟩ := isPending_nil.exists_divides lines
  exact ⟨entries, ending, divides.whole, divides.entriesFit, divides.endingFits, divides.sources,
    fun restart session => congrArg (Session.print · "Goodbye!") (divides.serves restart session)⟩

end Prompt
end Scripting
