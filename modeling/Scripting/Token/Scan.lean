import Scripting.Fault
import Scripting.Decimal.Nearest

/-!
# From a source text to tokens

A source text falls into pieces, which laid end to end are the text again: blank
characters, comments, the texts of tokens, characters that begin none of these,
and possibly, last, a quoted text that is never closed.  `Piece.next` takes the
piece at the front of a text, always the longest of its kind.

The places of the pieces are counted afterwards: `Scan.add` walks along the
pieces with a `Position` and collects the tokens and the faults.
-/

namespace Scripting
namespace Token

/-- A place in a source: the bytes before it, and its line and column, counted from
one. -/
structure Position where
  offset : Nat
  line : Nat
  column : Nat
  deriving DecidableEq, Inhabited

namespace Position

/-- The first place of every source. -/
def first : Position := ⟨0, 1, 1⟩

/-- The place after a character. -/
def after (position : Position) (c : Char) : Position :=
  if c = '\n' then ⟨position.offset + c.utf8Size, position.line + 1, 1⟩
  else ⟨position.offset + c.utf8Size, position.line, position.column + 1⟩

/-- The place after a text. -/
def afterAll (position : Position) (text : List Char) : Position :=
  text.foldl after position

@[simp] theorem afterAll_nil (position : Position) : position.afterAll [] = position := rfl

@[simp] theorem afterAll_cons (position : Position) (c : Char) (rest : List Char) :
    position.afterAll (c :: rest) = (position.after c).afterAll rest := rfl

theorem afterAll_append (position : Position) (text rest : List Char) :
    position.afterAll (text ++ rest) = (position.afterAll text).afterAll rest :=
  List.foldl_append

/-- The span from this place to a later one. -/
def spanTo (position stop : Position) : Span :=
  ⟨position.offset, stop.offset, position.line, position.column⟩

end Position

/-- Whether a character may stand between tokens. -/
def isSeparator (c : Char) : Bool :=
  c == ' ' || c == '\t' || c == '\r' || c == '\n'

/-- Whether a character may begin a name. -/
def isNameStart (c : Char) : Bool :=
  c.isAlpha || c == '_'

/-- Whether a character may stand in a name. -/
def isNamePart (c : Char) : Bool :=
  c.isAlphanum || c == '_'

/-- A piece of a source text. -/
inductive Piece where
  /-- A character between tokens. -/
  | separator (c : Char)
  /-- Two slashes and the rest of the line. -/
  | comment (body : List Char)
  | lexeme (kind : Kind) (literal : Option Literal) (spelling : List Char)
  /-- A character with which nothing begins. -/
  | stray (c : Char)
  /-- A quote with no second one after it, and the rest of the source. -/
  | unclosed (body : List Char)

namespace Piece

/-- The text of a piece. -/
def chars : Piece → List Char
  | separator c => [c]
  | comment body => '/' :: '/' :: body
  | lexeme _ _ spelling => spelling
  | stray c => [c]
  | unclosed body => '"' :: body

/-- The kind of the characters that are tokens by themselves. -/
def symbolOf? (c : Char) : Option Kind :=
  match c with
  | '(' => some .leftParen
  | ')' => some .rightParen
  | '\x7b' => some .leftBrace
  | '\x7d' => some .rightBrace
  | '[' => some .leftBracket
  | ']' => some .rightBracket
  | ',' => some .comma
  | '.' => some .dot
  | ';' => some .semicolon
  | '-' => some .minus
  | '+' => some .plus
  | '*' => some .star
  | _ => none

/-- The kinds of the characters that are tokens by themselves and also with an equals
sign after them. -/
def comparisonOf? (c : Char) : Option (Kind × Kind) :=
  match c with
  | '!' => some (.bang, .bangEqual)
  | '=' => some (.equal, .equalEqual)
  | '<' => some (.less, .lessEqual)
  | '>' => some (.greater, .greaterEqual)
  | _ => none

/-- A token of one character, or of two when an equals sign follows. -/
def comparison (kinds : Kind × Kind) (c : Char) : List Char → Piece × List Char
  | '=' :: rest => (lexeme kinds.2 none [c, '='], rest)
  | rest => (lexeme kinds.1 none [c], rest)

/-- A comment or a slash, after a slash. -/
def commentOrSlash : List Char → Piece × List Char
  | '/' :: rest =>
      (comment (rest.takeWhile (· != '\n')), rest.dropWhile (· != '\n'))
  | rest => (lexeme .slash none ['/'], rest)

/-- A quoted text, after its first quote. -/
def quotedText (rest : List Char) : Piece × List Char :=
  let body := rest.takeWhile (· != '"')
  match rest.dropWhile (· != '"') with
  | quote :: others =>
      (lexeme .text (some (.text (String.ofList body))) ('"' :: body ++ [quote]), others)
  | [] => (unclosed body, [])

/-- The fraction at the front of a text: a point and the digits after it, of which
there must be one. -/
def fraction? : List Char → Option (List Char × List Char)
  | '.' :: rest =>
      match rest.takeWhile Char.isDigit with
      | [] => none
      | digits => some (digits, rest.dropWhile Char.isDigit)
  | _ => none

/-- A number, from its first digit on. -/
def numeral (text : List Char) : Piece × List Char :=
  let whole := text.takeWhile Char.isDigit
  let rest := text.dropWhile Char.isDigit
  match fraction? rest with
  | some (digits, others) =>
      (lexeme .number (some (.number (Decimal.ofDigits whole digits))) (whole ++ '.' :: digits),
        others)
  | none => (lexeme .number (some (.number (Decimal.ofDigits whole []))) whole, rest)

/-- A name or a keyword, from its first character on. -/
def name (text : List Char) : Piece × List Char :=
  let spelling := text.takeWhile isNamePart
  (lexeme (Kind.ofName (String.ofList spelling)) none spelling, text.dropWhile isNamePart)

/-- The piece that begins with a character that is no symbol. -/
def wordOrGap (c : Char) (rest : List Char) : Piece × List Char :=
  if c = '/' then commentOrSlash rest
  else if c = '"' then quotedText rest
  else if isSeparator c then (separator c, rest)
  else if c.isDigit then numeral (c :: rest)
  else if isNameStart c then name (c :: rest)
  else (stray c, rest)

/-- The piece that begins with the character `c`, and the text after it. -/
def next (c : Char) (rest : List Char) : Piece × List Char :=
  match symbolOf? c with
  | some kind => (lexeme kind none [c], rest)
  | none =>
      match comparisonOf? c with
      | some kinds => comparison kinds c rest
      | none => wordOrGap c rest

theorem comparison_append
    (kinds : Kind × Kind)
    (c : Char)
    (rest : List Char) :
    (comparison kinds c rest).1.chars ++ (comparison kinds c rest).2 = c :: rest := by
  unfold comparison
  split <;> simp [chars]

theorem commentOrSlash_append (rest : List Char) :
    (commentOrSlash rest).1.chars ++ (commentOrSlash rest).2 = '/' :: rest := by
  unfold commentOrSlash
  split <;> simp [chars, List.takeWhile_append_dropWhile]

theorem quotedText_append (rest : List Char) :
    (quotedText rest).1.chars ++ (quotedText rest).2 = '"' :: rest := by
  have whole := List.takeWhile_append_dropWhile (p := fun c : Char => c != '"') (l := rest)
  unfold quotedText
  dsimp only
  split
  next quote others equation =>
      rw [equation] at whole
      simpa [chars] using whole
  next equation =>
      rw [equation] at whole
      simpa [chars] using whole

theorem fraction?_append
    {text digits others : List Char}
    (found : fraction? text = some (digits, others)) :
    '.' :: digits ++ others = text := by
  unfold fraction? at found
  split at found
  next rest =>
      split at found
      · contradiction
      next =>
          obtain ⟨rfl, rfl⟩ := Prod.mk.inj (Option.some.inj found)
          simp [List.takeWhile_append_dropWhile]
  · contradiction

theorem numeral_append (text : List Char) :
    (numeral text).1.chars ++ (numeral text).2 = text := by
  have whole := List.takeWhile_append_dropWhile (p := Char.isDigit) (l := text)
  unfold numeral
  dsimp only
  split
  next digits others found =>
      have rest := fraction?_append found
      rw [← rest] at whole
      simpa [chars] using whole
  · simp [chars]

theorem name_append (text : List Char) :
    (name text).1.chars ++ (name text).2 = text := by
  simp [name, chars, List.takeWhile_append_dropWhile]

theorem wordOrGap_append (c : Char) (rest : List Char) :
    (wordOrGap c rest).1.chars ++ (wordOrGap c rest).2 = c :: rest := by
  unfold wordOrGap
  split
  next slash => exact slash ▸ commentOrSlash_append rest
  split
  next quote => exact quote ▸ quotedText_append rest
  split
  · rfl
  split
  · exact numeral_append (c :: rest)
  split
  · exact name_append (c :: rest)
  · rfl

/-- The piece at the front of a text and what follows it make up the text again. -/
theorem next_append (c : Char) (rest : List Char) :
    (next c rest).1.chars ++ (next c rest).2 = c :: rest := by
  unfold next
  split
  · rfl
  split
  · exact comparison_append _ c rest
  · exact wordOrGap_append c rest

theorem comparison_chars_ne_nil
    (kinds : Kind × Kind)
    (c : Char)
    (rest : List Char) :
    (comparison kinds c rest).1.chars ≠ [] := by
  unfold comparison
  split <;> exact List.cons_ne_nil _ _

theorem commentOrSlash_chars_ne_nil (rest : List Char) :
    (commentOrSlash rest).1.chars ≠ [] := by
  unfold commentOrSlash
  split <;> exact List.cons_ne_nil _ _

theorem quotedText_chars_ne_nil (rest : List Char) :
    (quotedText rest).1.chars ≠ [] := by
  unfold quotedText
  dsimp only
  split <;> exact List.cons_ne_nil _ _

theorem numeral_chars_ne_nil
    {c : Char}
    (digit : c.isDigit = true)
    (rest : List Char) :
    (numeral (c :: rest)).1.chars ≠ [] := by
  unfold numeral
  dsimp only
  split <;> simp [chars, digit]

theorem isNamePart_of_isNameStart
    {c : Char}
    (start : isNameStart c = true) :
    isNamePart c = true := by
  unfold isNameStart at start
  unfold isNamePart Char.isAlphanum
  cases alpha : c.isAlpha <;> simp_all

theorem name_chars_ne_nil
    {c : Char}
    (start : isNameStart c = true)
    (rest : List Char) :
    (name (c :: rest)).1.chars ≠ [] := by
  simp [name, chars, isNamePart_of_isNameStart start]

theorem wordOrGap_chars_ne_nil (c : Char) (rest : List Char) :
    (wordOrGap c rest).1.chars ≠ [] := by
  unfold wordOrGap
  split
  · exact commentOrSlash_chars_ne_nil rest
  split
  · exact quotedText_chars_ne_nil rest
  split
  · exact List.cons_ne_nil _ _
  split
  next digit => exact numeral_chars_ne_nil digit rest
  split
  next start => exact name_chars_ne_nil start rest
  · exact List.cons_ne_nil _ _

/-- A piece is never empty. -/
theorem next_chars_ne_nil (c : Char) (rest : List Char) :
    (next c rest).1.chars ≠ [] := by
  unfold next
  split
  · exact List.cons_ne_nil _ _
  split
  · exact comparison_chars_ne_nil _ c rest
  · exact wordOrGap_chars_ne_nil c rest

/-- What follows a piece is shorter than the text with the piece. -/
theorem next_length_lt (c : Char) (rest : List Char) :
    (next c rest).2.length < (c :: rest).length := by
  have whole := congrArg List.length (next_append c rest)
  have nonempty := List.length_pos_iff.mpr (next_chars_ne_nil c rest)
  rw [List.length_append] at whole
  omega

/-- The pieces of a text, after those already `found`. -/
def collect (found : Array Piece) : List Char → Array Piece
  | [] => found
  | c :: rest =>
      let step := next c rest
      collect (found.push step.1) step.2
termination_by text => text.length
decreasing_by exact next_length_lt c rest

/-- The pieces of a text. -/
def ofText (text : List Char) : List Piece :=
  (collect #[] text).toList

theorem collect_eq (found : Array Piece) (text : List Char) :
    (collect found text).toList = found.toList ++ ofText text := by
  induction lengthBound : text.length using Nat.strongRecOn generalizing found text with
  | ind length inductionHypothesis =>
      cases text with
      | nil => simp [collect, ofText]
      | cons c rest =>
          have shorter : (next c rest).2.length < length := by
            rw [← lengthBound]
            exact next_length_lt c rest
          unfold ofText
          rw [collect, collect]
          rw [inductionHypothesis _ shorter _ _ rfl,
            inductionHypothesis _ shorter (#[].push _) _ rfl]
          simp

@[simp] theorem ofText_nil : ofText [] = [] := by
  simp [ofText, collect]

/-- The first piece of a text is taken off its front, and the others are the pieces
of the rest. -/
theorem ofText_cons (c : Char) (rest : List Char) :
    ofText (c :: rest) = (next c rest).1 :: ofText (next c rest).2 := by
  conv => lhs; unfold ofText
  rw [collect, collect_eq]
  simp

/-- The pieces laid end to end are the text. -/
theorem flatMap_chars_ofText (text : List Char) :
    (ofText text).flatMap chars = text := by
  induction lengthBound : text.length using Nat.strongRecOn generalizing text with
  | ind length inductionHypothesis =>
      cases text with
      | nil => simp
      | cons c rest =>
          have shorter : (next c rest).2.length < length := by
            rw [← lengthBound]
            exact next_length_lt c rest
          rw [ofText_cons, List.flatMap_cons, inductionHypothesis _ shorter _ rfl, next_append]

end Piece

/-- What has been read of a source. -/
structure Scan where
  /-- The place up to which it has been read. -/
  position : Position
  tokens : Array Token
  faults : Array Fault

namespace Scan

/-- Nothing read yet. -/
def start : Scan where
  position := Position.first
  tokens := #[]
  faults := #[]

/-- Reads one piece more. A quote without a second one is blamed on the end of the
source, where the second one is missed. -/
def add (scan : Scan) (piece : Piece) : Scan :=
  let stop := scan.position.afterAll piece.chars
  let span := scan.position.spanTo stop
  match piece with
  | .separator _ | .comment _ => { scan with position := stop }
  | .lexeme kind literal spelling =>
      { scan with
        position := stop
        tokens := scan.tokens.push ⟨kind, String.ofList spelling, literal, span⟩ }
  | .stray c =>
      { scan with
        position := stop
        faults := scan.faults.push (Fault.ofCause (.unexpectedCharacter c) (some span)) }
  | .unclosed _ =>
      { scan with
        position := stop
        faults := scan.faults.push (Fault.ofCause .unterminatedText (some (stop.spanTo stop))) }

/-- The end of the input, at the place reached. -/
def ending (scan : Scan) : Token where
  kind := .endOfInput
  lexeme := ""
  literal := none
  span := scan.position.spanTo scan.position

/-- The tokens read, closed by the end of the input. -/
def sequence (scan : Scan) : Sequence where
  body := scan.tokens.toList
  ending := scan.ending

/-- What reading a whole text gives. -/
def ofText (text : List Char) : Scan :=
  (Piece.ofText text).foldl add start

/-- What reading a whole source gives. -/
def ofSource (source : String) : Scan :=
  ofText source.toList

/-- After a piece, the place reached is the place after its text. -/
@[simp] theorem add_position (scan : Scan) (piece : Piece) :
    (scan.add piece).position = scan.position.afterAll piece.chars := by
  cases piece <;> rfl

/-- After all pieces, the place reached is the place after their text. -/
theorem foldl_add_position (pieces : List Piece) (scan : Scan) :
    (pieces.foldl add scan).position = scan.position.afterAll (pieces.flatMap Piece.chars) := by
  induction pieces generalizing scan with
  | nil => rfl
  | cons piece rest inductionHypothesis =>
      rw [List.foldl_cons, inductionHypothesis, add_position, List.flatMap_cons,
        Position.afterAll_append]

/-- A source is read up to its end. -/
theorem ofText_position (text : List Char) :
    (ofText text).position = Position.first.afterAll text := by
  unfold ofText
  rw [foldl_add_position, Piece.flatMap_chars_ofText]
  rfl

end Scan
end Token
end Scripting
