import Scripting.Proofs.Reading.Stretches

/-!
# Tokens written again

What may be spelled as a token of a kind, and with which value, is listed in `Spelled`.
Every token of a source is spelled so, and such a spelling is read as the same token
wherever a blank character or the end of the source comes after it.  So the tokens of a
source, written one after another with blank characters and comments between them, are
read as the same tokens again.

Main statement: `Scan.ofSource_written`.
-/

namespace Scripting
namespace Token

/-- The token without its place: its kind, its text and its value. -/
def unplaced (token : Token) : Token :=
  { token with span := Span.nowhere }

theorem unplaced_eq_iff {token other : Token} :
    token.unplaced = other.unplaced ↔
      token.kind = other.kind ∧ token.lexeme = other.lexeme ∧ token.literal = other.literal := by
  cases token
  cases other
  simp [unplaced]

/-! ## Spellings -/

open Piece (symbolOf? comparisonOf? comparison commentOrSlash quotedText fraction? numeral
  wordOrGap next)

/-- The spellings of the kinds of token, with the values they stand for. -/
inductive Spelled : Kind → Option Literal → List Char → Prop where
  | symbol {c : Char} {kind : Kind} (isSymbol : symbolOf? c = some kind) : Spelled kind none [c]
  | single {c : Char} {kinds : Kind × Kind} (compared : comparisonOf? c = some kinds) :
      Spelled kinds.1 none [c]
  | double {c : Char} {kinds : Kind × Kind} (compared : comparisonOf? c = some kinds) :
      Spelled kinds.2 none [c, '=']
  | slash : Spelled .slash none ['/']
  | text {body : List Char} (unquoted : ∀ c ∈ body, c ≠ '"') :
      Spelled .text (some (.text (String.ofList body))) ('"' :: body ++ ['"'])
  | whole {c : Char} {digits : List Char} (isDigit : ∀ d ∈ c :: digits, d.isDigit = true) :
      Spelled .number (some (.number (Decimal.ofDigits (c :: digits) []))) (c :: digits)
  | fraction {c d : Char} {digits decimals : List Char}
      (isDigit : ∀ d ∈ c :: digits, d.isDigit = true)
      (isDecimal : ∀ c ∈ d :: decimals, c.isDigit = true) :
      Spelled .number (some (.number (Decimal.ofDigits (c :: digits) (d :: decimals))))
        (c :: digits ++ '.' :: d :: decimals)
  | name {c : Char} {others : List Char} (starts : isNameStart c = true)
      (isPart : ∀ d ∈ others, isNamePart d = true) :
      Spelled (Kind.ofName (String.ofList (c :: others))) none (c :: others)

namespace Spelled

variable {kind : Kind} {literal : Option Literal} {spelling : List Char}

/-! ### Every token is spelled -/

theorem of_comparison
    {c : Char}
    {kinds : Kind × Kind}
    (compared : comparisonOf? c = some kinds)
    {rest : List Char}
    (read : (comparison kinds c rest).1 = .lexeme kind literal spelling) :
    Spelled kind literal spelling := by
  unfold comparison at read
  split at read <;> cases read
  · exact .double compared
  · exact .single compared

theorem of_commentOrSlash
    {rest : List Char}
    (read : (commentOrSlash rest).1 = .lexeme kind literal spelling) :
    Spelled kind literal spelling := by
  unfold commentOrSlash at read
  split at read <;> cases read
  exact .slash

theorem of_quotedText
    {rest : List Char}
    (read : (quotedText rest).1 = .lexeme kind literal spelling) :
    Spelled kind literal spelling := by
  unfold quotedText at read
  dsimp only at read
  split at read
  next quote others closing =>
      cases read
      have isQuote := List.head?_dropWhile_not (· != '"') rest
      rw [closing] at isQuote
      obtain rfl : quote = '"' := by simpa using isQuote
      refine .text fun c member => ?_
      rintro rfl
      exact Piece.not_mem_takeWhile_ne '"' rest member
  next => cases read

/-- A fraction has digits, and no others. -/
theorem isDigit_of_fraction
    {text digits others : List Char}
    (found : fraction? text = some (digits, others)) :
    digits ≠ [] ∧ ∀ d ∈ digits, d.isDigit = true := by
  unfold fraction? at found
  split at found
  next after =>
      split at found
      · contradiction
      next some? =>
          obtain ⟨rfl, -⟩ := Prod.mk.inj (Option.some.inj found)
          exact ⟨some?, List.all_eq_true.mp List.all_takeWhile⟩
  · contradiction

theorem of_numeral
    {c : Char}
    (isDigit : c.isDigit = true)
    {rest : List Char}
    (read : (numeral (c :: rest)).1 = .lexeme kind literal spelling) :
    Spelled kind literal spelling := by
  have taken : (c :: rest).takeWhile Char.isDigit = c :: rest.takeWhile Char.isDigit :=
    List.takeWhile_cons_of_pos isDigit
  have digits : ∀ d ∈ c :: rest.takeWhile Char.isDigit, d.isDigit = true := by
    rw [← taken]
    exact List.all_eq_true.mp List.all_takeWhile
  unfold numeral at read
  rw [taken] at read
  dsimp only at read
  split at read
  next decimals others found =>
      cases read
      obtain ⟨nonempty, decimal⟩ := isDigit_of_fraction found
      obtain ⟨d, decimals, rfl⟩ := List.exists_cons_of_ne_nil nonempty
      exact .fraction digits decimal
  next =>
      cases read
      exact .whole digits

theorem of_name
    {c : Char}
    (starts : isNameStart c = true)
    {rest : List Char}
    (read : (Piece.name (c :: rest)).1 = .lexeme kind literal spelling) :
    Spelled kind literal spelling := by
  have taken : (c :: rest).takeWhile isNamePart = c :: rest.takeWhile isNamePart :=
    List.takeWhile_cons_of_pos (Piece.isNamePart_of_isNameStart starts)
  unfold Piece.name at read
  rw [taken] at read
  cases read
  exact .name starts (List.all_eq_true.mp List.all_takeWhile)

theorem of_wordOrGap
    {c : Char}
    {rest : List Char}
    (read : (wordOrGap c rest).1 = .lexeme kind literal spelling) :
    Spelled kind literal spelling := by
  unfold wordOrGap at read
  split at read
  · exact of_commentOrSlash read
  split at read
  · exact of_quotedText read
  split at read
  · cases read
  split at read
  next isDigit => exact of_numeral isDigit read
  split at read
  next starts => exact of_name starts read
  · cases read

/-- A token at the front of a text is spelled. -/
theorem of_next
    {c : Char}
    {rest : List Char}
    (read : (next c rest).1 = .lexeme kind literal spelling) :
    Spelled kind literal spelling := by
  unfold next at read
  split at read
  next isSymbol =>
      cases read
      exact .symbol isSymbol
  split at read
  next compared => exact of_comparison compared read
  · exact of_wordOrGap read

/-- Every token of a text is spelled. -/
theorem of_mem_ofText
    {text : List Char}
    (member : Piece.lexeme kind literal spelling ∈ Piece.ofText text) :
    Spelled kind literal spelling := by
  induction lengthBound : text.length using Nat.strongRecOn generalizing text with
  | ind length inductionHypothesis =>
      cases text with
      | nil => simp at member
      | cons c rest =>
          have shorter : (next c rest).2.length < length := by
            rw [← lengthBound]
            exact Piece.next_length_lt c rest
          rw [Piece.ofText_cons] at member
          rcases List.mem_cons.mp member with read | later
          · exact of_next read.symm
          · exact inductionHypothesis _ shorter later rfl

end Spelled

/-! ### A spelling is read as its token -/

/-- A text that begins with a blank character, if with any. -/
def SetsApart (after : List Char) : Prop :=
  ∀ c ∈ after.head?, isSeparator c = true

namespace SetsApart

variable {after : List Char}

theorem nil : SetsApart [] := by
  simp [SetsApart]

theorem of_separator {c : Char} (separates : isSeparator c = true) (rest : List Char) :
    SetsApart (c :: rest) := by
  rintro d head
  obtain rfl := Option.some.inj head
  exact separates

theorem head?_ne (apart : SetsApart after) {c : Char} (noBlank : isSeparator c = false) :
    after.head? ≠ some c := by
  intro head
  rw [apart c head] at noBlank
  cases noBlank

/-- Nothing that has no blank characters goes on. -/
theorem stops
    (apart : SetsApart after)
    {p : Char → Bool}
    (noBlank : ∀ c ∈ blanks, p c = false) :
    ∀ c ∈ after.head?, p c = false :=
  fun c head => noBlank c ((isSeparator_iff c).mp (apart c head))

end SetsApart

/-- What passes is taken up to what does not. -/
theorem span_append
    {p : Char → Bool}
    {text after : List Char}
    (passes : ∀ c ∈ text, p c = true)
    (stops : ∀ c ∈ after.head?, p c = false) :
    (text ++ after).takeWhile p = text ∧ (text ++ after).dropWhile p = after := by
  rw [List.takeWhile_append_of_pos passes, List.dropWhile_append_of_pos passes]
  cases after with
  | nil => simp
  | cons c rest => simp [stops c rfl]

theorem isDigit_of_mem_blanks : ∀ c ∈ blanks, c.isDigit = false := by
  simp only [blanks, List.forall_mem_cons]
  exact ⟨rfl, rfl, rfl, rfl, List.forall_mem_nil _⟩

theorem isNamePart_of_mem_blanks : ∀ c ∈ blanks, isNamePart c = false := by
  simp only [blanks, List.forall_mem_cons]
  exact ⟨rfl, rfl, rfl, rfl, List.forall_mem_nil _⟩

/-- No symbol and no blank character may stand in a name. -/
theorem wordOrGap_of_isNamePart
    {c : Char}
    (part : isNamePart c = true)
    (rest : List Char) :
    next c rest = wordOrGap c rest ∧ c ≠ '/' ∧ c ≠ '"' ∧ isSeparator c = false := by
  have noSymbol : symbolOf? c = none := by
    unfold symbolOf?
    split <;> first | rfl | exact absurd part (by decide)
  have notCompared : comparisonOf? c = none := by
    unfold comparisonOf?
    split <;> first | rfl | exact absurd part (by decide)
  refine ⟨by simp only [next, noSymbol, notCompared], ?slash, ?quote, ?blank⟩
  case slash =>
    rintro rfl
    exact absurd part (by decide)
  case quote =>
    rintro rfl
    exact absurd part (by decide)
  case blank =>
    refine Bool.eq_false_iff.mpr fun separates => ?_
    rw [isNamePart_of_mem_blanks c ((isSeparator_iff c).mp separates)] at part
    cases part

/-- A number is read from its first digit on. -/
theorem next_of_isDigit
    {c : Char}
    (isDigit : c.isDigit = true)
    (rest : List Char) :
    next c rest = numeral (c :: rest) := by
  have part : isNamePart c = true := by simp [isNamePart, Char.isAlphanum, isDigit]
  obtain ⟨same, slash, quote, blank⟩ := wordOrGap_of_isNamePart part rest
  simp [same, wordOrGap, slash, quote, blank, isDigit]

/-- A name is read from its first character on. -/
theorem next_of_isNameStart
    {c : Char}
    (starts : isNameStart c = true)
    (rest : List Char) :
    next c rest = Piece.name (c :: rest) := by
  obtain ⟨same, slash, quote, blank⟩ :=
    wordOrGap_of_isNamePart (Piece.isNamePart_of_isNameStart starts) rest
  have noDigit : c.isDigit = false := by
    unfold isNameStart Char.isAlpha Char.isUpper Char.isLower at starts
    by_cases underscore : c = '_'
    · rw [underscore]
      decide
    · unfold Char.isDigit
      grind
  simp [same, wordOrGap, slash, quote, blank, noDigit, starts]

theorem next_of_comparisonOf?
    {c : Char}
    {kinds : Kind × Kind}
    (compared : comparisonOf? c = some kinds)
    (rest : List Char) :
    next c rest = comparison kinds c rest := by
  have noSymbol : symbolOf? c = none := by
    unfold comparisonOf? at compared
    split at compared <;> first | rfl | contradiction
  simp only [next, noSymbol, compared]

theorem quotedText_of_unquoted
    {body : List Char}
    (unquoted : ∀ c ∈ body, c ≠ '"')
    (after : List Char) :
    quotedText (body ++ '"' :: after) =
      (.lexeme .text (some (.text (String.ofList body))) ('"' :: body ++ ['"']), after) := by
  have passes : ∀ c ∈ body, (c != '"') = true := by simpa using unquoted
  unfold quotedText
  simp only [List.takeWhile_append_of_pos passes, List.dropWhile_append_of_pos passes]
  rw [List.takeWhile_cons_of_neg (by decide), List.dropWhile_cons_of_neg (by decide),
    List.append_nil]

/-- No number goes on after a blank character. -/
theorem fraction?_of_setsApart
    {after : List Char}
    (apart : SetsApart after) :
    fraction? after = none := by
  unfold fraction?
  split
  next rest => exact absurd (apart '.' rfl) (by decide)
  · rfl

theorem numeral_of_whole
    {digits after : List Char}
    (isDigit : ∀ d ∈ digits, d.isDigit = true)
    (stops : ∀ c ∈ after.head?, c.isDigit = false)
    (noFraction : fraction? after = none) :
    numeral (digits ++ after) =
      (.lexeme .number (some (.number (Decimal.ofDigits digits []))) digits, after) := by
  obtain ⟨taken, dropped⟩ := span_append isDigit stops
  unfold numeral
  simp only [taken, dropped, noFraction]

theorem numeral_of_fraction
    {digits decimals after : List Char}
    (isDigit : ∀ d ∈ digits, d.isDigit = true)
    (isDecimal : ∀ d ∈ decimals, d.isDigit = true)
    (nonempty : decimals ≠ [])
    (stops : ∀ c ∈ after.head?, c.isDigit = false) :
    numeral (digits ++ '.' :: decimals ++ after) =
      (.lexeme .number (some (.number (Decimal.ofDigits digits decimals)))
        (digits ++ '.' :: decimals), after) := by
  obtain ⟨taken, dropped⟩ := span_append isDecimal stops
  have found : fraction? ('.' :: (decimals ++ after)) = some (decimals, after) := by
    simp only [fraction?, taken, dropped]
  unfold numeral
  rw [List.append_assoc, List.cons_append]
  simp only [List.takeWhile_append_of_pos isDigit, List.dropWhile_append_of_pos isDigit]
  rw [List.takeWhile_cons_of_neg (by decide), List.dropWhile_cons_of_neg (by decide), found,
    List.append_nil]

theorem name_of_isPart
    {spelling after : List Char}
    (isPart : ∀ d ∈ spelling, isNamePart d = true)
    (stops : ∀ c ∈ after.head?, isNamePart c = false) :
    Piece.name (spelling ++ after) =
      (.lexeme (Kind.ofName (String.ofList spelling)) none spelling, after) := by
  obtain ⟨taken, dropped⟩ := span_append isPart stops
  unfold Piece.name
  simp only [taken, dropped]

/-- A spelling is read as its token when a blank character or nothing comes after it. -/
theorem Spelled.ofText_append
    {kind : Kind}
    {literal : Option Literal}
    {spelling after : List Char}
    (spelled : Spelled kind literal spelling)
    (apart : SetsApart after) :
    Piece.ofText (spelling ++ after) = .lexeme kind literal spelling :: Piece.ofText after := by
  have step : ∀ {c rest}, spelling = c :: rest →
      next c (rest ++ after) = (.lexeme kind literal spelling, after) →
      Piece.ofText (spelling ++ after) =
        .lexeme kind literal spelling :: Piece.ofText after := by
    rintro c rest rfl read
    rw [List.cons_append, Piece.ofText_cons, read]
  cases spelled with
  | symbol isSymbol => exact step rfl (by simp [next, isSymbol])
  | single compared =>
      refine step rfl ?_
      rw [next_of_comparisonOf? compared]
      exact Piece.comparison_of_head?_ne (apart.head?_ne (by decide)) _ _
  | double compared => exact step rfl (next_of_comparisonOf? compared _)
  | slash => exact step rfl (Piece.commentOrSlash_of_head?_ne (apart.head?_ne (by decide)))
  | text unquoted =>
      refine step rfl ?_
      have read := quotedText_of_unquoted unquoted after
      rwa [← List.singleton_append, ← List.append_assoc] at read
  | whole isDigit =>
      exact step rfl ((next_of_isDigit (isDigit _ List.mem_cons_self) _).trans
        (numeral_of_whole isDigit (apart.stops isDigit_of_mem_blanks)
          (fraction?_of_setsApart apart)))
  | fraction isDigit isDecimal =>
      exact step rfl ((next_of_isDigit (isDigit _ List.mem_cons_self) _).trans
        (numeral_of_fraction isDigit isDecimal (List.cons_ne_nil _ _)
          (apart.stops isDigit_of_mem_blanks)))
  | name starts isPart =>
      exact step rfl ((next_of_isNameStart starts _).trans
        (name_of_isPart (List.forall_mem_cons.mpr
          ⟨Piece.isNamePart_of_isNameStart starts, isPart⟩)
          (apart.stops isNamePart_of_mem_blanks)))

/-! ## Writing tokens -/

/-- What may stand between two tokens after a blank character. -/
inductive Filler where
  | blank (c : Char) (separates : isSeparator c = true)
  /-- A comment and the end of its line. -/
  | comment (body : List Char) (oneLine : ∀ c ∈ body, c ≠ '\n')

/-- The text of a filler. -/
def Filler.chars : Filler → List Char
  | blank c _ => [c]
  | comment body _ => '/' :: '/' :: body ++ ['\n']

/-- What stands between two tokens: a blank character, and more of them and comments. -/
structure Gap where
  first : Char
  separates : isSeparator first = true
  others : List Filler

/-- The text of a gap. -/
def Gap.chars (gap : Gap) : List Char :=
  gap.first :: gap.others.flatMap Filler.chars

/-- The texts of tokens, one after another. The gap in front of the last `n` tokens is
`gaps n`. -/
def written (gaps : Nat → Gap) : List Token → List Char
  | [] => []
  | [token] => token.lexeme.toList
  | token :: next :: others =>
      token.lexeme.toList ++
        ((gaps (others.length + 1)).chars ++ written gaps (next :: others))

namespace Piece

/-- The token that a piece is, without its place. -/
def token? : Piece → Option Token
  | lexeme kind literal spelling => some ⟨kind, String.ofList spelling, literal, Span.nowhere⟩
  | _ => none

end Piece

namespace Scan

/-- But for their places, the tokens are those of the pieces. -/
theorem tokens_foldl_add_unplaced (pieces : List Piece) (scan : Scan) :
    (pieces.foldl add scan).tokens.toList.map unplaced =
      scan.tokens.toList.map unplaced ++ pieces.filterMap Piece.token? := by
  induction pieces generalizing scan with
  | nil => simp
  | cons piece others inductionHypothesis =>
      rw [List.foldl_cons, inductionHypothesis, List.filterMap_cons]
      cases piece <;> simp [add, Piece.token?, unplaced]

theorem ofText_tokens_unplaced (text : List Char) :
    (ofText text).tokens.toList.map unplaced = (Piece.ofText text).filterMap Piece.token? :=
  tokens_foldl_add_unplaced (Piece.ofText text) start

end Scan

/-- A text has no faults and certain tokens, but for their places. -/
def IsReadAs (text : List Char) (tokens : List Token) : Prop :=
  (∀ piece ∈ Piece.ofText text, piece.isSound = true) ∧
    (Piece.ofText text).filterMap Piece.token? = tokens

namespace IsReadAs

variable {text : List Char} {tokens : List Token}

theorem nil : IsReadAs [] [] := by
  simp [IsReadAs]

/-- Blank characters leave no trace. -/
theorem blank
    (isRead : IsReadAs text tokens)
    {c : Char}
    (separates : isSeparator c = true) :
    IsReadAs (c :: text) tokens := by
  have read : next c text = (.separator c, text) := by
    have blanksRead : ∀ d ∈ blanks, next d text = (.separator d, text) := by
      simp [blanks, next, symbolOf?, comparisonOf?, wordOrGap, isSeparator]
    exact blanksRead c ((isSeparator_iff c).mp separates)
  obtain ⟨sound, same⟩ := isRead
  rw [IsReadAs, Piece.ofText_cons, read]
  exact ⟨List.forall_mem_cons.mpr ⟨rfl, sound⟩, same⟩

/-- Comments leave no trace. -/
theorem comment
    (isRead : IsReadAs text tokens)
    {body : List Char}
    (oneLine : ∀ c ∈ body, c ≠ '\n') :
    IsReadAs ('/' :: '/' :: body ++ '\n' :: text) tokens := by
  have passes : ∀ c ∈ body, (c != '\n') = true := by simpa using oneLine
  have read : next '/' ('/' :: (body ++ '\n' :: text)) = (.comment body, '\n' :: text) := by
    have slash (rest : List Char) : next '/' rest = commentOrSlash rest := rfl
    rw [slash]
    unfold commentOrSlash
    simp only [List.takeWhile_append_of_pos passes, List.dropWhile_append_of_pos passes]
    rw [List.takeWhile_cons_of_neg (by decide), List.dropWhile_cons_of_neg (by decide),
      List.append_nil]
  obtain ⟨sound, same⟩ := isRead.blank (c := '\n') rfl
  rw [IsReadAs, List.cons_append, List.cons_append, Piece.ofText_cons, read]
  exact ⟨List.forall_mem_cons.mpr ⟨rfl, sound⟩, same⟩

theorem filler (isRead : IsReadAs text tokens) (filler : Filler) :
    IsReadAs (filler.chars ++ text) tokens := by
  cases filler with
  | blank c separates => exact isRead.blank separates
  | comment body oneLine =>
      have read := isRead.comment oneLine
      simpa [Filler.chars] using read

/-- What stands between tokens leaves no trace. -/
theorem gap (isRead : IsReadAs text tokens) (gap : Gap) :
    IsReadAs (gap.chars ++ text) tokens := by
  have others : IsReadAs (gap.others.flatMap Filler.chars ++ text) tokens := by
    induction gap.others with
    | nil => exact isRead
    | cons filler fillers inductionHypothesis =>
        rw [List.flatMap_cons, List.append_assoc]
        exact inductionHypothesis.filler filler
  exact others.blank gap.separates

theorem token
    (isRead : IsReadAs text tokens)
    (apart : SetsApart text)
    {token : Token}
    (spelled : Spelled token.kind token.literal token.lexeme.toList) :
    IsReadAs (token.lexeme.toList ++ text) (token.unplaced :: tokens) := by
  obtain ⟨sound, same⟩ := isRead
  rw [IsReadAs, spelled.ofText_append apart, List.filterMap_cons, same]
  refine ⟨List.forall_mem_cons.mpr ⟨rfl, sound⟩, ?_⟩
  simp [Piece.token?, unplaced]

/-- Tokens that are written are read again. -/
theorem written
    (gaps : Nat → Gap)
    (spelled : ∀ token ∈ tokens, Spelled token.kind token.literal token.lexeme.toList) :
    IsReadAs (written gaps tokens) (tokens.map unplaced) := by
  induction tokens with
  | nil => exact .nil
  | cons token others inductionHypothesis =>
      obtain ⟨first, rest⟩ := List.forall_mem_cons.mp spelled
      have isRead := inductionHypothesis rest
      cases others with
      | nil =>
          have read := isRead.token (fun _ head => nomatch head) first
          rwa [Token.written, List.append_nil] at read
      | cons next others =>
          let between := gaps (others.length + 1)
          exact (isRead.gap between).token (.of_separator between.separates _) first

end IsReadAs

namespace Scan

/-- Every token of a source is spelled. -/
theorem spelled_of_mem_tokens
    {text : List Char}
    {token : Token}
    (member : token ∈ (ofText text).tokens.toList) :
    Spelled token.kind token.literal token.lexeme.toList := by
  have inside := List.mem_map_of_mem (f := unplaced) member
  rw [ofText_tokens_unplaced, List.mem_filterMap] at inside
  obtain ⟨piece, isPiece, isToken⟩ := inside
  cases piece with
  | lexeme kind literal spelling =>
      obtain ⟨rfl, lexeme, rfl, -⟩ := Token.mk.inj (Option.some.inj isToken)
      rw [← lexeme, String.toList_ofList]
      exact .of_mem_ofText isPiece
  | _ => cases isToken

/-- Whatever the faults of a source are, its tokens, written one after another with blank
characters and comments between them, are read without faults as the same kinds of token
with the same texts and values. -/
theorem ofSource_written (source : String) (gaps : Nat → Gap) :
    let tokens := (ofSource source).sequence
    let again := ofSource (String.ofList (written gaps tokens.body))
    again.faults = #[] ∧ again.sequence.toList.map unplaced = tokens.toList.map unplaced := by
  intro tokens again
  have spelled : ∀ token ∈ tokens.body, Spelled token.kind token.literal token.lexeme.toList :=
    fun token member => spelled_of_mem_tokens member
  obtain ⟨sound, same⟩ := IsReadAs.written gaps spelled
  have scanned : again = ofText (written gaps tokens.body) := by
    simp only [again, ofSource, String.toList_ofList]
  constructor
  · rw [scanned]
    exact (ofText_faults _).mpr sound
  · have body : again.sequence.body.map unplaced = tokens.body.map unplaced := by
      rw [← same, ← ofText_tokens_unplaced, scanned]
      rfl
    simp only [Sequence.toList, List.map_append, body]
    rfl

end Scan
end Token
end Scripting
