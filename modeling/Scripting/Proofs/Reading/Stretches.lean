import Scripting.Proofs.Reading.Lines
import Mathlib.Data.List.Induction

/-!
# Every character of a source

A source is cut into stretches without gaps: the texts of its tokens, characters with
which nothing begins, blank characters, comments, and possibly, last, a quoted text
that is never closed.  The tokens and the faults are those of the stretches, in their
order, and the places that they are given are the places of the stretches, counted
anew from the characters before them.

Main statement: `Scan.ofSource_accounts`.
-/

namespace Scripting
namespace Token

/-! ## Places counted from the text before them -/

/-- The line on which the character after a text stands. -/
def lineAfter (before : List Char) : Nat :=
  1 + before.count '\n'

/-- The column in which the character after a text stands: one more than the characters
since the last newline. -/
def columnAfter (before : List Char) : Nat :=
  1 + (before.reverse.takeWhile (· != '\n')).length

/-- The span of a text after another one. -/
def spanAfter (before text : List Char) : Span where
  start := bytes before
  stop := bytes before + bytes text
  line := lineAfter before
  column := columnAfter before

theorem bytes_pos {text : List Char} (nonempty : text ≠ []) : 0 < bytes text := by
  cases text with
  | nil => exact absurd rfl nonempty
  | cons c others =>
      have size := c.utf8Size_pos
      simp only [bytes]
      omega

/-- The place that is reached by walking along a text is the one that is counted. -/
theorem Position.first_afterAll_eq (before : List Char) :
    first.afterAll before = ⟨bytes before, lineAfter before, columnAfter before⟩ := by
  induction before using List.reverseRecOn with
  | nil => rfl
  | append_singleton text c inductionHypothesis =>
      rw [afterAll_append, inductionHypothesis, afterAll_cons, afterAll_nil, bytes_append]
      unfold after lineAfter columnAfter
      by_cases newline : c = '\n'
      · simp [newline, bytes, Nat.add_assoc]
      · simp [newline, bytes]
        omega

theorem Position.spanTo_afterAll (before text : List Char) :
    (first.afterAll before).spanTo ((first.afterAll before).afterAll text) =
      spanAfter before text := by
  rw [← afterAll_append, first_afterAll_eq, first_afterAll_eq]
  unfold spanTo spanAfter
  rw [bytes_append]

/-! ## Pieces -/

/-- The characters that may stand between tokens. -/
def blanks : List Char :=
  [' ', '\t', '\r', '\n']

theorem isSeparator_iff (c : Char) : isSeparator c = true ↔ c ∈ blanks := by
  simp [isSeparator, blanks, or_assoc]

namespace Piece

/-- A piece is what it claims to be, with a text after it. -/
def FitsBefore (after : List Char) : Piece → Prop
  | separator c => c ∈ blanks
  | comment body => '\n' ∉ body ∧ ∀ c ∈ after.head?, c = '\n'
  | lexeme kind _ _ => kind ≠ .endOfInput
  | stray c => c ∉ blanks ∧ c ≠ '"'
  | unclosed body => '"' ∉ body ∧ after = []

theorem comparison_fits
    {kinds : Kind × Kind}
    (single : kinds.1 ≠ .endOfInput)
    (double : kinds.2 ≠ .endOfInput)
    (c : Char)
    (rest : List Char) :
    (comparison kinds c rest).1.FitsBefore (comparison kinds c rest).2 := by
  unfold comparison
  split
  · exact double
  · exact single

/-- What stops at a character neither has it nor goes on with another one. -/
theorem not_mem_takeWhile_ne (c : Char) (text : List Char) : c ∉ text.takeWhile (· != c) := by
  intro member
  have passes := List.all_eq_true.mp List.all_takeWhile c member
  simp at passes

theorem commentOrSlash_fits (rest : List Char) :
    (commentOrSlash rest).1.FitsBefore (commentOrSlash rest).2 := by
  unfold commentOrSlash
  split
  next others =>
      refine ⟨not_mem_takeWhile_ne '\n' others, fun c head => ?_⟩
      have stops := List.head?_dropWhile_not (· != '\n') others
      rw [Option.mem_def.mp head] at stops
      simpa using stops
  · exact Kind.noConfusion

theorem quotedText_fits (rest : List Char) :
    (quotedText rest).1.FitsBefore (quotedText rest).2 := by
  unfold quotedText
  dsimp only
  split
  · exact Kind.noConfusion
  · exact ⟨not_mem_takeWhile_ne '"' rest, rfl⟩

theorem numeral_fits (text : List Char) : (numeral text).1.FitsBefore (numeral text).2 := by
  unfold numeral
  dsimp only
  split <;> exact Kind.noConfusion

theorem name_fits (text : List Char) : (name text).1.FitsBefore (name text).2 := by
  change Kind.ofName _ ≠ .endOfInput
  unfold Kind.ofName
  split <;> exact Kind.noConfusion

theorem wordOrGap_fits (c : Char) (rest : List Char) :
    (wordOrGap c rest).1.FitsBefore (wordOrGap c rest).2 := by
  unfold wordOrGap
  split
  · exact commentOrSlash_fits rest
  split
  · exact quotedText_fits rest
  next noQuote =>
  split
  next separates => exact (isSeparator_iff c).mp separates
  next noBlank =>
  split
  · exact numeral_fits (c :: rest)
  split
  · exact name_fits (c :: rest)
  · exact ⟨fun blank => noBlank ((isSeparator_iff c).mpr blank), noQuote⟩

theorem symbolOf?_ne_endOfInput
    {c : Char}
    {kind : Kind}
    (symbol : symbolOf? c = some kind) :
    kind ≠ .endOfInput := by
  unfold symbolOf? at symbol
  split at symbol <;> grind

theorem comparisonOf?_ne_endOfInput
    {c : Char}
    {kinds : Kind × Kind}
    (compared : comparisonOf? c = some kinds) :
    kinds.1 ≠ .endOfInput ∧ kinds.2 ≠ .endOfInput := by
  unfold comparisonOf? at compared
  split at compared <;> grind

/-- The piece at the front of a text is what it claims to be. -/
theorem next_fits (c : Char) (rest : List Char) :
    (next c rest).1.FitsBefore (next c rest).2 := by
  unfold next
  split
  next kind symbol => exact symbolOf?_ne_endOfInput symbol
  split
  next kinds compared =>
      obtain ⟨single, double⟩ := comparisonOf?_ne_endOfInput compared
      exact comparison_fits single double c rest
  · exact wordOrGap_fits c rest

/-- All pieces are what they claim to be, with the pieces that follow them, and none is
empty. -/
def AllFit : List Piece → Prop
  | [] => True
  | piece :: others =>
      piece.chars ≠ [] ∧ piece.FitsBefore (others.flatMap chars) ∧ AllFit others

theorem allFit_ofText (text : List Char) : AllFit (ofText text) := by
  induction lengthBound : text.length using Nat.strongRecOn generalizing text with
  | ind length inductionHypothesis =>
      cases text with
      | nil =>
          rw [ofText_nil]
          trivial
      | cons c rest =>
          have shorter : (next c rest).2.length < length := by
            rw [← lengthBound]
            exact next_length_lt c rest
          rw [ofText_cons]
          refine ⟨next_chars_ne_nil c rest, ?_, inductionHypothesis _ shorter _ rfl⟩
          rw [flatMap_chars_ofText]
          exact next_fits c rest

end Piece

/-! ## Stretches -/

/-- What a stretch of a source is. -/
inductive Role where
  | token (token : Token)
  /-- A character with which nothing begins, and the fault that it is. -/
  | stray (fault : Fault)
  | blank
  | comment
  /-- A quoted text that is never closed, and the fault that it is. -/
  | unclosed (fault : Fault)

/-- A stretch of a source. -/
structure Stretch where
  text : List Char
  span : Span
  role : Role

namespace Stretch

/-- The token that a stretch is. -/
def token? (stretch : Stretch) : Option Token :=
  match stretch.role with
  | .token token => some token
  | _ => none

/-- The fault that a stretch is. -/
def fault? (stretch : Stretch) : Option Fault :=
  match stretch.role with
  | .stray fault => some fault
  | .unclosed fault => some fault
  | _ => none

/-- A stretch has the span of its text after the text before it, and its role is that of
its text. A comment ends before its newline, and an unclosed quoted text, which is blamed
on the end of the source, ends with it. -/
def FitsBetween (before after : List Char) (stretch : Stretch) : Prop :=
  stretch.span = spanAfter before stretch.text ∧ stretch.text ≠ [] ∧
    match stretch.role with
    | .token token =>
        token.kind ≠ .endOfInput ∧ token.lexeme = String.ofList stretch.text ∧
          token.span = stretch.span
    | .stray fault =>
        ∃ c, stretch.text = [c] ∧ c ∉ blanks ∧ c ≠ '"' ∧
          fault = Fault.ofCause (.unexpectedCharacter c) (some stretch.span)
    | .blank => ∃ c ∈ blanks, stretch.text = [c]
    | .comment =>
        ∃ body, stretch.text = '/' :: '/' :: body ∧ '\n' ∉ body ∧ ∀ c ∈ after.head?, c = '\n'
    | .unclosed fault =>
        ∃ body, stretch.text = '"' :: body ∧ '"' ∉ body ∧ after = [] ∧
          fault = Fault.ofCause .unterminatedText (some (spanAfter (before ++ stretch.text) []))

/-- Each stretch fits between the text before it and the stretches after it. -/
def AllFit : (before : List Char) → List Stretch → Prop
  | _, [] => True
  | before, stretch :: others =>
      stretch.FitsBetween before (others.flatMap text) ∧ AllFit (before ++ stretch.text) others

/-- The stretch that a piece is after a text. -/
def ofPiece (before : List Char) (piece : Piece) : Stretch :=
  let span := spanAfter before piece.chars
  let role := match piece with
    | .separator _ => .blank
    | .comment _ => .comment
    | .lexeme kind literal spelling => .token ⟨kind, String.ofList spelling, literal, span⟩
    | .stray c => .stray (Fault.ofCause (.unexpectedCharacter c) (some span))
    | .unclosed _ =>
        .unclosed (Fault.ofCause .unterminatedText (some (spanAfter (before ++ piece.chars) [])))
  ⟨piece.chars, span, role⟩

/-- The stretches that pieces are after a text. -/
def ofPieces : (before : List Char) → List Piece → List Stretch
  | _, [] => []
  | before, piece :: others => ofPiece before piece :: ofPieces (before ++ piece.chars) others

theorem flatMap_text_ofPieces (before : List Char) (pieces : List Piece) :
    (ofPieces before pieces).flatMap text = pieces.flatMap Piece.chars := by
  induction pieces generalizing before with
  | nil => rfl
  | cons piece others inductionHypothesis =>
      rw [ofPieces, List.flatMap_cons, List.flatMap_cons, inductionHypothesis]
      rfl

theorem ofPiece_fits
    {piece : Piece}
    {after : List Char}
    (nonempty : piece.chars ≠ [])
    (fits : piece.FitsBefore after)
    (before : List Char) :
    (ofPiece before piece).FitsBetween before after := by
  refine ⟨rfl, nonempty, ?_⟩
  cases piece with
  | separator c => exact ⟨c, fits, rfl⟩
  | comment body => exact ⟨body, rfl, fits⟩
  | lexeme kind literal spelling => exact ⟨fits, rfl, rfl⟩
  | stray c => exact ⟨c, rfl, fits.1, fits.2, rfl⟩
  | unclosed body => exact ⟨body, rfl, fits.1, fits.2, rfl⟩

theorem allFit_ofPieces
    {pieces : List Piece}
    (fit : Piece.AllFit pieces)
    (before : List Char) :
    AllFit before (ofPieces before pieces) := by
  induction pieces generalizing before with
  | nil => trivial
  | cons piece others inductionHypothesis =>
      obtain ⟨nonempty, fits, rest⟩ := fit
      refine ⟨?_, inductionHypothesis rest _⟩
      rw [flatMap_text_ofPieces]
      exact ofPiece_fits nonempty fits before

/-! ## Where stretches stand -/

section Places

variable {before : List Char} {stretches : List Stretch}

/-- Each stretch stands somewhere in the text of all of them. -/
theorem AllFit.exists_fitsBetween
    (fit : AllFit before stretches)
    {stretch : Stretch}
    (member : stretch ∈ stretches) :
    ∃ front back, before ++ stretches.flatMap text = front ++ stretch.text ++ back ∧
      bytes before ≤ bytes front ∧ stretch.FitsBetween front back := by
  induction stretches generalizing before with
  | nil => simp at member
  | cons first others inductionHypothesis =>
      obtain ⟨fits, rest⟩ := fit
      rcases List.mem_cons.mp member with rfl | member
      · exact ⟨before, others.flatMap text, by simp, Nat.le_refl _, fits⟩
      · obtain ⟨front, back, whole, further, stands⟩ := inductionHypothesis rest member
        rw [bytes_append] at further
        exact ⟨front, back, by rw [← whole, List.flatMap_cons, List.append_assoc], by omega, stands⟩

/-- Stretches follow one another. -/
theorem AllFit.pairwise
    (fit : AllFit before stretches) :
    stretches.Pairwise fun stretch later => stretch.span.stop ≤ later.span.start := by
  induction stretches generalizing before with
  | nil => exact .nil
  | cons first others inductionHypothesis =>
      obtain ⟨⟨span, -, -⟩, rest⟩ := fit
      refine .cons (fun later member => ?_) (inductionHypothesis rest)
      obtain ⟨front, back, -, further, laterSpan, -, -⟩ := rest.exists_fitsBetween member
      rw [bytes_append] at further
      rw [span, laterSpan]
      exact further

/-- Every character of the text belongs to one of the stretches, and to no other one. -/
theorem AllFit.existsUnique
    (fit : AllFit before stretches)
    {front back : List Char}
    {c : Char}
    (whole : before ++ stretches.flatMap text = front ++ c :: back)
    (further : bytes before ≤ bytes front) :
    ∃! stretch, stretch ∈ stretches ∧
      stretch.span.start ≤ bytes front ∧ bytes front < stretch.span.stop := by
  induction stretches generalizing before with
  | nil =>
      have size := congrArg bytes whole
      have positive := c.utf8Size_pos
      simp only [List.flatMap_nil, List.append_nil, bytes_append, bytes] at size
      omega
  | cons first others inductionHypothesis =>
      have ordered := List.pairwise_cons.mp fit.pairwise
      obtain ⟨⟨span, -, -⟩, rest⟩ := fit
      have start : first.span.start = bytes before := by rw [span]; rfl
      have stop : first.span.stop = bytes before + bytes first.text := by rw [span]; rfl
      by_cases inside : bytes front < first.span.stop
      · refine ⟨first, ⟨List.mem_cons_self, by omega, inside⟩, ?_⟩
        rintro other ⟨member, begins, -⟩
        rcases List.mem_cons.mp member with rfl | member
        · rfl
        · have apart := ordered.1 other member
          omega
      · rw [List.flatMap_cons, ← List.append_assoc] at whole
        obtain ⟨stretch, ⟨member, holds⟩, unique⟩ :=
          inductionHypothesis rest whole (by rw [bytes_append]; omega)
        refine ⟨stretch, ⟨List.mem_cons_of_mem _ member, holds⟩, ?_⟩
        rintro other ⟨otherMember, otherHolds⟩
        rcases List.mem_cons.mp otherMember with rfl | otherMember
        · exact absurd otherHolds.2 inside
        · exact unique other ⟨otherMember, otherHolds⟩

/-- An unclosed quoted text is the last stretch. -/
theorem AllFit.pairwise_faults
    (fit : AllFit before stretches) :
    (stretches.filterMap fault?).Pairwise fun fault _ =>
      ∃ c, fault.cause = .unexpectedCharacter c := by
  induction stretches generalizing before with
  | nil => exact .nil
  | cons first others inductionHypothesis =>
      obtain ⟨⟨-, -, isRole⟩, rest⟩ := fit
      have further := inductionHypothesis rest
      cases role : first.role with
      | stray fault =>
          simp only [role] at isRole
          obtain ⟨c, -, -, -, blamed⟩ := isRole
          have isFault : first.fault? = some fault := by simp only [fault?, role]
          rw [List.filterMap_cons_some isFault]
          exact .cons (fun _ _ => ⟨c, by rw [blamed]; rfl⟩) further
      | unclosed fault =>
          simp only [role] at isRole
          obtain ⟨body, -, -, last, -⟩ := isRole
          have empty : others = [] := by
            cases others with
            | nil => rfl
            | cons next more =>
                obtain ⟨⟨-, nonempty, -⟩, -⟩ := rest
                simp [nonempty] at last
          simp [empty, fault?, role]
      | token _ | blank | comment =>
          rwa [List.filterMap_cons_none (by simp only [fault?, role])]

end Places

end Stretch

/-- The span is that of a text somewhere in a source. -/
def Span.StandsIn (source : List Char) (span : Span) : Prop :=
  ∃ before text after, source = before ++ text ++ after ∧ span = spanAfter before text

namespace Scan

/-- The stretches are a source from its beginning to its end, and what has been read of
it are their tokens and their faults, in their order. -/
structure Accounts (source : List Char) (scan : Scan) (stretches : List Stretch) : Prop where
  whole : stretches.flatMap Stretch.text = source
  fit : Stretch.AllFit [] stretches
  tokens : scan.tokens.toList = stretches.filterMap Stretch.token?
  faults : scan.faults.toList = stretches.filterMap Stretch.fault?

/-- Reading a piece adds the token or the fault that its stretch is. -/
theorem add_ofPiece
    {scan : Scan}
    {before : List Char}
    (reached : scan.position = Position.first.afterAll before)
    (piece : Piece) :
    (scan.add piece).tokens.toList =
        scan.tokens.toList ++ (Stretch.ofPiece before piece).token?.toList ∧
      (scan.add piece).faults.toList =
        scan.faults.toList ++ (Stretch.ofPiece before piece).fault?.toList := by
  have span := Position.spanTo_afterAll before piece.chars
  have atEnd := Position.spanTo_afterAll (before ++ piece.chars) []
  rw [Position.afterAll_append, Position.afterAll_nil] at atEnd
  cases piece <;>
    simp [add, reached, span, atEnd, Stretch.ofPiece, Stretch.token?, Stretch.fault?]

/-- Reading pieces adds the tokens and the faults that their stretches are. -/
theorem foldl_add_ofPieces
    {scan : Scan}
    {before : List Char}
    (reached : scan.position = Position.first.afterAll before)
    (pieces : List Piece) :
    (pieces.foldl add scan).tokens.toList =
        scan.tokens.toList ++ (Stretch.ofPieces before pieces).filterMap Stretch.token? ∧
      (pieces.foldl add scan).faults.toList =
        scan.faults.toList ++ (Stretch.ofPieces before pieces).filterMap Stretch.fault? := by
  induction pieces generalizing scan before with
  | nil => simp [Stretch.ofPieces]
  | cons piece others inductionHypothesis =>
      have next : (scan.add piece).position = Position.first.afterAll (before ++ piece.chars) := by
        rw [add_position, reached, Position.afterAll_append]
      obtain ⟨tokens, faults⟩ := inductionHypothesis next
      obtain ⟨token, fault⟩ := add_ofPiece reached piece
      rw [List.foldl_cons, tokens, faults, token, fault, Stretch.ofPieces]
      constructor <;> simp [List.filterMap_cons, Option.toList] <;> grind

/-- A text is cut into the stretches of its pieces. -/
theorem ofText_accounts (text : List Char) :
    Accounts text (ofText text) (Stretch.ofPieces [] (Piece.ofText text)) := by
  have atStart : start.position = Position.first.afterAll [] := rfl
  obtain ⟨tokens, faults⟩ := foldl_add_ofPieces atStart (Piece.ofText text)
  exact
    { whole := by rw [Stretch.flatMap_text_ofPieces, Piece.flatMap_chars_ofText]
      fit := Stretch.allFit_ofPieces (Piece.allFit_ofText text) []
      tokens := tokens
      faults := faults }

namespace Accounts

variable {source : List Char} {scan : Scan} {stretches : List Stretch}
  (accounts : Accounts source scan stretches)

include accounts

/-- A token is a stretch of the source. -/
theorem exists_token
    {token : Token}
    (member : token ∈ scan.tokens.toList) :
    ∃ before text after, source = before ++ text ++ after ∧ text ≠ [] ∧
      token.kind ≠ .endOfInput ∧ token.lexeme = String.ofList text ∧
      token.span = spanAfter before text := by
  rw [accounts.tokens, List.mem_filterMap] at member
  obtain ⟨stretch, inside, isToken⟩ := member
  obtain ⟨front, back, whole, -, span, nonempty, isRole⟩ :=
    accounts.fit.exists_fitsBetween inside
  cases role : stretch.role with
  | token found =>
      simp only [Stretch.token?, role, Option.some.injEq] at isToken
      simp only [role, isToken] at isRole
      obtain ⟨kind, lexeme, same⟩ := isRole
      exact ⟨front, stretch.text, back, by rw [← accounts.whole, ← whole]; rfl, nonempty, kind,
        lexeme, same.trans span⟩
  | stray _ | blank | comment | unclosed _ => simp [Stretch.token?, role] at isToken

/-- A fault is blamed on a place in the source. -/
theorem exists_span
    {fault : Fault}
    (member : fault ∈ scan.faults.toList) :
    ∃ span, fault.span = some span ∧ span.StandsIn source := by
  rw [accounts.faults, List.mem_filterMap] at member
  obtain ⟨stretch, inside, isFault⟩ := member
  obtain ⟨front, back, whole, -, span, -, isRole⟩ := accounts.fit.exists_fitsBetween inside
  have isSource : source = front ++ stretch.text ++ back := by
    rw [← accounts.whole, ← whole]
    rfl
  cases role : stretch.role with
  | stray found =>
      simp only [Stretch.fault?, role, Option.some.injEq] at isFault
      simp only [role, isFault] at isRole
      obtain ⟨c, -, -, -, rfl⟩ := isRole
      exact ⟨stretch.span, rfl, front, stretch.text, back, isSource, span⟩
  | unclosed found =>
      simp only [Stretch.fault?, role, Option.some.injEq] at isFault
      simp only [role, isFault] at isRole
      obtain ⟨body, -, -, -, rfl⟩ := isRole
      exact ⟨_, rfl, front ++ stretch.text, [], back, by rw [isSource, List.append_nil], rfl⟩
  | token _ | blank | comment => simp [Stretch.fault?, role] at isFault

/-- Tokens follow one another. -/
theorem pairwise_tokens :
    scan.tokens.toList.Pairwise fun token later => token.span.stop ≤ later.span.start := by
  rw [accounts.tokens, List.pairwise_filterMap]
  refine accounts.fit.pairwise.imp_of_mem fun {stretch later} inside laterInside apart => ?_
  intro token isToken next isNext
  have spanOf : ∀ {stretch : Stretch} {token : Token}, stretch ∈ stretches →
      stretch.token? = some token → token.span = stretch.span := by
    intro stretch token inside isToken
    obtain ⟨_, _, _, _, _, _, isRole⟩ := accounts.fit.exists_fitsBetween inside
    unfold Stretch.token? at isToken
    split at isToken
    next found role =>
        obtain rfl := Option.some.inj isToken
        simp only [role] at isRole
        exact isRole.2.2
    next => contradiction
  rw [spanOf inside isToken, spanOf laterInside isNext]
  exact apart

end Accounts

/-- A source has one end of input, its last token. The other tokens are not empty, follow
one another and have the texts of their spans. The source falls into stretches such that
every character belongs to exactly one: the text of a token, a character with which
nothing begins, a blank character, a comment, or a quoted text that is never closed, and
the faults are those of such characters, with that of the quoted text after them. All
tokens and all faults stand where the characters before them say. -/
theorem ofSource_accounts (source : String) :
    let scan := ofSource source
    let tokens := scan.sequence
    (tokens.ending.kind = .endOfInput ∧ tokens.ending.span = spanAfter source.toList [] ∧
        ∀ token ∈ tokens.body, token.kind ≠ .endOfInput) ∧
      (∀ token ∈ tokens.body, token.span.start < token.span.stop ∧
        String.Pos.Raw.extract source ⟨token.span.start⟩ ⟨token.span.stop⟩ = token.lexeme) ∧
      (tokens.body.Pairwise fun token later => token.span.stop ≤ later.span.start) ∧
      (∃ stretches, Accounts source.toList scan stretches ∧
        ∀ before c after, source.toList = before ++ c :: after →
          ∃! stretch, stretch ∈ stretches ∧
            stretch.span.start ≤ bytes before ∧ bytes before < stretch.span.stop) ∧
      (scan.faults.toList.Pairwise fun fault _ =>
        ∃ c, fault.cause = .unexpectedCharacter c) ∧
      (∀ token ∈ tokens.toList, token.span.StandsIn source.toList) ∧
      ∀ fault ∈ scan.faults.toList, ∃ span, fault.span = some span ∧
        span.StandsIn source.toList := by
  intro scan tokens
  have accounts := ofText_accounts source.toList
  have ending : tokens.ending.span = spanAfter source.toList [] := by
    have place := Position.spanTo_afterAll source.toList []
    rw [Position.afterAll_nil, ← ofText_position] at place
    exact place
  refine ⟨⟨rfl, ending, fun token member => ?kind⟩, fun token member => ?slice,
    accounts.pairwise_tokens, ⟨_, accounts, fun before c after whole => ?one⟩, ?faults,
    fun token member => ?place, fun fault member => accounts.exists_span member⟩
  case kind =>
    obtain ⟨-, -, -, -, -, kind, -⟩ := accounts.exists_token member
    exact kind
  case slice =>
    obtain ⟨before, text, after, whole, nonempty, -, lexeme, span⟩ := accounts.exists_token member
    have positive := bytes_pos nonempty
    have valid := String.extract_of_valid before text after
    rw [← whole, String.ofList_toList, ← bytes_eq_utf8Len, ← bytes_eq_utf8Len] at valid
    rw [span, lexeme]
    refine ⟨?_, valid⟩
    simp only [spanAfter]
    omega
  case one =>
    exact accounts.fit.existsUnique (by rw [accounts.whole, List.nil_append, whole])
      (Nat.zero_le _)
  case faults =>
    have faults := accounts.fit.pairwise_faults
    rwa [← accounts.faults] at faults
  case place =>
    rcases List.mem_append.mp member with inside | last
    · obtain ⟨before, text, after, whole, -, -, -, span⟩ := accounts.exists_token inside
      exact ⟨before, text, after, whole, span⟩
    · obtain rfl := List.mem_singleton.mp last
      exact ⟨source.toList, [], [], by simp, ending⟩

end Scan

end Token
end Scripting
