import Scripting.Proofs.Reading.Spellings

/-!
# The longest token

Which texts are tokens, of which kind and with which value, is listed once more in `Lexeme`,
kind by kind and without regard to how a source is read.  Wherever reading comes to a token, the
text taken is the longest at this place that is one, and a character is blamed exactly where no
token, no blank character, no comment and no quoted text begins.

Main statement: `Scan.ofSource_longest`.
-/

namespace Scripting
namespace Token

open Piece (symbolOf? comparisonOf? comparison commentOrSlash quotedText fraction? numeral next)

/-! ## The texts of tokens -/

/-- The kinds that have one spelling which is no word. -/
def signs : List (Kind × List Char) :=
  [(.leftParen, ['(']), (.rightParen, [')']), (.leftBrace, ['\x7b']), (.rightBrace, ['\x7d']),
    (.leftBracket, ['[']), (.rightBracket, [']']), (.comma, [',']), (.dot, ['.']),
    (.semicolon, [';']), (.minus, ['-']), (.plus, ['+']), (.star, ['*']), (.slash, ['/']),
    (.bang, ['!']), (.bangEqual, ['!', '=']), (.equal, ['=']), (.equalEqual, ['=', '=']),
    (.less, ['<']), (.lessEqual, ['<', '=']), (.greater, ['>']), (.greaterEqual, ['>', '='])]

/-- The texts of the kinds of token, with the values they stand for. -/
inductive Lexeme : Kind → Option Literal → List Char → Prop where
  | sign {kind : Kind} {spelling : List Char} (isSign : (kind, spelling) ∈ signs) :
      Lexeme kind none spelling
  | text {body : List Char} (unquoted : '"' ∉ body) :
      Lexeme .text (some (.text (String.ofList body))) ('"' :: body ++ ['"'])
  | whole {digits : List Char} (nonempty : digits ≠ [])
      (isDigit : ∀ d ∈ digits, d.isDigit = true) :
      Lexeme .number (some (.number (Decimal.ofDigits digits []))) digits
  | fraction {digits decimals : List Char} (nonempty : digits ≠ [])
      (isDigit : ∀ d ∈ digits, d.isDigit = true) (someDecimals : decimals ≠ [])
      (isDecimal : ∀ d ∈ decimals, d.isDigit = true) :
      Lexeme .number (some (.number (Decimal.ofDigits digits decimals)))
        (digits ++ '.' :: decimals)
  | keyword (word : Keyword) : Lexeme (.keyword word) none word.spelling.toList
  | name {c : Char} {others : List Char} (starts : c.isAlpha = true ∨ c = '_')
      (isPart : ∀ d ∈ others, d.isAlphanum = true ∨ d = '_')
      (free : ∀ word : Keyword, word.spelling.toList ≠ c :: others) :
      Lexeme .identifier none (c :: others)

/-- The text of a token begins a text. -/
def BeginsToken (text : List Char) : Prop :=
  ∃ kind literal lexeme, Lexeme kind literal lexeme ∧ lexeme <+: text

/-- No token, no blank character, no comment and no quoted text begins a text. -/
structure BeginsNothing (text : List Char) : Prop where
  token : ¬BeginsToken text
  comment : ¬['/', '/'] <+: text
  other : ∀ c ∈ text.head?, c ∉ blanks ∧ c ≠ '"'

/-- A token is what its text says, with a text after it that it could not have gone on into. -/
structure IsLongest (token : Token) (text after : List Char) : Prop where
  lexeme : Lexeme token.kind token.literal text
  unique : ∀ kind literal, Lexeme kind literal text → kind = token.kind ∧ literal = token.literal
  longest : ∀ kind literal longer, Lexeme kind literal longer → longer <+: text ++ after →
    longer.length ≤ text.length
  noComment : token.kind = .slash → after.head? ≠ some '/'

/-! ## What is read as a token -/

namespace Lexeme

variable {kind : Kind} {literal : Option Literal} {spelling : List Char}

theorem isNameStart_iff (c : Char) : isNameStart c = true ↔ c.isAlpha = true ∨ c = '_' := by
  simp [isNameStart]

theorem isNamePart_iff (c : Char) : isNamePart c = true ↔ c.isAlphanum = true ∨ c = '_' := by
  simp [isNamePart]

theorem spelled_of_mem_signs (isSign : (kind, spelling) ∈ signs) : Spelled kind none spelling := by
  have bang : comparisonOf? '!' = some (.bang, .bangEqual) := rfl
  have equal : comparisonOf? '=' = some (.equal, .equalEqual) := rfl
  have less : comparisonOf? '<' = some (.less, .lessEqual) := rfl
  have greater : comparisonOf? '>' = some (.greater, .greaterEqual) := rfl
  have all : ∀ sign ∈ signs, Spelled sign.1 none sign.2 := by
    simp only [signs, List.forall_mem_cons]
    exact ⟨.symbol rfl, .symbol rfl, .symbol rfl, .symbol rfl, .symbol rfl, .symbol rfl,
      .symbol rfl, .symbol rfl, .symbol rfl, .symbol rfl, .symbol rfl, .symbol rfl, .slash,
      .single bang, .double bang, .single equal, .double equal, .single less, .double less,
      .single greater, .double greater, List.forall_mem_nil _⟩
  exact all _ isSign

theorem spelled_keyword (word : Keyword) : Spelled (.keyword word) none word.spelling.toList := by
  obtain ⟨c, others, spelling, starts, isPart⟩ : ∃ c others, word.spelling.toList = c :: others ∧
      isNameStart c = true ∧ others.all isNamePart = true := by
    cases word <;> exact ⟨_, _, rfl, rfl, rfl⟩
  have kind : Kind.ofName (String.ofList (c :: others)) = .keyword word := by
    rw [← spelling, String.ofList_toList]
    cases word <;> rfl
  rw [spelling, ← kind]
  exact .name starts (List.all_eq_true.mp isPart)

/-- The texts of tokens are those that are read as tokens. -/
theorem spelled (lexeme : Lexeme kind literal spelling) : Spelled kind literal spelling := by
  cases lexeme with
  | sign isSign => exact spelled_of_mem_signs isSign
  | text unquoted => exact .text fun c member same => unquoted (same ▸ member)
  | whole nonempty isDigit =>
      obtain ⟨c, digits, rfl⟩ := List.exists_cons_of_ne_nil nonempty
      exact .whole isDigit
  | fraction nonempty isDigit someDecimals isDecimal =>
      obtain ⟨c, digits, rfl⟩ := List.exists_cons_of_ne_nil nonempty
      obtain ⟨d, decimals, rfl⟩ := List.exists_cons_of_ne_nil someDecimals
      exact .fraction isDigit isDecimal
  | keyword word => exact spelled_keyword word
  | @name c others starts isPart free =>
      have kind : Kind.ofName (String.ofList (c :: others)) = .identifier := by
        unfold Kind.ofName
        split
        next word found =>
            have same := Keyword.ofSpelling?_eq_some found
            exact absurd (by rw [same, String.toList_ofList]) (free word)
        next => rfl
      rw [← kind]
      exact .name ((isNameStart_iff c).mpr starts)
        fun d member => (isNamePart_iff d).mpr (isPart d member)

theorem mem_signs_of_symbolOf? {c : Char} (isSymbol : symbolOf? c = some kind) :
    (kind, [c]) ∈ signs := by
  unfold symbolOf? at isSymbol
  split at isSymbol <;> cases isSymbol <;> decide

theorem mem_signs_of_comparisonOf?
    {c : Char}
    {kinds : Kind × Kind}
    (compared : comparisonOf? c = some kinds) :
    (kinds.1, [c]) ∈ signs ∧ (kinds.2, [c, '=']) ∈ signs := by
  unfold comparisonOf? at compared
  split at compared <;> cases compared <;> decide

theorem ofName
    {c : Char}
    {others : List Char}
    (starts : isNameStart c = true)
    (isPart : ∀ d ∈ others, isNamePart d = true) :
    Lexeme (Kind.ofName (String.ofList (c :: others))) none (c :: others) := by
  unfold Kind.ofName
  split
  next word found =>
      have spelling := congrArg String.toList (Keyword.ofSpelling?_eq_some found)
      rw [String.toList_ofList] at spelling
      rw [← spelling]
      exact .keyword word
  next unknown =>
      refine .name ((isNameStart_iff c).mp starts)
        (fun d member => (isNamePart_iff d).mp (isPart d member)) fun word spelling => ?_
      have missing := List.find?_eq_none.mp unknown word (Keyword.mem_all word)
      rw [← spelling, String.ofList_toList] at missing
      simp at missing

theorem iff_spelled : Lexeme kind literal spelling ↔ Spelled kind literal spelling := by
  refine ⟨spelled, fun spelled => ?_⟩
  cases spelled with
  | symbol isSymbol => exact .sign (mem_signs_of_symbolOf? isSymbol)
  | single compared => exact .sign (mem_signs_of_comparisonOf? compared).1
  | double compared => exact .sign (mem_signs_of_comparisonOf? compared).2
  | slash => exact .sign (by decide)
  | text unquoted => exact .text fun member => unquoted _ member rfl
  | whole isDigit => exact .whole (List.cons_ne_nil _ _) isDigit
  | fraction isDigit isDecimal =>
      exact .fraction (List.cons_ne_nil _ _) isDigit (List.cons_ne_nil _ _) isDecimal
  | name starts isPart => exact ofName starts isPart

/-- The text of a token has a first character, with which it is read. -/
theorem exists_next
    (lexeme : Lexeme kind literal spelling) :
    ∃ c others, spelling = c :: others ∧ (next c others).1 = .lexeme kind literal spelling := by
  have read : Piece.ofText (spelling ++ []) = .lexeme kind literal spelling :: Piece.ofText [] :=
    lexeme.spelled.ofText_append nofun
  rw [List.append_nil] at read
  cases spelling with
  | nil => simp at read
  | cons c others =>
      rw [Piece.ofText_cons] at read
      exact ⟨c, others, rfl, (List.cons.inj read).1⟩

theorem unique
    {otherKind : Kind}
    {otherLiteral : Option Literal}
    (lexeme : Lexeme kind literal spelling)
    (other : Lexeme otherKind otherLiteral spelling) :
    kind = otherKind ∧ literal = otherLiteral := by
  obtain ⟨c, others, rfl, read⟩ := lexeme.exists_next
  obtain ⟨_, _, same, otherRead⟩ := other.exists_next
  obtain ⟨rfl, rfl⟩ := List.cons.inj same
  obtain ⟨sameKind, sameLiteral, -⟩ := Piece.lexeme.inj (read.symm.trans otherRead)
  exact ⟨sameKind, sameLiteral⟩

end Lexeme

/-! ## Nothing stops short -/

/-- A piece is a token of at least a certain length. -/
def Piece.IsTokenFrom (length : Nat) (piece : Piece) : Prop :=
  ∃ kind literal spelling, piece = .lexeme kind literal spelling ∧ length ≤ spelling.length

/-- What passes is taken, and what goes on passing. -/
theorem length_le_length_takeWhile_append
    {p : Char → Bool}
    {text : List Char}
    (passes : ∀ c ∈ text, p c = true)
    (rest : List Char) :
    text.length ≤ ((text ++ rest).takeWhile p).length := by
  rw [List.takeWhile_append_of_pos passes, List.length_append]
  omega

/-- A number is not read shorter than a number at its front. -/
theorem numeral_isTokenFrom
    {digits : List Char}
    (isDigit : ∀ d ∈ digits, d.isDigit = true)
    (rest : List Char) :
    (numeral (digits ++ rest)).1.IsTokenFrom digits.length := by
  have far := length_le_length_takeWhile_append isDigit rest
  unfold numeral
  dsimp only
  split
  · refine ⟨_, _, _, rfl, ?_⟩
    rw [List.length_append]
    omega
  · exact ⟨_, _, _, rfl, far⟩

/-- What begins with digits after a point is a fraction. -/
theorem exists_fraction?
    {decimals : List Char}
    (someDecimals : decimals ≠ [])
    (isDecimal : ∀ d ∈ decimals, d.isDigit = true)
    (rest : List Char) :
    ∃ taken dropped, fraction? ('.' :: (decimals ++ rest)) = some (taken, dropped) ∧
      decimals.length ≤ taken.length := by
  have far := length_le_length_takeWhile_append isDecimal rest
  have positive := List.length_pos_iff.mpr someDecimals
  simp only [fraction?]
  split
  next none? =>
      rw [none?, List.length_nil] at far
      omega
  next => exact ⟨_, _, rfl, far⟩

theorem numeral_isTokenFrom_fraction
    {digits decimals : List Char}
    (isDigit : ∀ d ∈ digits, d.isDigit = true)
    (someDecimals : decimals ≠ [])
    (isDecimal : ∀ d ∈ decimals, d.isDigit = true)
    (rest : List Char) :
    (numeral (digits ++ '.' :: (decimals ++ rest))).1.IsTokenFrom
      (digits ++ '.' :: decimals).length := by
  have stops : ∀ c ∈ ('.' :: (decimals ++ rest)).head?, c.isDigit = false := by
    rintro c ⟨⟩
    rfl
  obtain ⟨digitsTaken, digitsDropped⟩ := span_append isDigit stops
  obtain ⟨taken, dropped, found, far⟩ := exists_fraction? someDecimals isDecimal rest
  unfold numeral
  simp only [digitsTaken, digitsDropped, found]
  refine ⟨_, _, _, rfl, ?_⟩
  simp only [List.length_append, List.length_cons]
  omega

theorem name_isTokenFrom
    {spelling : List Char}
    (isPart : ∀ d ∈ spelling, isNamePart d = true)
    (rest : List Char) :
    (Piece.name (spelling ++ rest)).1.IsTokenFrom spelling.length :=
  ⟨_, _, _, rfl, length_le_length_takeWhile_append isPart rest⟩

theorem comparison_isTokenFrom
    (kinds : Kind × Kind)
    (c : Char)
    (rest : List Char) :
    (comparison kinds c rest).1.IsTokenFrom 1 := by
  unfold comparison
  split <;> exact ⟨_, _, _, rfl, by simp⟩

/-- Where the text of a token begins, a token is read that is no shorter, or a comment. -/
theorem Lexeme.next_isTokenFrom
    {kind : Kind}
    {literal : Option Literal}
    {c : Char}
    {others : List Char}
    (lexeme : Lexeme kind literal (c :: others))
    (rest : List Char) :
    (next c (others ++ rest)).1.IsTokenFrom (c :: others).length ∨
      ∃ body, (next c (others ++ rest)).1 = .comment body := by
  generalize whole : c :: others = spelling at lexeme
  cases lexeme.spelled with
  | symbol isSymbol =>
      obtain ⟨rfl, rfl⟩ := List.cons.inj whole
      refine .inl ⟨kind, none, [c], ?_, Nat.le_refl 1⟩
      simp only [next, isSymbol]
  | single compared =>
      obtain ⟨rfl, rfl⟩ := List.cons.inj whole
      rw [next_of_comparisonOf? compared]
      exact .inl (comparison_isTokenFrom _ _ _)
  | double compared =>
      obtain ⟨rfl, rfl⟩ := List.cons.inj whole
      rw [next_of_comparisonOf? compared]
      exact .inl ⟨_, _, _, rfl, Nat.le_refl 2⟩
  | slash =>
      obtain ⟨rfl, rfl⟩ := List.cons.inj whole
      change (commentOrSlash rest).1.IsTokenFrom 1 ∨ ∃ body, (commentOrSlash rest).1 = .comment body
      unfold commentOrSlash
      split
      · exact .inr ⟨_, rfl⟩
      · exact .inl ⟨_, _, _, rfl, Nat.le_refl 1⟩
  | @text body unquoted =>
      obtain ⟨rfl, rfl⟩ := List.cons.inj whole
      have read := quotedText_of_unquoted unquoted rest
      rw [← List.singleton_append, ← List.append_assoc] at read
      exact .inl ⟨_, _, _, congrArg Prod.fst read, Nat.le_refl _⟩
  | whole isDigit =>
      obtain ⟨rfl, rfl⟩ := List.cons.inj whole
      rw [next_of_isDigit (isDigit _ List.mem_cons_self)]
      exact .inl (numeral_isTokenFrom isDigit rest)
  | fraction isDigit isDecimal =>
      obtain ⟨rfl, rfl⟩ := List.cons.inj whole
      rw [next_of_isDigit (isDigit _ List.mem_cons_self)]
      have read := numeral_isTokenFrom_fraction isDigit (List.cons_ne_nil _ _) isDecimal rest
      simpa using Or.inl read
  | name starts isPart =>
      obtain ⟨rfl, rfl⟩ := List.cons.inj whole
      rw [next_of_isNameStart starts]
      exact .inl (name_isTokenFrom (List.forall_mem_cons.mpr
        ⟨Piece.isNamePart_of_isNameStart starts, isPart⟩) rest)

/-! ## What is read -/

/-- A comment is read where two slashes are next. -/
theorem next_comment_iff
    {c : Char}
    {rest : List Char} :
    (∃ body, (next c rest).1 = .comment body) ↔ ['/', '/'] <+: c :: rest := by
  constructor
  · rintro ⟨body, read⟩
    have whole := Piece.next_append c rest
    rw [read] at whole
    exact ⟨_, whole⟩
  · rintro ⟨others, whole⟩
    obtain ⟨rfl, rfl⟩ := List.cons.inj whole
    exact ⟨_, rfl⟩

/-- A token is read where one begins that is no comment. -/
theorem next_lexeme_iff
    {c : Char}
    {rest : List Char} :
    (∃ kind literal spelling, (next c rest).1 = .lexeme kind literal spelling) ↔
      BeginsToken (c :: rest) ∧ ¬['/', '/'] <+: c :: rest := by
  constructor
  · rintro ⟨kind, literal, spelling, read⟩
    have whole := Piece.next_append c rest
    rw [read] at whole
    refine ⟨⟨kind, literal, spelling, Lexeme.iff_spelled.mpr (.of_next read), _, whole⟩,
      fun comment => ?_⟩
    obtain ⟨body, same⟩ := next_comment_iff.mpr comment
    rw [read] at same
    cases same
  · rintro ⟨⟨kind, literal, lexeme, isLexeme, beyond, whole⟩, noComment⟩
    obtain ⟨first, others, rfl, -⟩ := isLexeme.exists_next
    obtain ⟨rfl, rfl⟩ := List.cons.inj whole
    rcases isLexeme.next_isTokenFrom beyond with ⟨kind, literal, spelling, read, -⟩ | comment
    · exact ⟨kind, literal, spelling, read⟩
    · exact absurd (next_comment_iff.mp comment) noComment

/-- A character is passed over with a fault where nothing begins. -/
theorem next_stray_iff
    {c : Char}
    {rest : List Char} :
    (∃ d, (next c rest).1 = .stray d) ↔ BeginsNothing (c :: rest) := by
  have fits := Piece.next_fits c rest
  have whole := Piece.next_append c rest
  constructor
  · rintro ⟨d, read⟩
    rw [read] at fits whole
    obtain ⟨rfl, -⟩ := List.cons.inj whole
    have noComment : ¬['/', '/'] <+: d :: rest := fun comment => by
      obtain ⟨body, same⟩ := next_comment_iff.mpr comment
      rw [read] at same
      cases same
    refine ⟨fun begins => ?_, noComment, fun c head => Option.some.inj head ▸ fits⟩
    obtain ⟨kind, literal, spelling, same⟩ := next_lexeme_iff.mpr ⟨begins, noComment⟩
    rw [read] at same
    cases same
  · rintro ⟨noToken, noComment, other⟩
    obtain ⟨noBlank, noQuote⟩ := other c rfl
    cases read : (next c rest).1 with
    | stray d => exact ⟨d, rfl⟩
    | separator d =>
        rw [read] at fits whole
        exact absurd ((List.cons.inj whole).1 ▸ fits) noBlank
    | comment body => exact absurd (next_comment_iff.mp ⟨body, read⟩) noComment
    | lexeme kind literal spelling =>
        exact absurd (next_lexeme_iff.mp ⟨kind, literal, spelling, read⟩).1 noToken
    | unclosed body =>
        rw [read] at whole
        exact absurd (List.cons.inj whole).1.symm noQuote

/-- A token that is read is the longest at its place. -/
theorem isLongest_of_next
    {kind : Kind}
    {literal : Option Literal}
    {spelling rest : List Char}
    {c : Char}
    (read : (next c rest).1 = .lexeme kind literal spelling)
    (span : Span) :
    IsLongest ⟨kind, String.ofList spelling, literal, span⟩ spelling (next c rest).2 := by
  have whole := Piece.next_append c rest
  have lexeme := Lexeme.iff_spelled.mpr (Spelled.of_next read)
  rw [read, Piece.chars] at whole
  refine ⟨lexeme, fun _ _ other => other.unique lexeme, fun kind literal longer other front => ?_,
    fun isSlash follows => ?_⟩
  · obtain ⟨first, others, rfl, -⟩ := other.exists_next
    obtain ⟨beyond, same⟩ := front
    rw [whole, List.cons_append] at same
    obtain ⟨rfl, rfl⟩ := List.cons.inj same
    rcases other.next_isTokenFrom beyond with ⟨_, _, _, found, far⟩ | ⟨body, found⟩
    · rw [read] at found
      obtain ⟨-, -, rfl⟩ := Piece.lexeme.inj found
      exact far
    · rw [read] at found
      cases found
  · obtain rfl : kind = .slash := isSlash
    obtain rfl : spelling = ['/'] := by
      cases lexeme with
      | sign isSign => simpa [signs] using isSign
    obtain ⟨others, after⟩ := List.head?_eq_some_iff.mp follows
    rw [after] at whole
    refine (next_lexeme_iff.mp ⟨_, _, _, read⟩).2 ⟨others, whole⟩

/-! ## Every stretch -/

/-- Every stretch of a text is the piece that is read at its place. -/
theorem Stretch.exists_next_of_mem
    {before text : List Char}
    {stretch : Stretch}
    (member : stretch ∈ ofPieces before (Piece.ofText text)) :
    ∃ front c rest, before ++ text = front ++ c :: rest ∧
      stretch = ofPiece front (next c rest).1 := by
  induction lengthBound : text.length using Nat.strongRecOn generalizing before text with
  | ind length inductionHypothesis =>
      cases text with
      | nil => simp [ofPieces] at member
      | cons c rest =>
          have shorter : (next c rest).2.length < length := by
            rw [← lengthBound]
            exact Piece.next_length_lt c rest
          rw [Piece.ofText_cons, ofPieces] at member
          rcases List.mem_cons.mp member with rfl | later
          · exact ⟨before, c, rest, rfl, rfl⟩
          · obtain ⟨front, d, others, whole, same⟩ := inductionHypothesis _ shorter later rfl
            rw [List.append_assoc, Piece.next_append] at whole
            exact ⟨front, d, others, whole, same⟩

/-- A source falls into stretches that are its tokens, its faults and what stands between them.
Wherever one of them begins, it is a token exactly when the text of a token begins there and no
comment does, and then the longest text of a token that does, with the kind and the value of
this text; and it is a character with which nothing begins exactly when nothing does. -/
theorem Scan.ofSource_longest (source : String) :
    ∃ stretches, Accounts source.toList (ofSource source) stretches ∧
      ∀ stretch ∈ stretches, ∃ before after,
        source.toList = before ++ (stretch.text ++ after) ∧ stretch.FitsBetween before after ∧
        (∀ token, stretch.role = .token token → token.IsLongest stretch.text after) ∧
        ((∃ token, stretch.role = .token token) ↔
          BeginsToken (stretch.text ++ after) ∧ ¬['/', '/'] <+: stretch.text ++ after) ∧
        ((∃ fault, stretch.role = .stray fault) ↔ BeginsNothing (stretch.text ++ after)) := by
  refine ⟨_, ofText_accounts source.toList, fun stretch member => ?_⟩
  obtain ⟨before, c, rest, whole, rfl⟩ := Stretch.exists_next_of_mem member
  have text : (Stretch.ofPiece before (next c rest).1).text ++ (next c rest).2 = c :: rest :=
    Piece.next_append c rest
  refine ⟨before, (next c rest).2, ?whole, ?fits, ?longest, ?token, ?stray⟩
  case whole => rw [text, ← whole, List.nil_append]
  case fits =>
    exact Stretch.ofPiece_fits (Piece.next_chars_ne_nil c rest) (Piece.next_fits c rest) before
  case longest =>
    intro token isToken
    cases read : (next c rest).1 with
    | lexeme kind literal spelling =>
        rw [read] at isToken
        obtain rfl := Role.token.inj isToken
        exact isLongest_of_next read _
    | _ =>
        rw [read] at isToken
        cases isToken
  case token =>
    rw [text, ← next_lexeme_iff]
    cases (next c rest).1 <;> simp [Stretch.ofPiece]
  case stray =>
    rw [text, ← next_stray_iff]
    cases (next c rest).1 <;> simp [Stretch.ofPiece]

end Token
end Scripting
