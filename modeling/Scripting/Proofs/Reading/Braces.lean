import Mathlib.Algebra.Ring.Int.Defs
import Scripting.Prompt
import Scripting.Proofs.Reading.Sources
import Scripting.Proofs.Reading.Spellings

/-!
# The braces of a text

At the prompt the braces of a text are counted character by character, before the text is cut
into tokens.  Both ways of reading agree on what is a quoted text and what is a comment: the
count passes over each piece of a text as if it were a single brace, or nothing
(`balanceFrom_next`).  So it comes to the brace tokens of the text, however malformed the
text is.

Main statement: `openBraces_eq_count`.
-/

namespace Scripting

open Token (Kind Piece isNamePart)

/-! ## Kinds -/

/-- How many braces a token of this kind opens. -/
def Token.Kind.opens : Kind → Int
  | leftBrace => 1
  | rightBrace => -1
  | _ => 0

/-- How many braces a piece opens. -/
def Token.Piece.opens : Piece → Int
  | lexeme kind _ _ => kind.opens
  | _ => 0

theorem Token.Kind.sum_opens (kinds : List Kind) :
    (kinds.map opens).sum = (kinds.count .leftBrace : Int) - kinds.count .rightBrace := by
  induction kinds with
  | nil => rfl
  | cons kind others inductionHypothesis =>
      rw [List.map_cons, List.sum_cons, inductionHypothesis, List.count_cons, List.count_cons]
      cases kind <;> simp [opens] <;> omega

namespace Prompt

/-! ## Counting over a stretch of a text -/

variable (opened : Int)

/-- Whether a character is none at which anything is counted or begins. -/
def isPlain (c : Char) : Bool :=
  c != '/' && c != '"' && c != '\x7b' && c != '\x7d'

theorem balanceFrom_of_isPlain
    {c : Char}
    (plain : isPlain c = true)
    (rest : List Char) :
    balanceFrom opened .code (c :: rest) = balanceFrom opened .code rest := by
  obtain ⟨⟨⟨notSlash, notQuote⟩, notLeft⟩, notRight⟩ := by simpa [isPlain] using plain
  simp [balanceFrom, notSlash, notQuote, notLeft, notRight]

theorem balanceFrom_plain_append
    {text : List Char}
    (plain : ∀ c ∈ text, isPlain c = true)
    (rest : List Char) :
    balanceFrom opened .code (text ++ rest) = balanceFrom opened .code rest := by
  induction text with
  | nil => rfl
  | cons c others inductionHypothesis =>
      obtain ⟨first, tail⟩ := List.forall_mem_cons.mp plain
      rw [List.cons_append, balanceFrom_of_isPlain opened first, inductionHypothesis tail]

/-- A quoted text is passed over up to its closing quote. -/
theorem balanceFrom_quoted (text : List Char) :
    balanceFrom opened .quoted text =
      balanceFrom opened .code (text.dropWhile (· != '"')).tail := by
  induction text with
  | nil => rfl
  | cons c rest inductionHypothesis =>
      by_cases quote : c = '"'
      · simp [balanceFrom, quote]
      · simpa [balanceFrom, quote] using inductionHypothesis

/-- A comment is passed over up to the end of its line. -/
theorem balanceFrom_comment (text : List Char) :
    balanceFrom opened .comment text =
      balanceFrom opened .code (text.dropWhile (· != '\n')) := by
  induction text with
  | nil => rfl
  | cons c rest inductionHypothesis =>
      by_cases newline : c = '\n'
      · simp [balanceFrom, newline]
      · simpa [balanceFrom, newline] using inductionHypothesis

theorem isPlain_of_isNamePart {c : Char} (part : isNamePart c = true) : isPlain c = true := by
  by_contra notPlain
  have special : c = '/' ∨ c = '"' ∨ c = '\x7b' ∨ c = '\x7d' := by
    by_contra other
    exact notPlain (by simpa [isPlain, not_or, and_assoc] using other)
  rcases special with rfl | rfl | rfl | rfl <;> exact absurd part (by decide)

theorem isPlain_of_isDigit {c : Char} (digit : c.isDigit = true) : isPlain c = true :=
  isPlain_of_isNamePart (by simp [isNamePart, Char.isAlphanum, digit])

/-! ## Counting over a piece -/

theorem balanceFrom_commentOrSlash (rest : List Char) :
    balanceFrom opened .code ('/' :: rest) =
      balanceFrom (opened + (Piece.commentOrSlash rest).1.opens) .code
        (Piece.commentOrSlash rest).2 := by
  unfold Piece.commentOrSlash
  split
  next others => simp [balanceFrom, balanceFrom_comment, Piece.opens]
  next noSlash =>
      have single : balanceFrom opened .code ('/' :: rest) = balanceFrom opened .code rest := by
        rw [balanceFrom]
        · simp
        · intro others _ same
          exact noSlash others same
      simp [single, Piece.opens, Kind.opens]

theorem balanceFrom_quotedText (rest : List Char) :
    balanceFrom opened .code ('"' :: rest) =
      balanceFrom (opened + (Piece.quotedText rest).1.opens) .code (Piece.quotedText rest).2 := by
  have inside : balanceFrom opened .code ('"' :: rest) = balanceFrom opened .quoted rest := by
    simp [balanceFrom]
  rw [inside, balanceFrom_quoted]
  unfold Piece.quotedText
  dsimp only
  split
  next equation => simp [equation, Piece.opens, Kind.opens]
  next equation => simp [equation, Piece.opens]

/-- The piece is no brace and has no character at which a quoted text or a comment may
begin. -/
structure PlainPiece (piece : Piece) : Prop where
  chars : ∀ c ∈ piece.chars, isPlain c = true
  opens : piece.opens = 0

/-- Such a piece is passed over. -/
theorem PlainPiece.balanceFrom
    {piece : Piece}
    {text after : List Char}
    (plain : PlainPiece piece)
    (whole : piece.chars ++ after = text) :
    balanceFrom opened .code text = balanceFrom (opened + piece.opens) .code after := by
  rw [plain.opens, Int.add_zero, ← whole, balanceFrom_plain_append opened plain.chars]

theorem plainPiece_numeral (text : List Char) : PlainPiece (Piece.numeral text).1 := by
  have digits (others : List Char) : ∀ c ∈ others.takeWhile Char.isDigit, isPlain c = true :=
    fun c member => isPlain_of_isDigit (List.all_eq_true.mp List.all_takeWhile c member)
  unfold Piece.numeral
  dsimp only
  split
  next decimals others found =>
      obtain ⟨-, decimal⟩ := Token.Spelled.isDigit_of_fraction found
      have fraction : ∀ c ∈ '.' :: decimals, isPlain c = true :=
        List.forall_mem_cons.mpr
          ⟨by decide, fun c member => isPlain_of_isDigit (decimal c member)⟩
      exact ⟨List.forall_mem_append.mpr ⟨digits text, fraction⟩, rfl⟩
  · exact ⟨digits text, rfl⟩

theorem plainPiece_name (text : List Char) : PlainPiece (Piece.name text).1 where
  chars c member := isPlain_of_isNamePart (List.all_eq_true.mp List.all_takeWhile c member)
  opens := by
    change (Kind.ofName _).opens = 0
    unfold Kind.ofName
    split <;> rfl

theorem plainPiece_comparison
    {c : Char}
    {kinds : Kind × Kind}
    (compared : Piece.comparisonOf? c = some kinds)
    (rest : List Char) :
    PlainPiece (Piece.comparison kinds c rest).1 := by
  have known : isPlain c = true ∧ kinds.1.opens = 0 ∧ kinds.2.opens = 0 := by
    unfold Piece.comparisonOf? at compared
    split at compared <;> cases compared
    all_goals exact ⟨by decide, rfl, rfl⟩
  obtain ⟨plain, single, double⟩ := known
  have first : ∀ d ∈ [c], isPlain d = true := List.forall_mem_singleton.mpr plain
  have both : ∀ d ∈ [c, '='], isPlain d = true :=
    List.forall_mem_append.mpr ⟨first, List.forall_mem_singleton.mpr (by decide)⟩
  unfold Piece.comparison
  split
  · exact ⟨both, double⟩
  · exact ⟨first, single⟩

theorem balanceFrom_wordOrGap
    {c : Char}
    (noSymbol : Piece.symbolOf? c = none)
    (rest : List Char) :
    balanceFrom opened .code (c :: rest) =
      balanceFrom (opened + (Piece.wordOrGap c rest).1.opens) .code
        (Piece.wordOrGap c rest).2 := by
  unfold Piece.wordOrGap
  split
  next slash => exact slash ▸ balanceFrom_commentOrSlash opened rest
  next notSlash =>
  split
  next quote => exact quote ▸ balanceFrom_quotedText opened rest
  next notQuote =>
  have notLeft : c ≠ '\x7b' := by
    rintro rfl
    cases noSymbol
  have notRight : c ≠ '\x7d' := by
    rintro rfl
    cases noSymbol
  have plain : isPlain c = true := by simp [isPlain, notSlash, notQuote, notLeft, notRight]
  have single : ∀ d ∈ [c], isPlain d = true := List.forall_mem_singleton.mpr plain
  split
  · exact PlainPiece.balanceFrom opened ⟨single, rfl⟩ rfl
  split
  · exact (plainPiece_numeral (c :: rest)).balanceFrom opened (Piece.numeral_append (c :: rest))
  split
  · exact (plainPiece_name (c :: rest)).balanceFrom opened (Piece.name_append (c :: rest))
  · exact PlainPiece.balanceFrom opened ⟨single, rfl⟩ rfl

/-- The count passes over the piece at the front of a text. -/
theorem balanceFrom_next (c : Char) (rest : List Char) :
    balanceFrom opened .code (c :: rest) =
      balanceFrom (opened + (Piece.next c rest).1.opens) .code (Piece.next c rest).2 := by
  unfold Piece.next
  split
  next kind symbol =>
      unfold Piece.symbolOf? at symbol
      split at symbol <;> cases symbol
      all_goals simp [balanceFrom, Piece.opens, Kind.opens, Int.sub_eq_add_neg]
  next noSymbol =>
      split
      next kinds compared =>
          exact (plainPiece_comparison compared rest).balanceFrom opened
            (Piece.comparison_append kinds c rest)
      next => exact balanceFrom_wordOrGap opened noSymbol rest

/-! ## Counting over a text -/

/-- Beginning outside quoted texts and comments, the count comes to the pieces of a text. -/
theorem balanceFrom_eq_sum (text : List Char) :
    balanceFrom opened .code text = opened + ((Piece.ofText text).map Piece.opens).sum := by
  induction lengthBound : text.length using Nat.strongRecOn generalizing opened text with
  | ind length inductionHypothesis =>
      cases text with
      | nil => simp [balanceFrom]
      | cons c rest =>
          have shorter : (Piece.next c rest).2.length < length := by
            rw [← lengthBound]
            exact Piece.next_length_lt c rest
          rw [balanceFrom_next, inductionHypothesis _ shorter _ _ rfl, Piece.ofText_cons,
            List.map_cons, List.sum_cons, Int.add_assoc]

/-- What the pieces of a text open, its tokens do. -/
theorem sum_opens_ofText (text : List Char) :
    ((Piece.ofText text).map Piece.opens).sum =
      (((Token.Scan.ofText text).tokens.toList.map Token.kind).map Kind.opens).sum := by
  have kinds : (Token.Scan.ofText text).tokens.toList.map Token.kind =
      ((Piece.ofText text).filterMap Piece.token?).map Token.kind := by
    rw [← Token.Scan.ofText_tokens_unplaced, List.map_map]
    rfl
  rw [kinds]
  induction Piece.ofText text with
  | nil => rfl
  | cons piece others inductionHypothesis =>
      rw [List.map_cons, List.sum_cons, inductionHypothesis, List.filterMap_cons]
      cases piece <;> simp [Piece.opens, Piece.token?]

/-- In whatever text, balanced or not, and whatever its faults are, as many more braces are
opened than closed as there are more tokens for a left brace than for a right one. -/
theorem openBraces_eq_count (source : String) :
    let kinds := (tokensOf source).toList.map Token.kind
    openBraces source.toList = (kinds.count .leftBrace : Int) - kinds.count .rightBrace := by
  intro kinds
  have body : kinds = (Token.Scan.ofText source.toList).tokens.toList.map Token.kind ++
      [.endOfInput] := List.map_append
  have ending : ([Kind.endOfInput].map Kind.opens).sum = 0 := rfl
  rw [← Kind.sum_opens, body, List.map_append, List.sum_append, ending, Int.add_zero,
    ← sum_opens_ofText, openBraces, balanceFrom_eq_sum, Int.zero_add]

/-- Braces in a quoted text and in a comment are not counted, and those behind them are. -/
example : openBraces "echo \"\x7b//\"; // \x7b\"\n\x7b 4 / 2; \x7b".toList = 2 := by decide

end Prompt
end Scripting
