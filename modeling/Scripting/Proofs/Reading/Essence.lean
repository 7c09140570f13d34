import Scripting.Proofs.Decimal.Numerals
import Scripting.Proofs.Reading.Lexemes
import Scripting.Proofs.Reading.Renamed
import Scripting.Proofs.Syntax.Grammar
import Scripting.Proofs.Syntax.Sketches

/-!
# What an outline tells about tokens

An outline shows names, operators and constants, but neither places nor how a number was
spelled.  The token of a name, of an operator or of a constant is known by what is shown, apart
from these, and so is every token of a kind that has one spelling.

Main statements: `Proper.essence_eq_symbol`, `Proper.name`, `Constant.SpelledBy.ofOutline?_eq`.
-/

namespace Scripting

open Token (Kind Literal Lexeme)

namespace Token

/-- The token without its place, and without its text if it is a number. -/
def essence (token : Token) : Token :=
  { token.unplaced with lexeme := if token.kind = .number then "" else token.lexeme }

/-- A token of a kind that has one spelling. -/
def symbol (kind : Kind) : Token :=
  placeless kind kind.description

/-- A name. -/
def named (name : String) : Token :=
  placeless .identifier name

/-- The kinds whose tokens differ in their texts, and the one whose tokens have none. -/
def variedKinds : List Kind :=
  [.identifier, .number, .text, .endOfInput]

/-- Whether the token is no number beyond the finite doubles. -/
def isFinite (token : Token) : Bool :=
  match token.literal with
  | some (.number value) => value.isFinite
  | _ => true

/-- The token has the text and the value of its kind, and it is no number beyond the finite
doubles. -/
structure Proper (token : Token) : Prop where
  lexeme : Lexeme token.kind token.literal token.lexeme.toList
  finite : token.isFinite = true

theorem essence_eq_placeless
    {token : Token}
    {kind : Kind}
    {lexeme : String}
    (isKind : token.kind = kind)
    (noNumber : kind ≠ .number)
    (isLexeme : token.lexeme = lexeme)
    (noLiteral : token.literal = none) :
    token.essence = placeless kind lexeme := by
  simp [essence, unplaced, placeless, isKind, noNumber, isLexeme, noLiteral]

/-- A kind whose tokens do not differ has one spelling. -/
theorem Lexeme.eq_description
    {kind : Kind}
    {literal : Option Literal}
    {spelling : List Char}
    (lexeme : Lexeme kind literal spelling)
    (uniform : kind ∉ variedKinds) :
    literal = none ∧ spelling = kind.description.toList := by
  have signs : ∀ sign ∈ signs, sign.2 = sign.1.description.toList := by decide
  cases lexeme with
  | sign isSign => exact ⟨rfl, signs _ isSign⟩
  | keyword word => exact ⟨rfl, rfl⟩
  | text => exact absurd (by simp [variedKinds]) uniform
  | whole => exact absurd (by simp [variedKinds]) uniform
  | fraction => exact absurd (by simp [variedKinds]) uniform
  | name => exact absurd (by simp [variedKinds]) uniform

/-- The text of a token of a kind that has one spelling. -/
theorem Proper.eq_description
    {token : Token}
    (proper : token.Proper)
    (uniform : token.kind ∉ variedKinds) :
    token.literal = none ∧ token.lexeme = token.kind.description := by
  obtain ⟨noLiteral, lexeme⟩ := proper.lexeme.eq_description uniform
  exact ⟨noLiteral, String.toList_inj.mp lexeme⟩

/-- The token of a kind that has one spelling is known by its kind. -/
theorem Proper.essence_eq_symbol
    {token : Token}
    (proper : token.Proper)
    {kind : Kind}
    (isKind : token.kind = kind)
    (uniform : kind ∉ variedKinds) :
    token.essence = symbol kind := by
  obtain rfl := isKind
  obtain ⟨noLiteral, lexeme⟩ := proper.eq_description uniform
  refine essence_eq_placeless rfl ?_ lexeme noLiteral
  intro isNumber
  simp [isNumber, variedKinds] at uniform

/-- A number is known by its value. -/
theorem Proper.number
    {token : Token}
    (proper : token.Proper)
    {value : Float}
    (found : token.literal = some (.number value)) :
    token.kind = .number ∧ Decimal.IsUnsigned value := by
  have finite := proper.finite
  have lexeme := proper.lexeme
  rw [isFinite, found] at finite
  rw [found] at lexeme
  generalize token.kind = kind, token.lexeme.toList = spelling at lexeme ⊢
  cases lexeme with
  | whole => exact ⟨rfl, Decimal.isUnsigned_ofDigits finite⟩
  | fraction => exact ⟨rfl, Decimal.isUnsigned_ofDigits finite⟩

/-- A text is known by its value. -/
theorem Proper.text
    {token : Token}
    (proper : token.Proper)
    {value : String}
    (found : token.literal = some (.text value)) :
    token.kind = .text ∧ token.lexeme = "\"" ++ value ++ "\"" := by
  have lexeme := proper.lexeme
  rw [found] at lexeme
  generalize token.kind = kind, spelled : token.lexeme.toList = spelling at lexeme ⊢
  cases lexeme with
  | text => exact ⟨rfl, String.toList_inj.mp (by simp [spelled])⟩

/-- A name is known by its text, which is no keyword. -/
theorem Proper.name
    {token : Token}
    (proper : token.Proper)
    (isName : token.kind = .identifier) :
    token.essence = named token.lexeme ∧
      ∃ c others, token.lexeme.toList = c :: others ∧ isNameStart c = true ∧
        (∀ d ∈ others, isNamePart d = true) ∧
        ∀ word : Keyword, token.lexeme ≠ word.spelling := by
  have lexeme := proper.lexeme
  rw [isName] at lexeme
  generalize isLiteral : token.literal = literal, spelled : token.lexeme.toList = spelling
    at lexeme ⊢
  cases lexeme with
  | sign isSign => simp [signs] at isSign
  | @name c others starts isPart free =>
      refine ⟨essence_eq_placeless isName (by decide) rfl isLiteral, c, others, rfl,
        (Lexeme.isNameStart_iff c).mpr starts,
        fun d member => (Lexeme.isNamePart_iff d).mpr (isPart d member), ?_⟩
      intro word same
      exact free word (by rw [← same, spelled])

end Token

/-! ## Constants -/

namespace Tree

open Sketch (IsWord isDelimiter)

/-- The token of a constant. -/
def Constant.token : Constant → Token
  | .null => .symbol (.keyword .nullWord)
  | .bool true => .symbol (.keyword .trueWord)
  | .bool false => .symbol (.keyword .falseWord)
  | .number value =>
      { Token.placeless .number "" with literal := some (.number value) }
  | .text value =>
      { Token.placeless .text ("\"" ++ value ++ "\"") with literal := some (.text value) }

/-- The constant that is shown by a word, if one is. -/
def Constant.ofOutline? (word : String) : Option Constant :=
  match word.toList with
  | '"' :: rest => (Text.readQuoted .nothing rest).map fun read => .text (String.ofList read.1)
  | c :: others =>
      if c.isDigit then
        some (.number (Decimal.ofDigits ((c :: others).takeWhile (·.isDigit))
          ((c :: others).dropWhile (·.isDigit)).tail))
      else if word = "null" then some .null
      else if word = "true" then some (.bool true)
      else if word = "false" then some (.bool false)
      else none
  | [] => none

theorem Constant.ofOutline?_quoted (value : String) :
    Constant.ofOutline? (Constant.text value).outline = some (.text value) := by
  obtain ⟨behind, whole, isRead⟩ := Text.readQuoted_quoted value.toList []
  rw [List.append_nil] at whole
  simp [ofOutline?, outline, whole, isRead]

/-- What may stand in a name does not set words apart. -/
theorem isDelimiter_of_isNamePart {c : Char} (isPart : Token.isNamePart c = true) :
    isDelimiter c = false := by
  simp only [isDelimiter, Bool.or_eq_false_iff, beq_eq_false_iff_ne]
  refine ⟨⟨⟨?_, ?_⟩, ?_⟩, ?_⟩ <;> rintro rfl <;> contradiction

theorem isWord_of_isNumeral
    {text whole fraction : List Char}
    (isNumeral : Decimal.IsNumeral text whole fraction) :
    IsWord text := by
  have digit {c : Char} (isDigit : c.isDigit = true) : isDelimiter c = false :=
    isDelimiter_of_isNamePart (by simp [Token.isNamePart, Char.isAlphanum, isDigit])
  obtain ⟨rfl, nonempty, isWhole, isFraction⟩ := isNumeral
  refine .plain (by simp [nonempty]) fun c member => ?_
  rcases List.mem_append.mp member with inside | inside
  · exact digit (isWhole c inside)
  · unfold Decimal.pointed at inside
    split at inside
    · cases inside
    · rcases List.mem_cons.mp inside with rfl | inside
      · rfl
      · exact digit (isFraction c inside)

/-- The text of a finite number is a word, and it shows the number. -/
theorem Constant.ofOutline?_number {value : Float} (unsigned : Decimal.IsUnsigned value) :
    IsWord (Decimal.text value).toList ∧
      Constant.ofOutline? (Decimal.text value) = some (.number value) := by
  obtain ⟨whole, fraction, isNumeral, rfl⟩ := Decimal.exists_numeral_text unsigned
  refine ⟨isWord_of_isNumeral isNumeral, ?_⟩
  obtain ⟨isWhole, isFraction⟩ := isNumeral.span_eq
  obtain ⟨c, digits, rfl⟩ := List.exists_cons_of_ne_nil isNumeral.nonempty
  have isDigit := isNumeral.whole c List.mem_cons_self
  have notQuote : c ≠ '"' := by
    rintro rfl
    contradiction
  have spelled := isNumeral.spelled
  rw [List.cons_append] at spelled
  rw [spelled] at isWhole isFraction
  unfold ofOutline?
  rw [spelled]
  split
  next same => exact absurd (List.head_eq_of_cons_eq same) notQuote
  next d others _ same =>
      obtain ⟨rfl, rfl⟩ := List.cons.inj same
      rw [if_pos isDigit, isWhole, isFraction]
  next same => cases same

theorem isWord_keyword (word : Keyword) : IsWord word.spelling.toList := by
  refine .plain (by cases word <;> decide) ?_
  cases word <;> simp [Keyword.spelling, isDelimiter]

/-- What is shown for the constant of a token is a word, and it shows the constant and the
token. -/
theorem Constant.SpelledBy.ofOutline?_eq
    {value : Constant}
    {token : Token}
    (spelled : value.SpelledBy token)
    (proper : token.Proper) :
    IsWord value.outline.toList ∧ Constant.ofOutline? value.outline = some value ∧
      token.essence = value.token := by
  cases spelled with
  | null kind =>
      exact ⟨isWord_keyword .nullWord, rfl, proper.essence_eq_symbol kind (by decide)⟩
  | truth kind =>
      exact ⟨isWord_keyword .trueWord, rfl, proper.essence_eq_symbol kind (by decide)⟩
  | falsehood kind =>
      exact ⟨isWord_keyword .falseWord, rfl, proper.essence_eq_symbol kind (by decide)⟩
  | @literal _ literal _ found =>
      cases literal with
      | number value =>
          obtain ⟨isNumber, unsigned⟩ := proper.number found
          obtain ⟨isWord, shown⟩ := ofOutline?_number unsigned
          refine ⟨isWord, shown, ?_⟩
          simp [Constant.ofLiteral, Token.essence, Token.unplaced, Token.placeless,
            Constant.token, isNumber, found]
      | text value =>
          obtain ⟨isText, isLexeme⟩ := proper.text found
          refine ⟨?_, ofOutline?_quoted value, ?_⟩
          · rw [Constant.ofLiteral, Constant.outline, String.toList_ofList]
            exact .quoted value.toList
          · simp [Constant.ofLiteral, Token.essence, Token.unplaced, Token.placeless,
              Constant.token, isText, isLexeme, found]

/-- A name is a word that shows no constant. -/
theorem Constant.ofOutline?_name
    {token : Token}
    (proper : token.Proper)
    (isName : token.kind = .identifier) :
    IsWord token.lexeme.toList ∧ Constant.ofOutline? token.lexeme = none := by
  obtain ⟨-, c, others, spelled, starts, isPart, free⟩ := proper.name isName
  have notQuote : c ≠ '"' := by
    rintro rfl
    contradiction
  refine ⟨?_, ?_⟩
  · rw [spelled]
    refine .plain (List.cons_ne_nil c others) fun d member => isDelimiter_of_isNamePart ?_
    rcases List.mem_cons.mp member with rfl | member
    · exact Token.Piece.isNamePart_of_isNameStart starts
    · exact isPart d member
  · have noConstant : token.lexeme ≠ "null" ∧ token.lexeme ≠ "true" ∧ token.lexeme ≠ "false" :=
      ⟨free .nullWord, free .trueWord, free .falseWord⟩
    unfold ofOutline?
    rw [spelled]
    split
    next same => exact absurd (List.head_eq_of_cons_eq same) notQuote
    next d behind _ same =>
        obtain ⟨rfl, rfl⟩ := List.cons.inj same
        rw [if_neg (by simp [Token.isDigit_of_isNameStart starts]), if_neg noConstant.1,
          if_neg noConstant.2.1, if_neg noConstant.2.2]
    next same => rfl

end Tree
end Scripting
