import Scripting.Decimal.Shortest

/-!
# Tokens

A program is read as a sequence of tokens.  Each has a kind, the text it was
read from, the place of that text in the source, and for numbers and quoted
texts the value it stands for.  The words in the language's own vocabulary are
listed once, in `Keyword.all`; a name is a keyword exactly when the list holds
its spelling.
-/

namespace Scripting

/-- A word that the language keeps for itself. -/
inductive Keyword where
  | andWord | classWord | echoWord | elseWord | falseWord | fnWord | forWord | ifWord
  | letWord | nullWord | orWord | returnWord | superWord | thisWord | trueWord | whileWord
  deriving DecidableEq, Inhabited

namespace Keyword

/-- The word itself. -/
def spelling : Keyword → String
  | andWord => "and"
  | classWord => "class"
  | echoWord => "echo"
  | elseWord => "else"
  | falseWord => "false"
  | fnWord => "fn"
  | forWord => "for"
  | ifWord => "if"
  | letWord => "let"
  | nullWord => "null"
  | orWord => "or"
  | returnWord => "return"
  | superWord => "super"
  | thisWord => "this"
  | trueWord => "true"
  | whileWord => "while"

/-- Every keyword, in alphabetical order. -/
def all : List Keyword :=
  [andWord, classWord, echoWord, elseWord, falseWord, fnWord, forWord, ifWord,
    letWord, nullWord, orWord, returnWord, superWord, thisWord, trueWord, whileWord]

@[simp] theorem mem_all (word : Keyword) : word ∈ all := by
  cases word <;> decide

/-- The keyword with a given spelling. -/
def ofSpelling? (text : String) : Option Keyword :=
  all.find? fun word => word.spelling == text

/-- A keyword is found by its own spelling, and only by it. -/
theorem ofSpelling?_eq_some
    {text : String}
    {word : Keyword}
    (found : ofSpelling? text = some word) :
    word.spelling = text := by
  simpa using List.find?_some found

/-- Whether a keyword opens a declaration or a statement. -/
def startsStatement : Keyword → Bool
  | classWord | fnWord | letWord | forWord | ifWord | whileWord | echoWord | returnWord => true
  | _ => false

end Keyword

namespace Token

/-- The kinds of token. -/
inductive Kind where
  | leftParen | rightParen | leftBrace | rightBrace | leftBracket | rightBracket
  | comma | dot | semicolon
  | minus | plus | slash | star
  | bang | bangEqual | equal | equalEqual
  | greater | greaterEqual | less | lessEqual
  | identifier | text | number
  | keyword (word : Keyword)
  | endOfInput
  deriving DecidableEq, Inhabited

namespace Kind

/-- How a kind is named in messages: a symbol or a keyword by itself, the others by
a word for them. -/
def description : Kind → String
  | leftParen => "("
  | rightParen => ")"
  | leftBrace => "\x7b"
  | rightBrace => "\x7d"
  | leftBracket => "["
  | rightBracket => "]"
  | comma => ","
  | dot => "."
  | semicolon => ";"
  | minus => "-"
  | plus => "+"
  | slash => "/"
  | star => "*"
  | bang => "!"
  | bangEqual => "!="
  | equal => "="
  | equalEqual => "=="
  | greater => ">"
  | greaterEqual => ">="
  | less => "<"
  | lessEqual => "<="
  | identifier => "identifier"
  | text => "string"
  | number => "number"
  | keyword word => word.spelling
  | endOfInput => "end of input"

/-- Whether a token of this kind opens a declaration or a statement. -/
def startsStatement : Kind → Bool
  | keyword word => word.startsStatement
  | _ => false

/-- The kind of a name: the keyword it spells, or else an identifier. -/
def ofName (name : String) : Kind :=
  match Keyword.ofSpelling? name with
  | some word => keyword word
  | none => identifier

end Kind

/-- A stretch of the source: the byte offsets of its two ends, and the line and the
column, both counted from one, at which it starts. -/
structure Span where
  start : Nat
  stop : Nat
  line : Nat
  column : Nat
  deriving DecidableEq, Inhabited

/-- The span of what stands in no source. -/
def Span.nowhere : Span := ⟨0, 0, 0, 0⟩

/-- The value that a number or a quoted text stands for. -/
inductive Literal where
  | number (value : Float)
  | text (value : String)
  deriving Inhabited

/-- The text of a literal's value. -/
def Literal.description : Literal → String
  | number value => Decimal.text value
  | text value => value

end Token

/-- A token of the language. -/
structure Token where
  kind : Token.Kind
  lexeme : String
  literal : Option Token.Literal
  span : Token.Span
  deriving Inhabited

namespace Token

/-- A token that stands in no source. -/
def placeless
    (kind : Kind)
    (lexeme : String) : Token where
  kind := kind
  lexeme := lexeme
  literal := none
  span := Span.nowhere

/-- The token's kind, its text and its value, separated by spaces. -/
def description (token : Token) : String :=
  let named := token.kind.description ++ " " ++ token.lexeme
  match token.literal with
  | none => named
  | some literal => named ++ " " ++ literal.description

/-- A sequence of tokens up to the end of the input. -/
structure Sequence where
  /-- The tokens before the end. -/
  body : List Token
  /-- The token that marks the end. -/
  ending : Token

namespace Sequence

/-- The part of a list of tokens up to its first end of input, which is added if the
list has none. -/
def ofList : List Token → Sequence
  | [] => { body := [], ending := placeless .endOfInput "" }
  | token :: rest =>
      if token.kind = .endOfInput then { body := [], ending := token }
      else
        let others := ofList rest
        { others with body := token :: others.body }

/-- All tokens, the end of the input last. -/
def toList (tokens : Sequence) : List Token :=
  tokens.body ++ [tokens.ending]

/-- A sequence made of a list ends with an end of input. -/
theorem ofList_ending_kind (tokens : List Token) :
    (ofList tokens).ending.kind = .endOfInput := by
  induction tokens with
  | nil => rfl
  | cons token rest inductionHypothesis =>
      unfold ofList
      split
      · assumption
      · exact inductionHypothesis

/-- No token before the end is an end of input. -/
theorem ofList_body_kind
    (tokens : List Token) :
    ∀ token ∈ (ofList tokens).body, token.kind ≠ .endOfInput := by
  induction tokens with
  | nil => simp [ofList]
  | cons token rest inductionHypothesis =>
      unfold ofList
      split
      · simp
      next notEnd => simpa using ⟨notEnd, inductionHypothesis⟩

end Sequence

end Token
end Scripting
