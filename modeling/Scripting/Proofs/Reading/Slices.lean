import Scripting.Proofs.Reading.Lines
import Mathlib.Data.List.TakeWhile

/-!
# Reading a source by its bytes

A source can be read with an iterator over its characters that counts the bytes it has
passed, and the texts of tokens can be cut out of the source between two such counts.  A
slice between bytes that are not in order, or inside a character, is none (`slice?`).

The iterator and the count stay in step (`Reader.InStep`), so all slices that are asked for
exist, and what is read is what the pieces of the source are.

Main statement: `Scan.ofSource?_eq`.
-/

namespace Scripting
namespace Token

/-- The text of a source between two of its bytes, which have to be in order and to stand
between characters. -/
def slice? (source : String) (start stop : Nat) : Option String :=
  if start ≤ stop ∧ String.Pos.Raw.isValid source ⟨start⟩ = true ∧
      String.Pos.Raw.isValid source ⟨stop⟩ = true then
    some (String.Pos.Raw.extract source ⟨start⟩ ⟨stop⟩)
  else none

/-- A text is cut out of the text around it. -/
theorem slice?_eq
    {source : String}
    {front text after : List Char}
    (whole : source.toList = front ++ text ++ after) :
    slice? source (bytes front) (bytes front + bytes text) = some (String.ofList text) := by
  have source_eq : source = String.ofList (front ++ text ++ after) := by
    rw [← whole, String.ofList_toList]
  have valid (before rest : List Char) (same : before ++ rest = front ++ text ++ after) :
      String.Pos.Raw.isValid source ⟨bytes before⟩ = true := by
    refine String.Pos.Raw.isValid_eq_true_iff.mpr (String.Pos.Raw.isValid_iff_exists_append.mpr
      ⟨String.ofList before, String.ofList rest, ?_, ?_⟩)
    · rw [source_eq, ← same, String.ofList_append]
    · rw [String.rawEndPos, ← String.utf8Len_toList, String.toList_ofList, bytes_eq_utf8Len]
  have extract := String.extract_of_valid front text after
  rw [← source_eq, ← bytes_eq_utf8Len, ← bytes_eq_utf8Len] at extract
  have stop := valid (front ++ text) after rfl
  rw [bytes_append] at stop
  rw [slice?, if_pos ⟨Nat.le_add_right _ _, valid front (text ++ after) (by simp), stop⟩, extract]

example : slice? "é" 0 1 = none ∧ slice? "é" 0 2 = some "é" := by decide +kernel

/-- What reads a source: the characters to come, and how many bytes have been passed. -/
structure Reader where
  rest : List Char
  offset : Nat

namespace Reader

/-- Nothing has been passed. -/
def first (source : String) : Reader := ⟨source.toList, 0⟩

/-- Passes a character. -/
def advance (reader : Reader) : Reader :=
  match reader.rest with
  | [] => reader
  | c :: rest => ⟨rest, reader.offset + c.utf8Size⟩

/-- Passes characters as long as they fit. -/
def passWhile (fits : Char → Bool) (reader : Reader) : Reader :=
  ⟨reader.rest.dropWhile fits, reader.offset + bytes (reader.rest.takeWhile fits)⟩

/-! ## Reading by slices -/

section Slices

variable (source : String)

/-- The rest of the source. -/
def ahead? (reader : Reader) : Option String :=
  slice? source reader.offset source.utf8ByteSize

/-- The token between two places. -/
def lexeme? (kind : Kind) (literal : Option Literal) (start stop : Reader) :
    Option (Piece × Reader) := do
  let text ← slice? source start.offset stop.offset
  return (.lexeme kind literal text.toList, stop)

/-- A token of one character, or of two when an equals sign follows. -/
def comparison? (kinds : Kind × Kind) (start : Reader) : Option (Piece × Reader) :=
  let single := start.advance
  if single.rest.head? = some '=' then lexeme? source kinds.2 none start single.advance
  else lexeme? source kinds.1 none start single

/-- A comment, if the source goes on with two slashes, or else a slash. -/
def commentOrSlash? (start : Reader) : Option (Piece × Reader) := do
  let ahead ← start.ahead? source
  if ['/', '/'].isPrefixOf ahead.toList then
    let body := start.advance.advance
    return (.comment (body.rest.takeWhile (· != '\n')), body.passWhile (· != '\n'))
  else lexeme? source .slash none start start.advance

/-- A quoted text, whose value is cut out between its quotes. -/
def quotedText? (start : Reader) : Option (Piece × Reader) :=
  let content := start.advance
  let stop := content.passWhile (· != '"')
  match stop.rest with
  | [] => some (.unclosed (content.rest.takeWhile (· != '"')), stop)
  | _ :: _ => do
      let value ← slice? source content.offset stop.offset
      lexeme? source .text (some (.text value)) start stop.advance

/-- The value of digits with at most one point among them. -/
def valueOf (text : String) : Float :=
  Decimal.ofDigits (text.toList.takeWhile Char.isDigit) (text.toList.dropWhile Char.isDigit).tail

/-- Where a number ends whose first digits have been passed: it goes on behind a point only
if the character after the point is a digit. -/
def numeralEnd? (whole : Reader) : Option Reader :=
  if whole.rest.head? = some '.' then do
    let ahead ← whole.ahead? source
    return if ahead.toList[1]?.any Char.isDigit then whole.advance.passWhile Char.isDigit else whole
  else some whole

/-- A number, whose value is that of the digits that are cut out. -/
def numeral? (start : Reader) : Option (Piece × Reader) := do
  let stop ← numeralEnd? source (start.passWhile Char.isDigit)
  let text ← slice? source start.offset stop.offset
  lexeme? source .number (some (.number (valueOf text))) start stop

/-- A name or a keyword. -/
def name? (start : Reader) : Option (Piece × Reader) := do
  let stop := start.passWhile isNamePart
  let text ← slice? source start.offset stop.offset
  lexeme? source (Kind.ofName text) none start stop

/-- What begins with a character that is no symbol. -/
def wordOrGap? (c : Char) (start : Reader) : Option (Piece × Reader) :=
  if c = '/' then commentOrSlash? source start
  else if c = '"' then quotedText? source start
  else if isSeparator c then some (.separator c, start.advance)
  else if c.isDigit then numeral? source start
  else if isNameStart c then name? source start
  else some (.stray c, start.advance)

/-- What begins with the character `c`, which comes next. -/
def next? (c : Char) (start : Reader) : Option (Piece × Reader) :=
  match Piece.symbolOf? c with
  | some kind => lexeme? source kind none start start.advance
  | none =>
      match Piece.comparisonOf? c with
      | some kinds => comparison? source kinds start
      | none => wordOrGap? source c start

/-- What the reader comes to in fewer than `count` pieces. -/
def pieces? : (count : Nat) → Reader → Option (List Piece)
  | 0, _ => none
  | count + 1, reader =>
      match reader.rest with
      | [] => some []
      | c :: _ => do
          let (piece, later) ← next? source c reader
          let others ← pieces? count later
          return piece :: others

end Slices

/-! ## Iterator and count -/

/-- The reader has passed the text in front, and has counted its bytes. -/
structure InStep (source : String) (front : List Char) (reader : Reader) : Prop where
  whole : source.toList = front ++ reader.rest
  offset : reader.offset = bytes front

namespace InStep

variable {source : String} {front text : List Char} {reader start stop : Reader}

theorem first (source : String) : InStep source [] (Reader.first source) :=
  ⟨rfl, rfl⟩

theorem advance_rest {c : Char} {rest : List Char} (next : reader.rest = c :: rest) :
    reader.advance.rest = rest := by
  simp [Reader.advance, next]

theorem advance
    {c : Char}
    {rest : List Char}
    (inStep : InStep source front reader)
    (next : reader.rest = c :: rest) :
    InStep source (front ++ [c]) reader.advance := by
  refine ⟨?_, ?_⟩
  · rw [inStep.whole, advance_rest next, next]
    simp
  · simp [Reader.advance, next, inStep.offset, bytes_append, bytes]

theorem passWhile (inStep : InStep source front reader) (fits : Char → Bool) :
    InStep source (front ++ reader.rest.takeWhile fits) (reader.passWhile fits) := by
  refine ⟨?_, ?_⟩
  · rw [inStep.whole, Reader.passWhile, List.append_assoc, List.takeWhile_append_dropWhile]
  · rw [Reader.passWhile, inStep.offset, bytes_append]

/-- Between two places that the reader comes to, there is the text that it passes. -/
theorem slice?_between
    (first : InStep source front start)
    (second : InStep source (front ++ text) stop) :
    slice? source start.offset stop.offset = some (String.ofList text) := by
  rw [first.offset, second.offset, bytes_append]
  exact slice?_eq second.whole

/-- The rest of the source is what is to come. -/
theorem ahead?_eq (inStep : InStep source front reader) :
    reader.ahead? source = some (String.ofList reader.rest) := by
  have size : source.utf8ByteSize = bytes front + bytes reader.rest := by
    rw [← String.utf8Len_toList, ← bytes_eq_utf8Len, inStep.whole, bytes_append]
  rw [Reader.ahead?, inStep.offset, size]
  exact slice?_eq (by rw [inStep.whole, List.append_nil])

end InStep

/-! ## What is read -/

/-- Reading, from a place with the text in front, comes to the piece and the rest that are
told. -/
def ComesTo
    (source : String)
    (front : List Char)
    (found : Option (Piece × Reader))
    (told : Piece × List Char) : Prop :=
  ∃ stop, found = some (told.1, stop) ∧ stop.rest = told.2 ∧
    InStep source (front ++ told.1.chars) stop

variable {source : String} {front text rest : List Char} {c : Char} {start stop : Reader}

theorem lexeme?_comesTo
    {spelling : List Char}
    (before : InStep source front start)
    (after : InStep source (front ++ spelling) stop)
    (left : stop.rest = rest)
    (kind : Kind)
    (literal : Option Literal) :
    ComesTo source front (lexeme? source kind literal start stop)
      (.lexeme kind literal spelling, rest) := by
  refine ⟨stop, ?_, left, after⟩
  rw [lexeme?, before.slice?_between after]
  simp

/-- A piece of one character. -/
theorem advance_comesTo
    {piece : Piece}
    (inStep : InStep source front start)
    (next : start.rest = c :: rest)
    (chars : piece.chars = [c]) :
    ComesTo source front (some (piece, start.advance)) (piece, rest) :=
  ⟨_, rfl, InStep.advance_rest next, chars ▸ inStep.advance next⟩

theorem comparison?_comesTo
    (inStep : InStep source front start)
    (next : start.rest = c :: rest)
    (kinds : Kind × Kind) :
    ComesTo source front (comparison? source kinds start) (Piece.comparison kinds c rest) := by
  have single := inStep.advance next
  have left := InStep.advance_rest next
  unfold comparison?
  dsimp only
  rw [left]
  split
  next equal =>
      obtain ⟨others, rfl⟩ := List.head?_eq_some_iff.mp equal
      have double := single.advance left
      rw [List.append_assoc] at double
      exact lexeme?_comesTo inStep double (InStep.advance_rest left) _ _
  next other =>
      rw [Piece.comparison_of_head?_ne other]
      exact lexeme?_comesTo inStep single left _ _

/-- After a slash, a text goes on with two slashes if it goes on with another one. -/
theorem slashes_iff : ['/', '/'].isPrefixOf ('/' :: rest) = true ↔ rest.head? = some '/' := by
  cases rest with
  | nil => simp
  | cons c others => simpa using eq_comm

theorem commentOrSlash?_comesTo
    (inStep : InStep source front start)
    (next : start.rest = '/' :: rest) :
    ComesTo source front (commentOrSlash? source start) (Piece.commentOrSlash rest) := by
  have single := inStep.advance next
  have left := InStep.advance_rest next
  rw [commentOrSlash?, inStep.ahead?_eq, Option.bind_eq_bind, Option.bind_some,
    String.toList_ofList, next]
  split
  next slashes =>
      obtain ⟨others, rfl⟩ := List.head?_eq_some_iff.mp (slashes_iff.mp slashes)
      have body := InStep.advance_rest left
      have after := (single.advance left).passWhile (· != '\n')
      rw [body, List.append_assoc, List.append_assoc] at after
      refine ⟨_, by dsimp only; rw [body]; rfl, ?_, after⟩
      rw [Reader.passWhile, body]
      rfl
  next noSlashes =>
      rw [Piece.commentOrSlash_of_head?_ne fun head => noSlashes (slashes_iff.mpr head)]
      exact lexeme?_comesTo inStep single left _ _

theorem quotedText?_comesTo
    (inStep : InStep source front start)
    (next : start.rest = '"' :: rest) :
    ComesTo source front (quotedText? source start) (Piece.quotedText rest) := by
  have content := inStep.advance next
  have body := InStep.advance_rest next
  have inside := content.passWhile (· != '"')
  rw [body] at inside
  have left : (start.advance.passWhile (· != '"')).rest = rest.dropWhile (· != '"') := by
    rw [Reader.passWhile, body]
  unfold quotedText? Piece.quotedText
  dsimp only
  rw [left]
  cases closing : rest.dropWhile (· != '"') with
  | nil =>
      refine ⟨_, by rw [body], left.trans closing, ?_⟩
      rwa [List.append_assoc] at inside
  | cons quote others =>
      have after := inside.advance (left.trans closing)
      rw [List.append_assoc, List.append_assoc] at after
      dsimp only
      rw [content.slice?_between inside]
      exact lexeme?_comesTo inStep after (InStep.advance_rest (left.trans closing)) _ _

theorem name?_comesTo (inStep : InStep source front start) :
    ComesTo source front (name? source start) (Piece.name start.rest) := by
  have after := inStep.passWhile isNamePart
  rw [name?, inStep.slice?_between after]
  exact lexeme?_comesTo inStep after rfl _ _

theorem valueOf_whole
    {whole : List Char}
    (digits : ∀ c ∈ whole, c.isDigit = true) :
    valueOf (String.ofList whole) = Decimal.ofDigits whole [] := by
  rw [valueOf, String.toList_ofList, List.takeWhile_eq_self_iff.mpr digits,
    List.dropWhile_eq_nil_iff.mpr digits]
  rfl

theorem valueOf_fraction
    {whole : List Char}
    (digits : ∀ c ∈ whole, c.isDigit = true)
    (fraction : List Char) :
    valueOf (String.ofList (whole ++ '.' :: fraction)) = Decimal.ofDigits whole fraction := by
  rw [valueOf, String.toList_ofList, takeWhile_append_cons (by decide),
    dropWhile_append_cons (by decide), List.takeWhile_eq_self_iff.mpr digits,
    List.dropWhile_eq_nil_iff.mpr digits]
  rfl

/-- Behind a point and a digit there is a fraction, and nowhere else. -/
theorem numeralEnd?_eq {whole : Reader} (inStep : InStep source front whole) :
    (∃ digits stop, numeralEnd? source whole = some stop ∧
        Piece.fraction? whole.rest = some (digits, stop.rest) ∧
        InStep source (front ++ '.' :: digits) stop) ∨
      numeralEnd? source whole = some whole ∧ Piece.fraction? whole.rest = none := by
  unfold numeralEnd?
  split
  next point =>
      obtain ⟨rest, next⟩ := List.head?_eq_some_iff.mp point
      have behind := InStep.advance_rest next
      rw [inStep.ahead?_eq, Option.bind_eq_bind, Option.bind_some, String.toList_ofList, next,
        List.getElem?_cons_succ, Piece.fraction?]
      cases rest with
      | nil => exact .inr ⟨rfl, rfl⟩
      | cons c others =>
          cases digit : c.isDigit with
          | true =>
              have after := (inStep.advance next).passWhile Char.isDigit
              rw [behind, List.append_assoc] at after
              refine .inl ⟨_, whole.advance.passWhile Char.isDigit, ?_, ?_, after⟩
              · simp [digit]
              · simp [digit, passWhile, behind]
          | false => exact .inr ⟨by simp [digit], by simp [digit]⟩
  next noPoint =>
      refine .inr ⟨rfl, ?_⟩
      unfold Piece.fraction?
      split
      next equation => simp [equation] at noPoint
      · rfl

theorem numeral?_comesTo (inStep : InStep source front start) :
    ComesTo source front (numeral? source start) (Piece.numeral start.rest) := by
  have whole := inStep.passWhile Char.isDigit
  have digits : ∀ c ∈ start.rest.takeWhile Char.isDigit, c.isDigit = true :=
    List.all_eq_true.mp List.all_takeWhile
  unfold numeral? Piece.numeral
  dsimp only
  obtain ⟨fraction, stop, found, same, after⟩ | ⟨found, same⟩ := numeralEnd?_eq whole
  · rw [List.append_assoc] at after
    have same : Piece.fraction? (start.rest.dropWhile Char.isDigit) = some (fraction, stop.rest) :=
      same
    simp only [found, same, Option.bind_eq_bind, Option.bind_some, inStep.slice?_between after,
      valueOf_fraction digits]
    exact lexeme?_comesTo inStep after rfl _ _
  · have same : Piece.fraction? (start.rest.dropWhile Char.isDigit) = none := same
    simp only [found, same, Option.bind_eq_bind, Option.bind_some, inStep.slice?_between whole,
      valueOf_whole digits]
    exact lexeme?_comesTo inStep whole rfl _ _

theorem wordOrGap?_comesTo
    (inStep : InStep source front start)
    (next : start.rest = c :: rest) :
    ComesTo source front (wordOrGap? source c start) (Piece.wordOrGap c rest) := by
  unfold wordOrGap? Piece.wordOrGap
  split
  next slash => exact commentOrSlash?_comesTo inStep (slash ▸ next)
  split
  next quote => exact quotedText?_comesTo inStep (quote ▸ next)
  rw [← next]
  split
  · exact advance_comesTo inStep next rfl
  split
  · exact numeral?_comesTo inStep
  split
  · exact name?_comesTo inStep
  · exact advance_comesTo inStep next rfl

/-- The piece at the front of a text is read by slices. -/
theorem next?_comesTo
    (inStep : InStep source front start)
    (next : start.rest = c :: rest) :
    ComesTo source front (next? source c start) (Piece.next c rest) := by
  unfold next? Piece.next
  cases Piece.symbolOf? c with
  | some kind => exact lexeme?_comesTo inStep (inStep.advance next) (InStep.advance_rest next) _ _
  | none =>
      cases Piece.comparisonOf? c with
      | some kinds => exact comparison?_comesTo inStep next kinds
      | none => exact wordOrGap?_comesTo inStep next

/-- The pieces of a text are read by slices. -/
theorem pieces?_eq
    {count : Nat}
    (inStep : InStep source front start)
    (enough : start.rest.length < count) :
    pieces? source count start = some (Piece.ofText start.rest) := by
  induction count generalizing front start with
  | zero => cases enough
  | succ count inductionHypothesis =>
      cases next : start.rest with
      | nil => simp [pieces?, next]
      | cons c rest =>
          obtain ⟨later, found, left, after⟩ := next?_comesTo inStep next
          have shorter : later.rest.length < count := by
            have less := Piece.next_length_lt c rest
            rw [← next, ← left] at less
            omega
          rw [pieces?]
          simp only [next]
          rw [found, Option.bind_eq_bind, Option.bind_some]
          dsimp only
          rw [inductionHypothesis after shorter, left, Piece.ofText_cons]
          rfl

end Reader

/-- What reading a source by slices gives. -/
def Scan.ofSource? (source : String) : Option Scan := do
  let pieces ← Reader.pieces? source (source.length + 1) (.first source)
  return pieces.foldl add start

/-- All slices of a source exist that are asked for while it is read, and what is read by
them is what the source is read as. -/
theorem Scan.ofSource?_eq (source : String) : ofSource? source = some (ofSource source) := by
  have enough : (Reader.first source).rest.length < source.length + 1 :=
    Nat.lt_succ_of_le (Nat.le_of_eq String.length_toList)
  rw [ofSource?, Reader.pieces?_eq (.first source) enough]
  rfl

end Token
end Scripting
