import Scripting.Proofs.Reading.Relocation
import Scripting.Proofs.Reading.Sources
import Scripting.Proofs.Reading.Spellings

/-!
# Names replaced in a text

When every identifier of a source is replaced by another one, the pieces of the source stay
what they are: an identifier goes on up to the same characters, and what comes before it
stops at a name, whichever it is.  So the renamed source has the same tokens, but for their
places and for the texts of its identifiers, and the same faults among its tokens.

Main statements: `Piece.ofText_renamed`, `tokensOf_text`, `readProgram_text`.
-/

namespace Scripting
namespace Token

/-! ## Renamings -/

/-- Whether a word is a name and no keyword. -/
def isIdentifier (word : String) : Bool :=
  match word.toList with
  | [] => false
  | c :: others =>
      isNameStart c && others.all isNamePart && (Keyword.ofSpelling? word).isNone

/-- Other identifiers in the place of identifiers, and different ones for different ones. -/
structure Renaming where
  rename : String → String
  isIdentifier_rename {word : String} :
    isIdentifier word = true → isIdentifier (rename word) = true
  injective {word other : String} :
    isIdentifier word = true → isIdentifier other = true → rename word = rename other →
      word = other

/-- Two identifiers exchanged, and all others kept. -/
def Renaming.exchange
    (first second : String)
    (isFirst : isIdentifier first = true)
    (isSecond : isIdentifier second = true) : Renaming where
  rename word := if word = first then second else if word = second then first else word
  isIdentifier_rename known := by
    split
    · exact isSecond
    · split
      · exact isFirst
      · exact known
  injective _ _ same := by grind

/-- What a renaming makes of a word. Keywords and all that are no names stay as they are. -/
def Renaming.spell (names : Renaming) (word : String) : String :=
  if isIdentifier word = true then names.rename word else word

theorem Renaming.isIdentifier_spell (names : Renaming) (word : String) :
    isIdentifier (names.spell word) = isIdentifier word := by
  unfold spell
  split
  next known => rw [known, names.isIdentifier_rename known]
  · rfl

theorem Renaming.spell_injective (names : Renaming) : Function.Injective names.spell := by
  intro word other same
  have kinds := congrArg isIdentifier same
  rw [isIdentifier_spell, isIdentifier_spell] at kinds
  unfold spell at same
  by_cases known : isIdentifier word = true
  · have otherKnown : isIdentifier other = true := kinds ▸ known
    rw [if_pos known, if_pos otherKnown] at same
    exact names.injective known otherKnown same
  · have otherUnknown : ¬ isIdentifier other = true := kinds ▸ known
    rwa [if_neg known, if_neg otherUnknown] at same

theorem Renaming.spell_of_not {names : Renaming} {word : String}
    (unknown : isIdentifier word = false) :
    names.spell word = word :=
  if_neg (Bool.not_eq_true _ ▸ unknown)

theorem Renaming.spell_of_fixed {names : Renaming} {word : String}
    (fixed : names.rename word = word) :
    names.spell word = word := by
  unfold spell
  split
  · exact fixed
  · rfl

theorem isIdentifier_of_toList
    {word : String}
    {c : Char}
    {others : List Char}
    (whole : word.toList = c :: others) :
    isIdentifier word =
      (isNameStart c && others.all isNamePart && (Keyword.ofSpelling? word).isNone) := by
  unfold isIdentifier
  rw [whole]

/-- What begins with no letter is no identifier. -/
theorem isIdentifier_of_noStart
    {c : Char}
    (noStart : isNameStart c = false)
    (others : List Char) :
    isIdentifier (String.ofList (c :: others)) = false := by
  rw [isIdentifier_of_toList String.toList_ofList, noStart]
  rfl

theorem Kind.ofName_eq_identifier_iff {word : String} :
    Kind.ofName word = .identifier ↔ (Keyword.ofSpelling? word).isNone = true := by
  unfold ofName
  cases Keyword.ofSpelling? word <;> simp

/-- No digit begins a name. -/
theorem isDigit_of_isNameStart {c : Char} (starts : isNameStart c = true) :
    c.isDigit = false := by
  unfold isNameStart Char.isAlpha Char.isUpper Char.isLower at starts
  by_cases underscore : c = '_'
  · rw [underscore]
    decide
  · unfold Char.isDigit
    grind

/-- A token is an identifier when its text is one. -/
theorem Spelled.kind_eq_identifier_iff
    {kind : Kind}
    {literal : Option Literal}
    {spelling : List Char}
    (spelled : Spelled kind literal spelling) :
    kind = .identifier ↔ isIdentifier (String.ofList spelling) = true := by
  have number {c : Char} {digits : List Char} (isDigit : c.isDigit = true) :
      Kind.number = .identifier ↔ isIdentifier (String.ofList (c :: digits)) = true := by
    have noStart : isNameStart c = false := by
      refine Bool.eq_false_iff.mpr fun starts => ?_
      rw [isDigit_of_isNameStart starts] at isDigit
      cases isDigit
    rw [isIdentifier_of_noStart noStart]
    decide
  cases spelled with
  | symbol isSymbol =>
      unfold Piece.symbolOf? at isSymbol
      split at isSymbol <;> cases isSymbol <;> decide
  | single compared | double compared =>
      unfold Piece.comparisonOf? at compared
      split at compared <;> cases compared <;> decide
  | slash => decide
  | text unquoted =>
      rw [List.cons_append, isIdentifier_of_noStart (by decide)]
      decide
  | whole isDigit => exact number (isDigit _ List.mem_cons_self)
  | fraction isDigit _ => exact number (isDigit _ List.mem_cons_self)
  | name starts isPart =>
      rw [isIdentifier_of_toList String.toList_ofList, starts, List.all_eq_true.mpr isPart,
        Kind.ofName_eq_identifier_iff]
      rfl

variable {c d : Char} {rest after other : List Char} (names : Renaming)

/-- A name is renamed to a name of the same kind. -/
theorem Renaming.exists_name
    (starts : isNameStart c = true)
    (isPart : ∀ d ∈ rest, isNamePart d = true) :
    let word := String.ofList (c :: rest)
    ∃ d others, (names.spell word).toList = d :: others ∧ isNameStart d = true ∧
      (∀ e ∈ others, isNamePart e = true) ∧ Kind.ofName (names.spell word) = Kind.ofName word := by
  intro word
  have whole : word.toList = c :: rest := String.toList_ofList
  by_cases known : isIdentifier word = true
  · have renamed := (names.isIdentifier_spell word).trans known
    cases spelled : (names.spell word).toList with
    | nil => simp [isIdentifier, spelled] at renamed
    | cons d others =>
        rw [isIdentifier_of_toList whole] at known
        rw [isIdentifier_of_toList spelled] at renamed
        simp only [Bool.and_eq_true, List.all_eq_true] at known renamed
        obtain ⟨⟨start, part⟩, noKeyword⟩ := renamed
        exact ⟨d, others, rfl, start, part, (Kind.ofName_eq_identifier_iff.mpr noKeyword).trans
          (Kind.ofName_eq_identifier_iff.mpr known.2).symm⟩
  · rw [spell_of_not (Bool.eq_false_iff.mpr known)]
    exact ⟨c, rest, whole, starts, isPart, rfl⟩

/-! ## What comes after a piece -/

/-- The texts begin with the same character, with names, or with nothing. -/
inductive HeadsAlike : List Char → List Char → Prop
  | nil : HeadsAlike [] []
  | same (c : Char) (rest others : List Char) : HeadsAlike (c :: rest) (c :: others)
  | names {c d : Char} (rest others : List Char) :
      isNameStart c = true → isNameStart d = true → HeadsAlike (c :: rest) (d :: others)

/-- What stops at the one text stops at the other one. -/
theorem HeadsAlike.stops
    (alike : HeadsAlike after other)
    {p : Char → Bool}
    (starts : ∀ c d, isNameStart c = true → isNameStart d = true → p c = false → p d = false)
    (stops : ∀ c ∈ after.head?, p c = false) :
    ∀ c ∈ other.head?, p c = false := by
  cases alike with
  | nil => exact stops
  | same c rest others => exact stops
  | names rest others first second =>
      rintro _ ⟨⟩
      exact starts _ _ first second (stops _ rfl)

/-- A character that begins no name is next in both texts or in none. -/
theorem HeadsAlike.head?_ne
    (alike : HeadsAlike after other)
    (noStart : isNameStart c = false)
    (differs : after.head? ≠ some c) :
    other.head? ≠ some c := by
  have stops := alike.stops (p := (· == c))
    (fun _ d _ starts _ => by
      rw [beq_eq_false_iff_ne]
      rintro rfl
      rw [noStart] at starts
      cases starts)
    (fun d head => by
      rw [beq_eq_false_iff_ne]
      rintro rfl
      exact differs head)
  intro head
  simpa using stops c head

/-- The texts begin alike, and also behind a point, where they begin with one. -/
structure Continues (after other : List Char) : Prop where
  heads : HeadsAlike after other
  behindPoint :
    ∀ rest, after = '.' :: rest → ∃ others, other = '.' :: others ∧ HeadsAlike rest others

namespace Piece

/-- No number goes on in the one text if none does in the other one. -/
theorem fraction?_continues
    (continues : Continues after other)
    (noFraction : fraction? after = none) :
    fraction? other = none := by
  by_cases point : after.head? = some '.'
  · cases after with
    | nil => cases point
    | cons c rest =>
        obtain rfl := Option.some.inj point
        obtain ⟨others, rfl, alike⟩ := continues.behindPoint rest rfl
        have stops : ∀ d ∈ rest.head?, d.isDigit = false := by
          unfold fraction? at noFraction
          cases rest with
          | nil => simp
          | cons d more =>
              cases isDigit : d.isDigit with
              | false => simpa using isDigit
              | true => simp [isDigit] at noFraction
        have otherStops := alike.stops (fun _ _ _ second _ => isDigit_of_isNameStart second) stops
        unfold fraction?
        cases others with
        | nil => rfl
        | cons d more => simp [otherStops d rfl]
  · have noPoint := continues.heads.head?_ne (by decide) point
    unfold fraction?
    split
    · exact absurd rfl noPoint
    · rfl

/-- What begins with the same character and goes on as the piece does, is read as the same
piece, up to another text that may come after it. -/
def Rereads (read : List Char → Piece × List Char) (c : Char) (rest other : List Char) : Prop :=
  ∃ spelled, (read rest).1.chars = c :: spelled ∧ read (spelled ++ other) = ((read rest).1, other)

theorem comparison_rereads
    (kinds : Kind × Kind)
    (alike : HeadsAlike (comparison kinds c rest).2 other) :
    Rereads (comparison kinds c) c rest other := by
  by_cases equals : rest.head? = some '='
  · cases rest with
    | nil => cases equals
    | cons d more =>
        obtain rfl := Option.some.inj equals
        exact ⟨['='], rfl, rfl⟩
  · rw [comparison_of_head?_ne equals] at alike
    refine ⟨[], by rw [comparison_of_head?_ne equals]; rfl, ?_⟩
    rw [comparison_of_head?_ne equals, List.nil_append,
      comparison_of_head?_ne (alike.head?_ne (by decide) equals)]

theorem commentOrSlash_rereads (alike : HeadsAlike (commentOrSlash rest).2 other) :
    Rereads commentOrSlash '/' rest other := by
  by_cases slash : rest.head? = some '/'
  · cases rest with
    | nil => cases slash
    | cons d more =>
        obtain rfl := Option.some.inj slash
        have passes : ∀ c ∈ more.takeWhile (· != '\n'), (c != '\n') = true :=
          List.all_eq_true.mp List.all_takeWhile
        have ends : ∀ c ∈ (more.dropWhile (· != '\n')).head?, (c != '\n') = false := by
          intro c head
          have isEnd := List.head?_dropWhile_not (· != '\n') more
          rw [head] at isEnd
          simpa using isEnd
        have stops := alike.stops (p := (· != '\n'))
          (fun c _ first _ stop => by
            obtain rfl : c = '\n' := by simpa using stop
            exact absurd first (by decide)) ends
        obtain ⟨taken, dropped⟩ := span_append passes stops
        refine ⟨'/' :: more.takeWhile (· != '\n'), rfl, ?_⟩
        simp only [commentOrSlash, List.cons_append, taken, dropped]
  · rw [commentOrSlash_of_head?_ne slash] at alike
    refine ⟨[], by rw [commentOrSlash_of_head?_ne slash]; rfl, ?_⟩
    rw [commentOrSlash_of_head?_ne slash, List.nil_append,
      commentOrSlash_of_head?_ne (alike.head?_ne (by decide) slash)]

theorem quotedText_rereads (alike : HeadsAlike (quotedText rest).2 other) :
    Rereads quotedText '"' rest other := by
  have passes : ∀ c ∈ rest.takeWhile (· != '"'), (c != '"') = true :=
    List.all_eq_true.mp List.all_takeWhile
  cases closing : rest.dropWhile (· != '"') with
  | nil =>
      have read : quotedText rest = (unclosed (rest.takeWhile (· != '"')), []) := by
        simp only [quotedText, closing]
      rw [read] at alike
      cases alike
      refine ⟨rest.takeWhile (· != '"'), by rw [read]; rfl, ?_⟩
      have stops : ∀ c ∈ ([] : List Char).head?, (c != '"') = false := by simp
      obtain ⟨taken, dropped⟩ := span_append passes stops
      rw [read]
      simp only [quotedText, taken, dropped]
  | cons quote more =>
      have isQuote := List.head?_dropWhile_not (· != '"') rest
      rw [closing] at isQuote
      obtain rfl : quote = '"' := by simpa using isQuote
      have read : quotedText rest = (lexeme .text
          (some (.text (String.ofList (rest.takeWhile (· != '"')))))
          ('"' :: rest.takeWhile (· != '"') ++ ['"']), more) := by
        simp only [quotedText, closing]
      refine ⟨rest.takeWhile (· != '"') ++ ['"'], by rw [read]; rfl, ?_⟩
      rw [read, List.append_assoc]
      exact quotedText_of_unquoted (by simpa using passes) other

/-- What is left of a number begins with no digit. -/
theorem numeral_stops (text : List Char) :
    ∀ c ∈ (numeral text).2.head?, c.isDigit = false := by
  have stop (text : List Char) : ∀ c ∈ (text.dropWhile Char.isDigit).head?, c.isDigit = false := by
    intro c head
    have isEnd := List.head?_dropWhile_not Char.isDigit text
    rw [head] at isEnd
    simpa using isEnd
  unfold numeral
  dsimp only
  split
  next digits others found =>
      unfold fraction? at found
      split at found
      · split at found
        · cases found
        · cases found
          exact stop _
      · cases found
  next => exact stop text

theorem numeral_rereads
    (isDigit : c.isDigit = true)
    (continues : Continues (numeral (c :: rest)).2 other) :
    Rereads (fun rest => numeral (c :: rest)) c rest other := by
  have taken : (c :: rest).takeWhile Char.isDigit = c :: rest.takeWhile Char.isDigit :=
    List.takeWhile_cons_of_pos isDigit
  have digits : ∀ d ∈ c :: rest.takeWhile Char.isDigit, d.isDigit = true := by
    rw [← taken]
    exact List.all_eq_true.mp List.all_takeWhile
  have stops := continues.heads.stops (fun _ _ _ second _ => isDigit_of_isNameStart second)
    (numeral_stops (c :: rest))
  unfold Rereads
  cases found : fraction? ((c :: rest).dropWhile Char.isDigit) with
  | none =>
      have read : numeral (c :: rest) =
          (lexeme .number (some (.number (Decimal.ofDigits (c :: rest.takeWhile Char.isDigit) [])))
            (c :: rest.takeWhile Char.isDigit), (c :: rest).dropWhile Char.isDigit) := by
        simp only [numeral, found, taken]
      rw [read] at continues
      refine ⟨rest.takeWhile Char.isDigit, by dsimp only; rw [read]; rfl, ?_⟩
      dsimp only
      rw [read]
      exact numeral_of_whole digits stops (fraction?_continues continues found)
  | some pair =>
      obtain ⟨decimals, others⟩ := pair
      obtain ⟨nonempty, areDigits⟩ := Spelled.isDigit_of_fraction found
      have read : numeral (c :: rest) =
          (lexeme .number
            (some (.number (Decimal.ofDigits (c :: rest.takeWhile Char.isDigit) decimals)))
            (c :: rest.takeWhile Char.isDigit ++ '.' :: decimals), others) := by
        simp only [numeral, found, taken]
      refine ⟨rest.takeWhile Char.isDigit ++ '.' :: decimals, by dsimp only; rw [read]; rfl, ?_⟩
      dsimp only
      rw [read]
      exact numeral_of_fraction digits areDigits nonempty stops

/-- A piece that is no name is read again before every text that begins like the one after
it. -/
theorem next_rereads
    (noStart : isNameStart c = false)
    (continues : Continues (next c rest).2 other) :
    Rereads (next c) c rest other := by
  unfold next at continues ⊢
  cases isSymbol : symbolOf? c with
  | some kind => exact ⟨[], rfl, rfl⟩
  | none =>
      rw [isSymbol] at continues
      cases compared : comparisonOf? c with
      | some kinds =>
          rw [compared] at continues
          exact comparison_rereads kinds continues.heads
      | none =>
          rw [compared] at continues
          dsimp only at continues ⊢
          unfold wordOrGap at continues ⊢
          by_cases slash : c = '/'
          · subst slash
            exact commentOrSlash_rereads continues.heads
          by_cases quote : c = '"'
          · subst quote
            exact quotedText_rereads continues.heads
          cases blank : isSeparator c with
          | true =>
              simp only [slash, quote]
              exact ⟨[], rfl, rfl⟩
          | false =>
              cases isDigit : c.isDigit with
              | true =>
                  simp only [slash, quote, blank, isDigit] at continues ⊢
                  exact numeral_rereads isDigit continues
              | false =>
                  simp only [slash, quote, noStart]
                  exact ⟨[], rfl, rfl⟩

/-! ## Pieces -/

/-- The piece with its text renamed, if it is an identifier. -/
def renamed (names : Renaming) : Piece → Piece
  | lexeme kind literal spelling =>
      lexeme kind literal (names.spell (String.ofList spelling)).toList
  | piece => piece

/-- The text in which the pieces are renamed. -/
def renamedText (names : Renaming) (text : List Char) : List Char :=
  (ofText text).flatMap fun piece => (piece.renamed names).chars

theorem renamedText_cons (c : Char) (rest : List Char) :
    renamedText names (c :: rest) =
      ((next c rest).1.renamed names).chars ++ renamedText names (next c rest).2 := by
  rw [renamedText, ofText_cons, List.flatMap_cons]
  rfl

/-- What begins with no letter is not renamed. -/
theorem renamed_of_noStart
    {piece : Piece}
    (noStart : isNameStart c = false)
    (begins : piece.chars = c :: rest) :
    piece.renamed names = piece := by
  cases piece with
  | lexeme kind literal spelling =>
      change spelling = c :: rest at begins
      subst begins
      rw [renamed, Renaming.spell_of_not (isIdentifier_of_noStart noStart rest),
        String.toList_ofList]
  | _ => rfl

/-- The renamed piece is read again before every text that begins like the one after the
piece. -/
theorem next_renamed (continues : Continues (next c rest).2 other) :
    ∃ d spelled, ((next c rest).1.renamed names).chars = d :: spelled ∧
      next d (spelled ++ other) = ((next c rest).1.renamed names, other) := by
  cases starts : isNameStart c with
  | false =>
      obtain ⟨spelled, chars, rereads⟩ := next_rereads starts continues
      rw [renamed_of_noStart names starts chars]
      exact ⟨c, spelled, chars, rereads⟩
  | true =>
      have taken : (c :: rest).takeWhile isNamePart = c :: rest.takeWhile isNamePart :=
        List.takeWhile_cons_of_pos (isNamePart_of_isNameStart starts)
      obtain ⟨d, others, whole, begins, isPart, kind⟩ :=
        names.exists_name starts (List.all_eq_true.mp List.all_takeWhile)
      have read : next c rest =
          (lexeme (Kind.ofName (String.ofList (c :: rest.takeWhile isNamePart))) none
            (c :: rest.takeWhile isNamePart), (c :: rest).dropWhile isNamePart) := by
        rw [next_of_isNameStart starts, name, taken]
      rw [read] at continues ⊢
      have stops := continues.heads.stops (p := isNamePart)
        (fun _ _ first _ stop => by
          rw [isNamePart_of_isNameStart first] at stop
          cases stop)
        (fun e head => by
          have isEnd := List.head?_dropWhile_not isNamePart (c :: rest)
          rw [head] at isEnd
          simpa using isEnd)
      have named := name_of_isPart
        (List.forall_mem_cons.mpr ⟨isNamePart_of_isNameStart begins, isPart⟩) stops
      have again : String.ofList (d :: others) =
          names.spell (String.ofList (c :: rest.takeWhile isNamePart)) := by
        rw [← whole, String.ofList_toList]
      refine ⟨d, others, whole, ?_⟩
      rw [next_of_isNameStart begins, ← List.cons_append, named, again, kind, renamed, whole]

/-- The renamed text begins like the text. -/
theorem headsAlike_renamedText (text : List Char) :
    HeadsAlike text (renamedText names text) := by
  cases text with
  | nil =>
      rw [renamedText, ofText_nil]
      exact .nil
  | cons c rest =>
      rw [renamedText_cons]
      cases starts : isNameStart c with
      | false =>
          have whole := next_append c rest
          cases chars : (next c rest).1.chars with
          | nil => exact absurd chars (next_chars_ne_nil c rest)
          | cons d others =>
              obtain rfl : d = c := (List.cons.inj ((chars ▸ whole) : d :: (others ++ _) = _)).1
              rw [renamed_of_noStart names starts chars, chars]
              exact .same ..
      | true =>
          have taken : (c :: rest).takeWhile isNamePart = c :: rest.takeWhile isNamePart :=
            List.takeWhile_cons_of_pos (isNamePart_of_isNameStart starts)
          obtain ⟨d, others, whole, begins, -⟩ :=
            names.exists_name starts (List.all_eq_true.mp List.all_takeWhile)
          rw [next_of_isNameStart starts, name, taken, renamed, chars, whole]
          exact .names _ _ starts begins

theorem continues_renamedText (text : List Char) :
    Continues text (renamedText names text) where
  heads := headsAlike_renamedText names text
  behindPoint rest begins := by
    refine ⟨renamedText names rest, ?_, headsAlike_renamedText names rest⟩
    have point : next '.' rest = (lexeme .dot none ['.'], rest) := rfl
    rw [begins, renamedText_cons, point,
      renamed_of_noStart names (by decide : isNameStart '.' = false) rfl]
    rfl

/-- A renamed text falls into the renamed pieces. -/
theorem ofText_renamed (text : List Char) :
    ofText (renamedText names text) = (ofText text).map (renamed names) := by
  induction lengthBound : text.length using Nat.strongRecOn generalizing text with
  | ind length inductionHypothesis =>
      cases text with
      | nil => simp [renamedText]
      | cons c rest =>
          have shorter : (next c rest).2.length < length := by
            rw [← lengthBound]
            exact next_length_lt c rest
          have others := inductionHypothesis _ shorter (next c rest).2 rfl
          obtain ⟨d, spelled, chars, read⟩ :=
            next_renamed names (continues_renamedText names (next c rest).2)
          rw [renamedText_cons, chars, List.cons_append, ofText_cons, read, ofText_cons, others,
            List.map_cons]

end Piece

/-! ## Sources -/

namespace Renaming

/-- The source in which every identifier is renamed. -/
def text (source : String) : String :=
  String.ofList (Piece.renamedText names source.toList)

/-- The words in which the tokens of a renamed source are those of the source, without their
places. -/
def words : Rewording := ⟨fun _ => .nowhere, names.spell⟩

end Renaming

/-- The fault that a piece is, without its place. -/
def Piece.fault? : Piece → Option Fault
  | stray c => some (Fault.ofCause (.unexpectedCharacter c) (some .nowhere))
  | unclosed _ => some (Fault.ofCause .unterminatedText (some .nowhere))
  | _ => none

namespace Scan

/-- The tokens of a renamed source are the renamed tokens of the source, but for places. -/
theorem tokens_text (source : String) :
    (ofSource (names.text source)).tokens.toList.map (Token.reworded .placeless) =
      (ofSource source).tokens.toList.map (Token.reworded names.words) := by
  change (ofSource (names.text source)).tokens.toList.map unplaced = _
  have renamed : (ofSource source).tokens.toList.map (Token.reworded names.words) =
      ((ofSource source).tokens.toList.map unplaced).map (Token.reworded names.words) := by
    rw [List.map_map]
    rfl
  rw [renamed, ofSource, ofSource, ofText_tokens_unplaced, ofText_tokens_unplaced,
    Renaming.text, String.toList_ofList, Piece.ofText_renamed, List.filterMap_map,
    List.map_filterMap]
  refine List.filterMap_congr fun piece _ => ?_
  cases piece with
  | lexeme kind literal spelling =>
      simp [Piece.token?, Piece.renamed, Token.reworded, Renaming.words]
  | _ => rfl

/-- But for their places, the faults are those of the pieces. -/
theorem faults_foldl_add_unplaced (pieces : List Piece) (scan : Scan) :
    (pieces.foldl add scan).faults.toList.map (Fault.placed fun _ => .nowhere) =
      scan.faults.toList.map (Fault.placed fun _ => .nowhere) ++ pieces.filterMap Piece.fault? := by
  induction pieces generalizing scan with
  | nil => simp
  | cons piece others inductionHypothesis =>
      rw [List.foldl_cons, inductionHypothesis, List.filterMap_cons]
      cases piece <;> simp [add, Piece.fault?, Fault.placed, Fault.ofCause]

/-- The faults among the tokens of a renamed source are those of the source, but for
places. -/
theorem faults_text (source : String) :
    (ofSource (names.text source)).faults.toList.map (Fault.reworded .placeless) =
      (ofSource source).faults.toList.map (Fault.reworded names.words) := by
  rw [Rewording.placeless, Fault.reworded_ofPlace]
  have renamed : (ofSource source).faults.toList.map (Fault.reworded names.words) =
      ((ofSource source).faults.toList.map (Fault.placed fun _ => .nowhere)).map
        (Fault.reworded names.words) := by
    rw [List.map_map]
    refine List.map_congr_left fun fault _ => ?_
    simp [Fault.reworded, Fault.placed, Renaming.words, Function.comp_def]
  have found (text : List Char) : (ofText text).faults.toList.map (Fault.placed fun _ => .nowhere) =
      (Piece.ofText text).filterMap Piece.fault? :=
    faults_foldl_add_unplaced (Piece.ofText text) start
  rw [renamed, ofSource, ofSource, found, found, Renaming.text, String.toList_ofList,
    Piece.ofText_renamed, List.filterMap_map, List.map_filterMap]
  refine List.filterMap_congr fun piece _ => ?_
  cases piece with
  | _ => rfl

end Scan
end Token

/-- A renamed source has the renamed tokens, but for places. -/
theorem tokensOf_text (names : Token.Renaming) (source : String) :
    (tokensOf (names.text source)).reworded .placeless =
      (tokensOf source).reworded names.words := by
  have body := Token.Scan.tokens_text names source
  have ending : (Token.Scan.ofSource (names.text source)).ending.unplaced =
      (Token.Scan.ofSource source).ending.reworded names.words := by
    have unnamed : names.spell "" = "" := Token.Renaming.spell_of_not rfl
    simp [Token.Scan.ending, Token.unplaced, Token.reworded, Token.Renaming.words, unnamed]
  exact congrArg₂ Token.Sequence.mk body ending

/-- A renamed source is read as the renamed program, but for places. -/
theorem readProgram_text (names : Token.Renaming) (source : String) :
    (Tree.readProgram (tokensOf (names.text source)) .empty).reworded .placeless =
      (Tree.readProgram (tokensOf source) .empty).reworded names.words := by
  rw [← Tree.readProgram_reworded, ← Tree.readProgram_reworded, tokensOf_text,
    Tree.Arena.reworded_empty, Tree.Arena.reworded_empty]

end Scripting
