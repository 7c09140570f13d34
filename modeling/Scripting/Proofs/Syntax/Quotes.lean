import Scripting.Text.Quoted

/-!
# Quoted texts read back

A quoted text ends at the first quote that no backslash is before, and what is before it says
which text was quoted.  So a quoted text at the front of a longer one is known by it, and so is
what follows.

Main statements: `readQuoted_quoted`, `quoted_append_inj`.
-/

namespace Scripting
namespace Text

/-- What has been read of a character. -/
inductive Progress where
  | nothing
  /-- A backslash. -/
  | escape
  /-- The beginning of a code point. -/
  | codePoint (value : Nat)

/-- The value of a hexadecimal digit in lower case. -/
def hexadecimalValue (digit : Char) : Nat :=
  if digit.isDigit then digit.toNat - '0'.toNat else digit.toNat - 'a'.toNat + 10

/-- The character that a letter behind a backslash stands for. -/
def escaped (letter : Char) : Char :=
  match letter with
  | '0' => '\x00'
  | 't' => '\t'
  | 'r' => '\r'
  | 'n' => '\n'
  | other => other

/-- Reads a quoted text from behind its first quote on, and gives the text and what follows. -/
def readQuoted : Progress → List Char → Option (List Char × List Char)
  | _, [] => none
  | .nothing, c :: rest =>
      if c = '"' then some ([], rest)
      else if c = '\\' then readQuoted .escape rest
      else (readQuoted .nothing rest).map (Prod.map (c :: ·) id)
  | .escape, c :: rest =>
      if c = 'u' then readQuoted (.codePoint 0) rest
      else (readQuoted .nothing rest).map (Prod.map (escaped c :: ·) id)
  | .codePoint value, c :: rest =>
      if c = '\x7b' then readQuoted (.codePoint value) rest
      else if c = '\x7d' then (readQuoted .nothing rest).map (Prod.map (Char.ofNat value :: ·) id)
      else readQuoted (.codePoint (16 * value + hexadecimalValue c)) rest

/-! ## Code points -/

/-- The number that hexadecimal digits spell behind others. -/
def hexadecimalFrom (value : Nat) (digits : List Char) : Nat :=
  digits.foldl (fun value digit => 16 * value + hexadecimalValue digit) value

theorem hexadecimalFrom_append (value : Nat) (digits others : List Char) :
    hexadecimalFrom value (digits ++ others) =
      hexadecimalFrom (hexadecimalFrom value digits) others :=
  List.foldl_append

theorem hexadecimalValue_digitChar {value : Nat} (bound : value < 16) :
    hexadecimalValue value.digitChar = value ∧
      value.digitChar ≠ '\x7b' ∧ value.digitChar ≠ '\x7d' := by
  revert value
  decide

/-- Hexadecimal digits spell their number, and none of them is a brace. -/
theorem hexadecimalFrom_toDigits (value : Nat) :
    hexadecimalFrom 0 (Nat.toDigits 16 value) = value ∧
      ∀ c ∈ Nat.toDigits 16 value, c ≠ '\x7b' ∧ c ≠ '\x7d' := by
  induction value using Nat.strongRecOn with
  | ind value inductionHypothesis =>
      rw [Nat.toDigits_eq_if (by decide)]
      split
      next single =>
          obtain ⟨isValue, notBrace⟩ := hexadecimalValue_digitChar single
          simp [hexadecimalFrom, isValue, notBrace]
      next several =>
          obtain ⟨front, notBraces⟩ := inductionHypothesis (value / 16) (by omega)
          obtain ⟨last, notBrace⟩ :=
            hexadecimalValue_digitChar (Nat.mod_lt value (by decide : 0 < 16))
          refine ⟨?_, fun c member => ?_⟩
          · rw [hexadecimalFrom_append, front]
            simp only [hexadecimalFrom, List.foldl_cons, List.foldl_nil, last]
            omega
          · rcases List.mem_append.mp member with inside | isLast
            · exact notBraces c inside
            · rw [List.mem_singleton.mp isLast]
              exact notBrace

theorem readQuoted_digits
    {digits : List Char}
    (notBraces : ∀ c ∈ digits, c ≠ '\x7b' ∧ c ≠ '\x7d')
    (value : Nat)
    (rest : List Char) :
    readQuoted (.codePoint value) (digits ++ rest) =
      readQuoted (.codePoint (hexadecimalFrom value digits)) rest := by
  induction digits generalizing value with
  | nil => rfl
  | cons c digits inductionHypothesis =>
      obtain ⟨⟨opening, closing⟩, others⟩ := List.forall_mem_cons.mp notBraces
      rw [List.cons_append, readQuoted, if_neg opening, if_neg closing, inductionHypothesis others]
      rfl

/-! ## Characters and texts -/

/-- A quoted character is read as the character. -/
theorem readQuoted_quotedChar (c : Char) (rest : List Char) :
    readQuoted .nothing (quotedChar c ++ rest) =
      (readQuoted .nothing rest).map (Prod.map (c :: ·) id) := by
  unfold quotedChar
  split
  case h_7 notQuote notBackslash =>
    split
    · obtain ⟨value, notBraces⟩ := hexadecimalFrom_toDigits c.toNat
      simp only [codePointEscape, List.append_assoc, List.cons_append, List.nil_append]
      simp only [readQuoted, if_true]
      rw [readQuoted_digits notBraces, value]
      simp [readQuoted]
    · rw [List.singleton_append, readQuoted, if_neg notQuote, if_neg notBackslash]
  all_goals simp [readQuoted, escaped]

/-- A quoted text with anything else behind it is read as the text, and what is behind it is
left. -/
theorem readQuoted_quoted (text rest : List Char) :
    ∃ behind, quoted text ++ rest = '"' :: behind ∧
      readQuoted .nothing behind = some (text, rest) := by
  refine ⟨text.flatMap quotedChar ++ '"' :: rest, by simp [quoted], ?_⟩
  induction text with
  | nil => simp [readQuoted]
  | cons c others inductionHypothesis =>
      rw [List.flatMap_cons, List.append_assoc, readQuoted_quotedChar, inductionHypothesis]
      rfl

/-- Quoted texts with anything else behind them are the same only if the texts and what is
behind them are. -/
theorem quoted_append_inj
    {text other rest otherRest : List Char}
    (same : quoted text ++ rest = quoted other ++ otherRest) :
    text = other ∧ rest = otherRest := by
  obtain ⟨behind, whole, isRead⟩ := readQuoted_quoted text rest
  obtain ⟨otherBehind, otherWhole, otherRead⟩ := readQuoted_quoted other otherRest
  obtain rfl := List.tail_eq_of_cons_eq (whole.symm.trans (same.trans otherWhole))
  exact Prod.mk.inj (Option.some.inj (isRead.symm.trans otherRead))

end Text
end Scripting
