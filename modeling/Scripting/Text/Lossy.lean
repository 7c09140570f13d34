/-!
# Text from arbitrary bytes

Bytes are read as UTF-8.  Where they are not well formed, the longest stretch that
could still have begun a character counts as one replacement character, and so
does every byte with which no character begins.
-/

namespace Scripting
namespace Text

/-- The character that stands for what cannot be read. -/
def replacement : Char := '\ufffd'

/-- What the first byte of a character says: the bits it contributes, and the range
of every byte that has to follow. -/
structure Lead where
  bits : Nat
  following : List (Nat × Nat)

/-- The ordinary range of a byte that continues a character. -/
def continuation : Nat × Nat := (0x80, 0xbf)

/-- What a byte says as the first one of a character. -/
def lead? (byte : Nat) : Option Lead :=
  if byte < 0x80 then some ⟨byte, []⟩
  else if byte < 0xc2 then none
  else if byte < 0xe0 then some ⟨byte - 0xc0, [continuation]⟩
  else if byte = 0xe0 then some ⟨0, [(0xa0, 0xbf), continuation]⟩
  else if byte = 0xed then some ⟨0xd, [(0x80, 0x9f), continuation]⟩
  else if byte < 0xf0 then some ⟨byte - 0xe0, [continuation, continuation]⟩
  else if byte = 0xf0 then some ⟨0, [(0x90, 0xbf), continuation, continuation]⟩
  else if byte < 0xf4 then some ⟨byte - 0xf0, [continuation, continuation, continuation]⟩
  else if byte = 0xf4 then some ⟨4, [(0x80, 0x8f), continuation, continuation]⟩
  else none

/-- Reads the bytes that have to follow; gives the code point, unless one is missing,
and the bytes left. -/
def readFollowing : List (Nat × Nat) → (bits : Nat) → List UInt8 → Option Nat × List UInt8
  | [], bits, rest => (some bits, rest)
  | _ :: _, _, [] => (none, [])
  | (first, last) :: ranges, bits, byte :: rest =>
      if first ≤ byte.toNat ∧ byte.toNat ≤ last then
        readFollowing ranges (bits * 64 + byte.toNat % 64) rest
      else (none, byte :: rest)

theorem readFollowing_length_le
    (ranges : List (Nat × Nat))
    (bits : Nat)
    (bytes : List UInt8) :
    (readFollowing ranges bits bytes).2.length ≤ bytes.length := by
  induction ranges generalizing bits bytes with
  | nil => simp [readFollowing]
  | cons range ranges inductionHypothesis =>
      cases bytes with
      | nil => simp [readFollowing]
      | cons byte rest =>
          unfold readFollowing
          split
          · exact Nat.le_succ_of_le (inductionHypothesis _ _)
          · exact Nat.le_refl _

/-- The text that bytes spell, after the characters already `found`. -/
def lossyOnto (found : Array Char) : List UInt8 → Array Char
  | [] => found
  | byte :: rest =>
      match lead? byte.toNat with
      | none => lossyOnto (found.push replacement) rest
      | some lead =>
          let step := readFollowing lead.following lead.bits rest
          lossyOnto (found.push ((step.1.map Char.ofNat).getD replacement)) step.2
termination_by bytes => bytes.length
decreasing_by
  · simp
  · exact Nat.lt_succ_of_le (readFollowing_length_le _ _ _)

/-- The text that bytes spell. -/
def lossy (bytes : List UInt8) : String :=
  String.ofList (lossyOnto #[] bytes).toList

@[simp] theorem lossy_nil : lossy [] = "" := by
  simp [lossy, lossyOnto]

end Text
end Scripting
