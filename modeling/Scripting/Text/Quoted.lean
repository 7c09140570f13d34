import Scripting.Text.Hidden
import Scripting.Text.Combining

/-!
# Quoted text

A text in double quotes, written so that it can be read off the page: the quote,
the backslash and the common control characters by a backslash and a letter, and
every character that has no visible form, or that attaches to its neighbour, by
its number in hexadecimal.
-/

namespace Scripting
namespace Text

/-- The code point of a character in braces, in lower-case hexadecimal. -/
def codePointEscape (c : Char) : List Char :=
  ['\\', 'u', '\x7b'] ++ Nat.toDigits 16 c.toNat ++ ['\x7d']

/-- One character as it stands between the quotes. -/
def quotedChar (c : Char) : List Char :=
  match c with
  | '\x00' => ['\\', '0']
  | '\t' => ['\\', 't']
  | '\r' => ['\\', 'r']
  | '\n' => ['\\', 'n']
  | '"' => ['\\', '"']
  | '\\' => ['\\', '\\']
  | _ => if isCombining c || isHidden c then codePointEscape c else [c]

/-- A text in double quotes. -/
def quoted (text : List Char) : List Char :=
  '"' :: text.flatMap quotedChar ++ ['"']

@[simp] theorem quoted_nil : quoted [] = ['"', '"'] := rfl

end Text
end Scripting
