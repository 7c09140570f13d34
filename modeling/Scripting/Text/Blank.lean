import Scripting.Text.Ranges

/-!
# Blank characters

The white space of text in general, as opposed to the four characters that
separate the tokens of a program.  Trimming removes it from both ends.
-/

namespace Scripting
namespace Text

/-- The runs of code points with the property White_Space. -/
def blankRanges : Ranges := [
    (0x9, 0xd), (0x20, 0x20), (0x85, 0x85), (0xa0, 0xa0), (0x1680, 0x1680), (0x2000, 0x200a),
    (0x2028, 0x2029), (0x202f, 0x202f), (0x205f, 0x205f), (0x3000, 0x3000)]

/-- Whether a character is white space. -/
def isBlank (c : Char) : Bool :=
  blankRanges.includes c.toNat

/-- What is left of a text without the white space at both ends. -/
def trimBlank (text : List Char) : List Char :=
  ((text.dropWhile isBlank).reverse.dropWhile isBlank).reverse

@[simp] theorem trimBlank_nil : trimBlank [] = [] := rfl

end Text
end Scripting
