/-!
# Splitting a text at a separator

The parts of a text are what stands between the occurrences of a separator,
found from left to right without overlap.  A text without an occurrence is its
own single part.
-/

namespace Scripting
namespace Text

/-- The splitting loop: `skip` characters of the last separator found are still to be
passed over, `part` holds the current part backwards, and `parts` the parts
before it. -/
def splitLoop
    (separator : List Char)
    (parts : Array (List Char)) :
    (part : List Char) → (skip : Nat) → List Char → Array (List Char)
  | part, _, [] => parts.push part.reverse
  | part, skip + 1, _ :: rest => splitLoop separator parts part skip rest
  | part, 0, c :: rest =>
      if separator.isPrefixOf (c :: rest) then
        splitLoop separator (parts.push part.reverse) [] (separator.length - 1) rest
      else
        splitLoop separator parts (c :: part) 0 rest

/-- The parts of a text between the occurrences of a separator that is not
empty. -/
def split (separator text : List Char) : List (List Char) :=
  (splitLoop separator #[] [] 0 text).toList

@[simp] theorem split_nil (separator : List Char) : split separator [] = [[]] := rfl

end Text
end Scripting
