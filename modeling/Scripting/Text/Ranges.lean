/-!
# Sets of code points as ascending ranges

A character property is stored as the list of its maximal runs of code points.
Membership walks the runs in ascending order and stops at the first run that
starts beyond the code point it looks for.
-/

namespace Scripting
namespace Text

/-- Runs of code points, each given by its first and its last member, in
ascending order. -/
abbrev Ranges := List (Nat × Nat)

namespace Ranges

/-- Whether a code point lies in one of the runs. -/
def includes : Ranges → Nat → Bool
  | [], _ => false
  | (first, last) :: rest, code =>
      if code < first then false
      else if code ≤ last then true
      else includes rest code

@[simp] theorem includes_nil (code : Nat) : includes [] code = false := rfl

end Ranges

end Text
end Scripting
