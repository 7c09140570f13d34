import Scripting.Store
import Scripting.FreshStack
import Scripting.Text.Quoted

/-!
# The text of a value

Arrays are written with their elements in brackets.  An array can hold itself,
directly or through others, so the arrays that are being written are kept in a
list, and one that is reached again inside itself is written as `[...]`.  Every
step into an array makes this list longer by an array that was not in it, so the
arrays of the store bound how deep the writing can go.
-/

namespace Scripting
namespace Store

/-- The text of a value that stands inside the `opened` arrays, as deep as `levels`
allows. -/
def textWithin
    (store : Store) :
    (levels : Nat) → (opened : List ArrayId) → Value → String
  | _, _, .null => "null"
  | _, _, .bool true => "true"
  | _, _, .bool false => "false"
  | _, _, .number value => Decimal.text value
  | _, _, .text value => value
  | _, _, .callable id => ((store.callable? id).map Callable.description).getD "null"
  | 0, _, .array _ => "[...]"
  | levels + 1, opened, .array id =>
      if id ∈ opened then "[...]"
      else atLevel levels fun _ =>
        let items := (store.elements id).toList.map (store.textWithin levels (id :: opened))
        "[" ++ ", ".intercalate items ++ "]"

/-- The text of a value. -/
def text (store : Store) (value : Value) : String :=
  store.textWithin (levelsFor store.arrays.size) [] value

/-- The text of a value, in quotes if it is a text itself. -/
def quotedText (store : Store) (value : Value) : String :=
  match value with
  | .text value => String.ofList (Text.quoted value.toList)
  | _ => store.text value

end Store
end Scripting
