import Mathlib.Data.List.Induction
import Scripting.Proofs.Running.Texts

/-!
# Values unfolded

An array that holds arrays unfolds into a tree, and one that holds itself, directly or through
others, into a tree without end.  An occurrence in that tree is a path of positions from the
value on (`Store.reached?`), and an array is open at an occurrence when the path comes through
it before (`Store.IsOpenAt`).  Cut off at every array that is open already, the tree is finite,
since no path comes through more arrays than there are.

The text of a value is the text of this tree (`Store.text_unfolds`), which has a place where it
was cut off exactly when a cycle can be reached from the value.
-/

namespace Scripting

/-! ## Trees of texts -/

/-- A value written out as a tree. -/
inductive Unfolding where
  /-- The text of a value that is no array. -/
  | plain (text : String)
  /-- An array inside itself, where the tree is cut off. -/
  | again
  | array (items : List Unfolding)

namespace Unfolding

mutual

/-- The text of a tree. -/
def text : Unfolding → String
  | plain text => text
  | again => "[...]"
  | array items => "[" ++ ", ".intercalate (texts items) ++ "]"

/-- The texts of trees. -/
def texts : List Unfolding → List String
  | [] => []
  | item :: others => item.text :: texts others

end

theorem texts_eq_map (items : List Unfolding) : texts items = items.map text := by
  induction items with
  | nil => simp [texts]
  | cons item others inductionHypothesis => simp [texts, inductionHypothesis]

/-- What stands in a tree at the end of a path. -/
def part? : Unfolding → List Nat → Option Unfolding
  | tree, [] => some tree
  | array items, position :: path => items[position]?.bind fun item => item.part? path
  | _, _ :: _ => none

@[simp] theorem part?_nil (tree : Unfolding) : tree.part? [] = some tree := by
  cases tree <;> rfl

@[simp] theorem part?_array (items : List Unfolding) (position : Nat) (path : List Nat) :
    (array items).part? (position :: path) =
      items[position]?.bind fun item => item.part? path := rfl

theorem part?_append (tree : Unfolding) (path further : List Nat) :
    tree.part? (path ++ further) = (tree.part? path).bind fun part => part.part? further := by
  induction path generalizing tree with
  | nil => simp
  | cons position path inductionHypothesis =>
      cases tree with
      | plain text => rfl
      | again => rfl
      | array items =>
          rw [List.cons_append, part?_array, part?_array]
          cases items[position]? with
          | none => rfl
          | some item => exact inductionHypothesis item

/-- The paths in a tree are bounded. -/
theorem length_add_sizeOf_le
    {tree part : Unfolding}
    {path : List Nat}
    (found : tree.part? path = some part) :
    path.length + sizeOf part ≤ sizeOf tree := by
  induction path generalizing tree with
  | nil =>
      obtain rfl : tree = part := by simpa using found
      simp
  | cons position path inductionHypothesis =>
      cases tree with
      | plain text => cases found
      | again => cases found
      | array items =>
          obtain ⟨item, present, inside⟩ := Option.bind_eq_some_iff.mp found
          have smaller := List.sizeOf_lt_of_mem (List.mem_of_getElem? present)
          have shorter := inductionHypothesis inside
          simp only [List.length_cons, array.sizeOf_spec]
          omega

end Unfolding

namespace Store

/-! ## Occurrences -/

variable (store : Store)

/-- The text of a value that is no array. -/
def plainText? : Value → Option String
  | .null => some "null"
  | .bool true => some "true"
  | .bool false => some "false"
  | .number value => some (Decimal.text value)
  | .text value => some value
  | .callable id => some (((store.callable? id).map Callable.description).getD "null")
  | .array _ => none

/-- What is reached from a value along a path, each position of which selects an element of
an array. -/
def reached? : Value → List Nat → Option Value
  | value, [] => some value
  | .array id, position :: path =>
      (store.elements id)[position]?.bind fun item => reached? item path
  | _, _ :: _ => none

/-- The path from the value comes through the array before its end. -/
def IsOpenAt (value : Value) (path : List Nat) (id : ArrayId) : Prop :=
  ∃ before after, path = before ++ after ∧ after ≠ [] ∧
    store.reached? value before = some (.array id)

/-- How a value is written where some arrays are open. -/
inductive WrittenAs (isOpen : ArrayId → Prop) : Value → Unfolding → Prop
  | plain {value : Value} {text : String} :
      store.plainText? value = some text → WrittenAs isOpen value (.plain text)
  | again {id : ArrayId} :
      isOpen id → WrittenAs isOpen (.array id) .again
  | array {id : ArrayId} {items : List Unfolding} :
      ¬ isOpen id → items.length = (store.elements id).size →
        WrittenAs isOpen (.array id) (.array items)

/-- The tree is the value unfolded, and cut off exactly where an array is open already. -/
structure Unfolds (value : Value) (tree : Unfolding) : Prop where
  /-- What stands in the tree is how the value reached there is written. -/
  parts : ∀ path part, tree.part? path = some part →
    ∃ found, store.reached? value path = some found ∧
      store.WrittenAs (store.IsOpenAt value path) found part
  /-- All that is reached without coming through an array that is open already stands in the
  tree. -/
  whole : ∀ path found, store.reached? value path = some found →
    (∀ before after id, path = before ++ after → after ≠ [] →
      store.reached? value before = some (.array id) → ¬ store.IsOpenAt value before id) →
    ∃ part, tree.part? path = some part

/-- From the value an array can be reached that can be reached from itself. -/
def LeadsToCycle (value : Value) : Prop :=
  ∃ path around id, around ≠ [] ∧ store.reached? value path = some (.array id) ∧
    store.reached? (.array id) around = some (.array id)

variable {store}

@[simp] theorem reached?_nil (value : Value) : store.reached? value [] = some value := by
  cases value <;> rfl

@[simp] theorem reached?_array (id : ArrayId) (position : Nat) (path : List Nat) :
    store.reached? (.array id) (position :: path) =
      (store.elements id)[position]?.bind fun item => store.reached? item path := rfl

theorem reached?_append (value : Value) (path further : List Nat) :
    store.reached? value (path ++ further) =
      (store.reached? value path).bind fun found => store.reached? found further := by
  induction path generalizing value with
  | nil => simp
  | cons position path inductionHypothesis =>
      cases value with
      | array id =>
          rw [List.cons_append, reached?_array, reached?_array]
          cases (store.elements id)[position]? with
          | none => rfl
          | some item => exact inductionHypothesis item
      | _ => rfl

theorem reached?_of_append
    {value between : Value}
    {path : List Nat}
    (reached : store.reached? value path = some between)
    (further : List Nat) :
    store.reached? value (path ++ further) = store.reached? between further := by
  rw [reached?_append, reached, Option.bind_some]

/-- Only from an array is anything else reached. -/
theorem exists_of_reached?_cons
    {value found : Value}
    {position : Nat}
    {path : List Nat}
    (reached : store.reached? value (position :: path) = some found) :
    ∃ id item, value = .array id ∧ (store.elements id)[position]? = some item ∧
      store.reached? item path = some found := by
  cases value with
  | array id =>
      obtain ⟨item, present, inside⟩ := Option.bind_eq_some_iff.mp reached
      exact ⟨id, item, rfl, present, inside⟩
  | _ => cases reached

/-- Inside an array those arrays are open that are open in its element, and itself. -/
theorem isOpenAt_cons_iff
    {id other : ArrayId}
    {position : Nat}
    {item : Value}
    (present : (store.elements id)[position]? = some item)
    (path : List Nat) :
    store.IsOpenAt (.array id) (position :: path) other ↔
      other = id ∨ store.IsOpenAt item path other := by
  have inside (before : List Nat) :
      store.reached? (.array id) (position :: before) = store.reached? item before := by
    rw [reached?_array, present, Option.bind_some]
  constructor
  · rintro ⟨before, after, split, nonempty, reached⟩
    cases before with
    | nil =>
        have same : id = other := by simpa using reached
        exact .inl same.symm
    | cons first before =>
        rw [List.cons_append, List.cons.injEq] at split
        obtain ⟨rfl, rfl⟩ := split
        exact .inr ⟨before, after, rfl, nonempty, inside before ▸ reached⟩
  · rintro (rfl | ⟨before, after, rfl, nonempty, reached⟩)
    · exact ⟨[], position :: path, rfl, List.cons_ne_nil _ _, reached?_nil _⟩
    · exact ⟨position :: before, after, rfl, nonempty, (inside before).trans reached⟩

theorem not_isOpenAt_nil (value : Value) (id : ArrayId) : ¬ store.IsOpenAt value [] id := by
  rintro ⟨before, after, split, nonempty, -⟩
  exact nonempty (List.append_eq_nil_iff.mp split.symm).2

theorem WrittenAs.congr
    {isOpen others : ArrayId → Prop}
    {value : Value}
    {part : Unfolding}
    (written : store.WrittenAs isOpen value part)
    (same : ∀ id, isOpen id ↔ others id) :
    store.WrittenAs others value part := by
  cases written with
  | plain text => exact .plain text
  | again isOpen => exact .again ((same _).mp isOpen)
  | array closed length => exact .array (fun isOpen => closed ((same _).mpr isOpen)) length

/-! ## Trees inside opened arrays

The arrays around a value are opened before the path begins. -/

/-- The parts of the tree are how the values reached are written inside the `opened`
arrays. -/
def UnfoldsInside (store : Store) (opened : List ArrayId) (value : Value) (tree : Unfolding) :
    Prop :=
  ∀ path part, tree.part? path = some part →
    ∃ found, store.reached? value path = some found ∧
      store.WrittenAs (fun id => id ∈ opened ∨ store.IsOpenAt value path id) found part

namespace UnfoldsInside

variable {opened : List ArrayId} {value : Value} {tree : Unfolding}

theorem atRoot (unfolds : store.UnfoldsInside opened value tree) :
    store.WrittenAs (· ∈ opened) value tree := by
  obtain ⟨found, reached, written⟩ := unfolds [] tree (Unfolding.part?_nil tree)
  obtain rfl : value = found := by simpa using reached
  exact written.congr fun id => or_iff_left (not_isOpenAt_nil value id)

/-- A tree without parts of its own. -/
theorem of_leaf
    (written : store.WrittenAs (· ∈ opened) value tree)
    (leaf : ∀ position path, tree.part? (position :: path) = none) :
    store.UnfoldsInside opened value tree := by
  intro path part found
  cases path with
  | nil =>
      obtain rfl : tree = part := by simpa using found
      exact ⟨value, reached?_nil value,
        written.congr fun id => (or_iff_left (not_isOpenAt_nil value id)).symm⟩
  | cons position path =>
      rw [leaf] at found
      cases found

/-- An array that is not open unfolds into its elements, inside which it is open. -/
theorem array_iff
    {id : ArrayId}
    {items : List Unfolding} :
    store.UnfoldsInside opened (.array id) (.array items) ↔
      id ∉ opened ∧ items.length = (store.elements id).size ∧
        ∀ (position : Nat) (item : Value) (part : Unfolding),
          (store.elements id)[position]? = some item → items[position]? = some part →
            store.UnfoldsInside (id :: opened) item part := by
  have isOpen {position : Nat} {item : Value}
      (present : (store.elements id)[position]? = some item) (path : List Nat) (other : ArrayId) :
      other ∈ opened ∨ store.IsOpenAt (.array id) (position :: path) other ↔
        other ∈ id :: opened ∨ store.IsOpenAt item path other := by
    rw [isOpenAt_cons_iff present, List.mem_cons, or_left_comm, or_assoc]
  constructor
  · intro unfolds
    cases unfolds.atRoot with
    | array closed length =>
        refine ⟨closed, length, fun position item part present partPresent path inner found => ?_⟩
        obtain ⟨value, reached, written⟩ := unfolds (position :: path) inner (by
          rw [Unfolding.part?_array, partPresent, Option.bind_some, found])
        rw [reached?_array, present, Option.bind_some] at reached
        exact ⟨value, reached, written.congr (isOpen present path)⟩
  · rintro ⟨closed, length, inside⟩ path part found
    cases path with
    | nil =>
        obtain rfl : Unfolding.array items = part := by simpa using found
        exact ⟨_, reached?_nil _,
          .array (fun isOpen => closed (isOpen.resolve_right (not_isOpenAt_nil _ _))) length⟩
    | cons position path =>
        obtain ⟨tree, treePresent, partFound⟩ := Option.bind_eq_some_iff.mp found
        obtain ⟨bound, -⟩ := List.getElem?_eq_some_iff.mp treePresent
        have present : (store.elements id)[position]? = some (store.elements id)[position] :=
          Array.getElem?_eq_getElem (length ▸ bound)
        obtain ⟨value, reached, written⟩ := inside position _ tree present treePresent path part
          partFound
        refine ⟨value, by rw [reached?_array, present, Option.bind_some, reached], ?_⟩
        exact written.congr fun other => (isOpen present path other).symm

/-- A value unfolds into one tree. -/
theorem unique
    {other : Unfolding}
    (unfolds : store.UnfoldsInside opened value tree)
    (otherUnfolds : store.UnfoldsInside opened value other) :
    other = tree := by
  induction sizeBound : sizeOf tree using Nat.strongRecOn generalizing tree other opened value with
  | ind size inductionHypothesis =>
      cases unfolds.atRoot with
      | plain text =>
          cases otherUnfolds.atRoot with
          | plain otherText => rw [Option.some.inj (text.symm.trans otherText)]
          | again => cases text
          | array => cases text
      | again isOpen =>
          cases otherUnfolds.atRoot with
          | plain text => cases text
          | again => rfl
          | array closed => exact absurd isOpen closed
      | @array id items closed =>
          cases otherUnfolds.atRoot with
          | plain text => cases text
          | again isOpen => exact absurd isOpen closed
          | @array _ others =>
              obtain ⟨-, length, inside⟩ := array_iff.mp unfolds
              obtain ⟨-, otherLength, otherInside⟩ := array_iff.mp otherUnfolds
              refine congrArg Unfolding.array (List.ext_getElem (otherLength.trans length.symm) ?_)
              intro position otherBound bound
              obtain ⟨item, present⟩ : ∃ item, (store.elements id)[position]? = some item :=
                ⟨_, Array.getElem?_eq_getElem (length ▸ bound)⟩
              have smaller := List.sizeOf_lt_of_mem (List.getElem_mem bound)
              have less : sizeOf items[position] < sizeOf (Unfolding.array items) := by
                simp only [Unfolding.array.sizeOf_spec]
                omega
              exact inductionHypothesis _ (sizeBound ▸ less)
                (inside position _ _ present (List.getElem?_eq_getElem bound))
                (otherInside position _ _ present (List.getElem?_eq_getElem otherBound)) rfl

end UnfoldsInside

/-- If every element of an array that is not open unfolds into a tree with a known text, so does
the array. -/
theorem exists_unfoldsInside_array
    {opened : List ArrayId}
    {id : ArrayId}
    (closed : id ∉ opened)
    {written : Value → String}
    (unfold : ∀ item ∈ (store.elements id).toList,
      ∃ tree, store.UnfoldsInside (id :: opened) item tree ∧ written item = tree.text) :
    ∃ items, store.UnfoldsInside opened (.array id) (.array items) ∧
      (store.elements id).toList.map written = items.map Unfolding.text := by
  choose tree unfolds text using unfold
  let items := (store.elements id).toList.attach.map fun item => tree item.1 item.2
  have length : items.length = (store.elements id).size := by simp [items]
  refine ⟨items, UnfoldsInside.array_iff.mpr ⟨closed, length, ?_⟩, ?_⟩
  · intro position item part present partPresent
    obtain ⟨inside, rfl⟩ := List.getElem?_eq_some_iff.mp partPresent
    obtain ⟨bound, rfl⟩ := Array.getElem?_eq_some_iff.mp present
    simpa [items] using unfolds _ (by simp)
  · refine List.ext_getElem (by simp [length]) fun position bound inside => ?_
    simpa [items] using text _ (by simp)

/-- With more levels than there are arrays still to be opened, a value unfolds into a tree
whose text is written. -/
theorem exists_unfoldsInside
    {levels : Nat}
    {opened : List ArrayId}
    (distinct : opened.Nodup)
    (stored : ∀ id ∈ opened, id < store.arrays.size)
    (enough : store.arrays.size < levels + opened.length)
    (value : Value) :
    ∃ tree, store.UnfoldsInside opened value tree ∧
      store.textWithin levels opened value = tree.text := by
  induction levels generalizing opened value with
  | zero =>
      have few := length_le_of_nodup distinct stored
      omega
  | succ levels inductionHypothesis =>
      cases written : store.plainText? value with
      | some text =>
          refine ⟨.plain text, .of_leaf (.plain written) fun _ _ => rfl, ?_⟩
          cases value with
          | array id => cases written
          | bool value =>
              cases value <;> simpa [textWithin, plainText?, Unfolding.text] using written
          | _ => simpa [textWithin, plainText?, Unfolding.text] using written
      | none =>
          obtain ⟨id, rfl⟩ : ∃ id, value = .array id := by
            cases value with
            | array id => exact ⟨id, rfl⟩
            | bool value => cases value <;> cases written
            | _ => cases written
          by_cases isOpen : id ∈ opened
          · exact ⟨.again, .of_leaf (.again isOpen) fun _ _ => rfl,
              by simp [textWithin, isOpen, Unfolding.text]⟩
          · have unfold : ∀ item ∈ (store.elements id).toList,
                ∃ tree, store.UnfoldsInside (id :: opened) item tree ∧
                  store.textWithin levels (id :: opened) item = tree.text := by
              intro item member
              -- An array that is not in the store has no elements.
              have isStored : id < store.arrays.size := by
                by_contra missing
                unfold elements at member
                rw [Array.getElem?_eq_none (Nat.le_of_not_lt missing)] at member
                simp at member
              exact inductionHypothesis (List.nodup_cons.mpr ⟨isOpen, distinct⟩)
                (List.forall_mem_cons.mpr ⟨isStored, stored⟩) (by rw [List.length_cons]; omega) item
            obtain ⟨items, unfolds, texts⟩ := exists_unfoldsInside_array isOpen unfold
            refine ⟨.array items, unfolds, ?_⟩
            simp only [textWithin, if_neg isOpen, atLevel_eq, texts, Unfolding.text,
              Unfolding.texts_eq_map]

/-! ## Whole trees -/

/-- No array is open before the path begins. -/
theorem unfoldsInside_nil_iff
    {value : Value}
    {tree : Unfolding} :
    store.UnfoldsInside [] value tree ↔
      ∀ path part, tree.part? path = some part →
        ∃ found, store.reached? value path = some found ∧
          store.WrittenAs (store.IsOpenAt value path) found part := by
  simp [UnfoldsInside]

/-- What is reached without coming through an array that is written as cut off stands in the
tree. -/
theorem UnfoldsInside.exists_part
    {value found : Value}
    {tree : Unfolding}
    (unfolds : store.UnfoldsInside [] value tree)
    {path : List Nat}
    (reached : store.reached? value path = some found)
    (uncut : ∀ before after, path = before ++ after → after ≠ [] →
      tree.part? before ≠ some .again) :
    ∃ part, tree.part? path = some part := by
  induction path using List.reverseRecOn generalizing found with
  | nil => exact ⟨tree, Unfolding.part?_nil tree⟩
  | append_singleton path position inductionHypothesis =>
      rw [reached?_append] at reached
      obtain ⟨outer, outerReached, inside⟩ := Option.bind_eq_some_iff.mp reached
      obtain ⟨id, item, rfl, present, -⟩ := exists_of_reached?_cons inside
      obtain ⟨part, partFound⟩ :=
        inductionHypothesis outerReached fun before after split nonempty =>
          uncut before (after ++ [position]) (by rw [split, List.append_assoc]) (by simp)
      obtain ⟨value, same, written⟩ := unfoldsInside_nil_iff.mp unfolds path part partFound
      obtain rfl := Option.some.inj (outerReached.symm.trans same)
      cases written with
      | plain text => cases text
      | again => exact absurd partFound (uncut path [position] rfl (List.cons_ne_nil _ _))
      | @array _ items closed length =>
          obtain ⟨bound, -⟩ := Array.getElem?_eq_some_iff.mp present
          have inBounds : position < items.length := length ▸ bound
          refine ⟨items[position], ?_⟩
          rw [Unfolding.part?_append, partFound, Option.bind_some, Unfolding.part?_array,
            List.getElem?_eq_getElem inBounds, Option.bind_some, Unfolding.part?_nil]

theorem unfolds_iff
    {value : Value}
    {tree : Unfolding} :
    store.Unfolds value tree ↔ store.UnfoldsInside [] value tree := by
  refine ⟨fun unfolds => unfoldsInside_nil_iff.mpr unfolds.parts, fun unfolds => ?_⟩
  refine ⟨unfoldsInside_nil_iff.mp unfolds, fun path found reached closed => ?_⟩
  refine unfolds.exists_part reached fun before after split nonempty cut => ?_
  obtain ⟨value, beforeReached, written⟩ := unfoldsInside_nil_iff.mp unfolds before _ cut
  cases written with
  | again isOpen => exact closed before after _ split nonempty beforeReached isOpen

/-- A path around a cycle can be gone as often as one likes. -/
theorem reached?_flatten_replicate
    {id : ArrayId}
    {around : List Nat}
    (reached : store.reached? (.array id) around = some (.array id))
    (rounds : Nat) :
    store.reached? (.array id) (List.replicate rounds around).flatten = some (.array id) := by
  induction rounds with
  | zero => simp
  | succ rounds inductionHypothesis =>
      rw [List.replicate_succ, List.flatten_cons, reached?_of_append reached, inductionHypothesis]

/-- The tree is cut off somewhere exactly when a cycle can be reached. -/
theorem UnfoldsInside.exists_again_iff
    {value : Value}
    {tree : Unfolding}
    (unfolds : store.UnfoldsInside [] value tree) :
    (∃ path, tree.part? path = some .again) ↔ store.LeadsToCycle value := by
  constructor
  · rintro ⟨path, cut⟩
    obtain ⟨found, reached, written⟩ := unfoldsInside_nil_iff.mp unfolds path _ cut
    cases written with
    | @again id isOpen =>
        obtain ⟨before, after, rfl, nonempty, outerReached⟩ := isOpen
        rw [reached?_of_append outerReached] at reached
        exact ⟨before, after, id, nonempty, outerReached, reached⟩
  · rintro ⟨path, around, id, nonempty, reached, back⟩
    by_contra uncut
    -- Gone around often enough, the cycle is longer than any path in the tree.
    let rounds := sizeOf tree + 1
    have far := reached?_flatten_replicate back rounds
    rw [← reached?_of_append reached] at far
    obtain ⟨part, found⟩ := unfolds.exists_part far fun before after _ _ cut => uncut ⟨before, cut⟩
    have short := Unfolding.length_add_sizeOf_le found
    have once : 0 < around.length := List.length_pos_iff.mpr nonempty
    have long : rounds * 1 ≤ rounds * around.length := Nat.mul_le_mul_left rounds once
    simp only [List.length_append, List.length_flatten, List.map_replicate,
      List.sum_replicate_nat] at short
    omega

/-- A value unfolds into exactly one tree that is cut off where an array is open already, and
its text is the text of this tree, in whichever number of levels that are more than there are
arrays. The tree is cut off somewhere exactly when a cycle can be reached from the value. -/
theorem text_unfolds (store : Store) (value : Value) :
    ∃ tree, (∀ other, store.Unfolds value other ↔ other = tree) ∧
      store.text value = tree.text ∧
      (∀ levels, store.arrays.size < levels → store.textWithin levels [] value = tree.text) ∧
      ((∃ path, tree.part? path = some .again) ↔ store.LeadsToCycle value) := by
  have enough : store.arrays.size < store.arrays.size + 1 := Nat.lt_succ_self _
  obtain ⟨tree, unfolds, text⟩ :=
    exists_unfoldsInside .nil (fun _ member => nomatch member) enough value
  rw [textWithin_eq_text (Nat.lt_succ_self _)] at text
  refine ⟨tree, fun other => ?_, text, fun levels enough => ?_, unfolds.exists_again_iff⟩
  · rw [unfolds_iff]
    constructor
    · exact unfolds.unique
    · rintro rfl
      exact unfolds
  · rw [textWithin_eq_text enough, text]

end Store
end Scripting
