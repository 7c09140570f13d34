import Scripting.Proofs.Running.Texts

/-!
# Stores with other numbers for arrays

Which numbers a store has given to its arrays shows nowhere.  A value with other numbers for its
arrays has the same type and counts as true when the value does, two such values are the same
when the values are, and in a store whose arrays are found under the other numbers it has the
same text.

The arrays that are moved here are those from a first one on, and they are moved by as many
places: this is what happens to new arrays when others are added before them.

Main statement: `Store.Renumbers.text_moved`.
-/

namespace Scripting

/-! ## Values -/

/-- The number of an array when those from the first one on have moved some places up. -/
def ArrayId.moved (first places : Nat) (id : ArrayId) : ArrayId :=
  if id < first then id else id + places

namespace Value

/-- The value when the arrays from the first one on have moved some places up. -/
def moved (first places : Nat) : Value → Value
  | array id => array (ArrayId.moved first places id)
  | value => value

/-- The value is none of the arrays from the first one on. -/
def IsBefore (first : Nat) : Value → Prop
  | array id => id < first
  | _ => True

end Value

section Values

variable {first places : Nat}

theorem ArrayId.moved_of_lt {id : ArrayId} (before : id < first) : moved first places id = id :=
  if_pos before

theorem ArrayId.moved_of_le
    {id : ArrayId}
    (behind : first ≤ id) :
    moved first places id = id + places :=
  if_neg (Nat.not_lt.mpr behind)

theorem ArrayId.moved_injective : Function.Injective (moved first places) := by
  intro id other same
  rcases Nat.lt_or_ge id first with before | behind <;>
    rcases Nat.lt_or_ge other first with otherBefore | otherBehind
  · rwa [moved_of_lt before, moved_of_lt otherBefore] at same
  · rw [moved_of_lt before, moved_of_le otherBehind] at same
    exact absurd (same ▸ before) (Nat.not_lt.mpr (Nat.le_add_right_of_le otherBehind))
  · rw [moved_of_le behind, moved_of_lt otherBefore] at same
    exact absurd (same ▸ otherBefore) (Nat.not_lt.mpr (Nat.le_add_right_of_le behind))
  · rw [moved_of_le behind, moved_of_le otherBehind] at same
    exact Nat.add_right_cancel same

namespace Value

theorem moved_of_isBefore {value : Value} (before : value.IsBefore first) :
    value.moved first places = value := by
  cases value with
  | array id => exact congrArg array (ArrayId.moved_of_lt before)
  | _ => rfl

@[simp] theorem isTruthy_moved (value : Value) :
    (value.moved first places).isTruthy = value.isTruthy := by
  cases value <;> rfl

@[simp] theorem same_moved (left right : Value) :
    (left.moved first places).same (right.moved first places) = left.same right := by
  cases left with
  | array id =>
      cases right with
      | array other =>
          simp only [moved, same_array]
          exact Bool.eq_iff_iff.mpr (by simp [ArrayId.moved_injective.eq_iff])
      | _ => rfl
  | _ => cases right <;> rfl

end Value
end Values

/-! ## Stores -/

namespace Store

/-- Every array that is bound to a name or stands in an array is in the store. -/
structure Closed (store : Store) : Prop where
  names : ∀ frame name value, (store.bindings frame).find? name = some value →
    value.IsBefore store.arrays.size
  elements : ∀ id, ∀ item ∈ store.elements id, item.IsBefore store.arrays.size

/-- A store without values is closed. -/
theorem closed_fresh : fresh.Closed where
  names frame name value found := by
    have empty : fresh.bindings frame = [] := by
      cases frame <;> rfl
    rw [empty] at found
    cases found
  elements _ _ member := nomatch member

/-- What is looked up is in the store. -/
theorem Closed.isBefore_of_lookup
    {store : Store}
    (closed : store.Closed)
    {scope : Scope}
    {name : String}
    {value : Value}
    (found : store.lookup scope name = some value) :
    value.IsBefore store.arrays.size := by
  obtain ⟨frame, -, bound⟩ := List.exists_of_findSome?_eq_some found
  exact closed.names frame name value bound

/-- The other store differs in nothing but the numbers of its arrays: those from the first one
on have moved some places up. -/
structure Renumbers (first places : Nat) (store other : Store) : Prop where
  frames : other.frames = store.frames
  callables : other.callables = store.callables
  elements (id : ArrayId) : other.elements (id.moved first places) =
    (store.elements id).map (Value.moved first places)

namespace Renumbers

variable {first places : Nat} {store other : Store}

theorem textWithin_moved
    (renumbers : Renumbers first places store other)
    (levels : Nat)
    (opened : List ArrayId)
    (value : Value) :
    other.textWithin levels (opened.map (ArrayId.moved first places)) (value.moved first places) =
      store.textWithin levels opened value := by
  have callable? (id : CallableId) : other.callable? id = store.callable? id := by
    rw [Store.callable?, renumbers.callables, Store.callable?]
  induction levels generalizing opened value with
  | zero =>
      cases value with
      | callable id => simp only [Value.moved, textWithin, callable?]
      | bool value => cases value <;> simp only [Value.moved, textWithin]
      | _ => simp only [Value.moved, textWithin]
  | succ levels inductionHypothesis =>
      cases value with
      | callable id => simp only [Value.moved, textWithin, callable?]
      | array id =>
          have isOpen : id.moved first places ∈ opened.map (ArrayId.moved first places) ↔
              id ∈ opened := List.mem_map_of_injective ArrayId.moved_injective
          simp only [Value.moved, textWithin, atLevel_eq, isOpen, renumbers.elements,
            Array.toList_map, List.map_map]
          have items : (store.elements id).toList.map (other.textWithin levels
                (id.moved first places :: opened.map (ArrayId.moved first places)) ∘
                  Value.moved first places) =
              (store.elements id).toList.map (store.textWithin levels (id :: opened)) :=
            List.map_congr_left fun item _ => inductionHypothesis (id :: opened) item
          rw [items]
      | bool value => cases value <;> simp only [Value.moved, textWithin]
      | _ => simp only [Value.moved, textWithin]

/-- A value has the same text. -/
theorem text_moved
    (renumbers : Renumbers first places store other)
    (value : Value) :
    other.text (value.moved first places) = store.text value := by
  let levels := max store.arrays.size other.arrays.size + 1
  have enough : store.arrays.size < levels := by omega
  have otherEnough : other.arrays.size < levels := by omega
  rw [← textWithin_eq_text enough, ← textWithin_eq_text otherEnough]
  exact renumbers.textWithin_moved levels [] value

end Renumbers
end Store
end Scripting
