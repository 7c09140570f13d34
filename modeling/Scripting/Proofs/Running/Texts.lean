import Mathlib.Data.List.Perm.Subperm
import Scripting.Value.Text

/-!
# The texts of values

The text of a value depends on the store by its arrays and by how its functions are shown.

An array is written inside others only if it is none of them, so the writing of a value
cannot go deeper than there are arrays, however they hold each other.  The levels that are
allowed for are never used up.

Main statements: `Store.text_congr`, `Store.textWithin_eq_text`.
-/

namespace Scripting
namespace Store

variable {store other : Store}

/-- The text of a value is the same in a store with the same arrays, whose functions are
shown in the same way. -/
theorem textWithin_congr
    (arrays : other.arrays = store.arrays)
    (descriptions : ∀ id, (other.callable? id).map Callable.description =
      (store.callable? id).map Callable.description)
    (levels : Nat)
    (opened : List ArrayId)
    (value : Value) :
    other.textWithin levels opened value = store.textWithin levels opened value := by
  have elements (id : ArrayId) : other.elements id = store.elements id := by
    unfold Store.elements
    rw [arrays]
  induction levels generalizing opened value with
  | zero =>
      cases value with
      | callable id => simp only [textWithin, descriptions]
      | bool value => cases value <;> simp [textWithin]
      | _ => simp [textWithin]
  | succ levels inductionHypothesis =>
      cases value with
      | callable id => simp only [textWithin, descriptions]
      | array id =>
          have items : (store.elements id).toList.map (other.textWithin levels (id :: opened)) =
              (store.elements id).toList.map (store.textWithin levels (id :: opened)) :=
            List.map_congr_left fun item _ => inductionHypothesis _ item
          simp only [textWithin, atLevel_eq, elements, items]
      | bool value => cases value <;> simp [textWithin]
      | _ => simp [textWithin]

theorem text_congr
    (arrays : other.arrays = store.arrays)
    (descriptions : ∀ id, (other.callable? id).map Callable.description =
      (store.callable? id).map Callable.description)
    (value : Value) :
    other.text value = store.text value := by
  unfold text
  rw [arrays]
  exact textWithin_congr arrays descriptions _ [] value

/-- No more arrays can stand inside each other than there are. -/
theorem length_le_of_nodup
    {opened : List ArrayId}
    (distinct : opened.Nodup)
    (stored : ∀ id ∈ opened, id < store.arrays.size) :
    opened.length ≤ store.arrays.size := by
  have inside : opened ⊆ List.range store.arrays.size :=
    fun id member => List.mem_range.mpr (stored id member)
  simpa using (List.subperm_of_subset distinct inside).length_le

/-- With more levels than there are arrays still to be opened, further levels change
nothing. -/
theorem textWithin_of_le
    {levels more : Nat}
    {opened : List ArrayId}
    (distinct : opened.Nodup)
    (stored : ∀ id ∈ opened, id < store.arrays.size)
    (enough : store.arrays.size < levels + opened.length)
    (order : levels ≤ more)
    (value : Value) :
    store.textWithin more opened value = store.textWithin levels opened value := by
  induction levels generalizing more opened value with
  | zero =>
      have few := length_le_of_nodup distinct stored
      omega
  | succ levels inductionHypothesis =>
      obtain ⟨more, rfl⟩ := Nat.exists_eq_add_one.mpr (Nat.zero_lt_of_lt order)
      cases value with
      | array id =>
          simp only [textWithin, atLevel_eq]
          split
          · rfl
          next isNew =>
          -- An array that is not in the store has no elements.
          by_cases isStored : id < store.arrays.size
          · have items : (store.elements id).toList.map (store.textWithin more (id :: opened)) =
                (store.elements id).toList.map (store.textWithin levels (id :: opened)) := by
              refine List.map_congr_left fun item _ => ?_
              exact inductionHypothesis (List.nodup_cons.mpr ⟨isNew, distinct⟩)
                (List.forall_mem_cons.mpr ⟨isStored, stored⟩)
                (by rw [List.length_cons]; omega) (Nat.le_of_succ_le_succ order) item
            rw [items]
          · have empty : store.elements id = #[] := by
              unfold elements
              rw [Array.getElem?_eq_none (Nat.le_of_not_lt isStored)]
              rfl
            rw [empty]
            rfl
      | bool value => cases value <;> simp only [textWithin]
      | _ => simp only [textWithin]

/-- Whatever holds of the arrays, more levels than there are arrays give the text of a
value. -/
theorem textWithin_eq_text
    {levels : Nat}
    (enough : store.arrays.size < levels)
    (value : Value) :
    store.textWithin levels [] value = store.text value := by
  have wide : store.arrays.size < levelsFor store.arrays.size := by
    unfold levelsFor levelsPerStack
    omega
  unfold text
  generalize levelsFor store.arrays.size = others at wide
  have same {fewer more : Nat} (enough : store.arrays.size < fewer) (order : fewer ≤ more) :
      store.textWithin more [] value = store.textWithin fewer [] value :=
    textWithin_of_le .nil (fun _ member => nomatch member) enough order value
  obtain order | order := Nat.le_total levels others
  · exact (same enough order).symm
  · exact same wide order

end Store
end Scripting
