import Mathlib.Data.List.Basic
import Mathlib.Logic.Function.Basic
import Mathlib.Tactic.Common

/-!
# Arrays filled from the front

An array of unknown content is a function of the index.  Writing a list to its
front overlays the content; appending one element is one array write.

Main facts:
* `overlay_concat`: one more write is one more element of the list;
* `map_range_overlay`: reading the written part back gives the list.
-/

namespace DexprOS
namespace Overlay

universe u

section Overlay

variable {α : Type u}

/-- The content of an array after the list is written to its front. -/
def overlay (written : List α) (before : Nat → α) : Nat → α :=
  fun i => (written[i]?).getD (before i)

@[simp] theorem overlay_nil (before : Nat → α) :
    overlay [] before = before := by
  rfl

/-- Beyond the list the array is unchanged. -/
theorem overlay_of_length_le
    {written : List α} {i : Nat} (h : written.length ≤ i) (before : Nat → α) :
    overlay written before i = before i := by
  simp [overlay, List.getElem?_eq_none h]

theorem overlay_of_lt
    {written : List α} {i : Nat} (h : i < written.length) (before : Nat → α) :
    overlay written before i = written[i] := by
  simp [overlay, List.getElem?_eq_getElem h]

/-- One more write at the end of the written part. -/
theorem overlay_concat (written : List α) (before : Nat → α) (x : α) :
    overlay (written ++ [x]) before =
      Function.update (overlay written before) written.length x := by
  funext i
  rcases Nat.lt_trichotomy i written.length with hlt | rfl | hgt
  · rw [Function.update_of_ne (Nat.ne_of_lt hlt)]
    simp [overlay, List.getElem?_append_left hlt]
  · simp [overlay]
  · rw [Function.update_of_ne (Nat.ne_of_gt hgt),
      overlay_of_length_le (Nat.le_of_lt hgt), overlay_of_length_le (by simp; omega)]

/-- Reading the written part back gives the list. -/
theorem map_range_overlay (written : List α) (before : Nat → α) :
    (List.range written.length).map (overlay written before) = written := by
  refine List.ext_getElem (by simp) (fun i _ hi => ?_)
  simp [overlay_of_lt hi]

end Overlay

end Overlay
end DexprOS
