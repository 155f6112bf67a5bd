import Mathlib.Data.List.Induction
import Mathlib.Data.List.Sort
import Mathlib.Tactic.Common

/-!
# Picking the lowest item from an address on

`lowestFrom start m l` is the selection step of a sort that keeps no list of
what it has handled: among the items of `l` that start at or above `m` it picks
the first one with the lowest start.

Main facts:
* `lowestFrom_eq_none_iff`, `lowestFrom_spec`, `lowestFrom_split`: what is picked;
* `exists_ascending_perm`: nonempty disjoint items can be listed in order;
* `lowestFrom_ascending`, `lowestFrom_ascending_end`: on such items, moving from
  the end of one item to the next pick visits them in that order.
-/

namespace DexprOS
namespace LowestFirst

universe u

section LowestFirst

variable {α : Type u} (start : α → Nat)

/-- One look at an item: it replaces the best one so far if it qualifies. -/
def pickLower (m : Nat) (best : Option α) (x : α) : Option α :=
  if m ≤ start x ∧ best.all (fun b => decide (start x < start b)) then
    some x
  else
    best

/-- The first item with the lowest start at or above `m`. -/
def lowestFrom (m : Nat) (l : List α) : Option α :=
  l.foldl (pickLower start m) none

@[simp] theorem lowestFrom_nil (m : Nat) :
    lowestFrom start m [] = none := by
  rfl

theorem lowestFrom_concat (m : Nat) (l : List α) (x : α) :
    lowestFrom start m (l ++ [x]) =
      pickLower start m (lowestFrom start m l) x := by
  simp [lowestFrom]

/-- Nothing is picked exactly when every item starts below `m`. -/
theorem lowestFrom_eq_none_iff (m : Nat) (l : List α) :
    lowestFrom start m l = none ↔ ∀ x, x ∈ l → start x < m := by
  induction l using List.reverseRecOn with
  | nil =>
      simp
  | append_singleton l x ih =>
      rw [lowestFrom_concat, pickLower]
      split_ifs with hx
      · constructor
        · intro h
          simp at h
        · intro h
          have := h x (by simp)
          omega
      · rw [ih]
        constructor
        · intro h y hy
          rcases List.mem_append.mp hy with hy | hy
          · exact h y hy
          · obtain rfl : y = x := by simpa using hy
            rw [(ih.mpr h)] at hx
            simpa using hx
        · intro h y hy
          exact h y (List.mem_append_left [x] hy)

/-- The picked item qualifies and no qualifying item starts lower. -/
theorem lowestFrom_spec
    {m : Nat} {l : List α} {x : α}
    (h : lowestFrom start m l = some x) :
    x ∈ l ∧ m ≤ start x ∧ ∀ y, y ∈ l → m ≤ start y → start x ≤ start y := by
  induction l using List.reverseRecOn generalizing x with
  | nil =>
      simp at h
  | append_singleton l z ih =>
      rw [lowestFrom_concat, pickLower] at h
      split_ifs at h with hz
      · obtain rfl : z = x := by simpa using h
        refine ⟨by simp, hz.1, fun y hy hmy => ?_⟩
        rcases List.mem_append.mp hy with hy | hy
        · cases hbest : lowestFrom start m l with
          | none =>
              have := (lowestFrom_eq_none_iff start m l).mp hbest y hy
              omega
          | some b =>
              have hlow := (ih hbest).2.2 y hy hmy
              have hzb : start z < start b := by simpa [hbest] using hz.2
              omega
        · obtain rfl : y = z := by simpa using hy
          exact Nat.le_refl _
      · obtain ⟨hmem, hm, hlow⟩ := ih h
        refine ⟨List.mem_append_left [z] hmem, hm, fun y hy hmy => ?_⟩
        rcases List.mem_append.mp hy with hy | hy
        · exact hlow y hy hmy
        · obtain rfl : y = z := by simpa using hy
          rw [h] at hz
          simp only [Option.all_some, decide_eq_true_eq, not_and] at hz
          exact Nat.le_of_not_lt (hz hmy)

/-- The picked item is the first of those with its start. -/
theorem lowestFrom_split
    {m : Nat} {l : List α} {x : α}
    (h : lowestFrom start m l = some x) :
    ∃ before after, l = before ++ x :: after ∧
      ∀ y, y ∈ before → m ≤ start y → start x < start y := by
  induction l using List.reverseRecOn generalizing x with
  | nil =>
      simp at h
  | append_singleton l z ih =>
      rw [lowestFrom_concat, pickLower] at h
      split_ifs at h with hz
      · obtain rfl : z = x := by simpa using h
        refine ⟨l, [], rfl, fun y hy hmy => ?_⟩
        cases hbest : lowestFrom start m l with
        | none =>
            have := (lowestFrom_eq_none_iff start m l).mp hbest y hy
            omega
        | some b =>
            have hlow := (lowestFrom_spec start hbest).2.2 y hy hmy
            have hzb : start z < start b := by simpa [hbest] using hz.2
            omega
      · obtain ⟨before, after, rfl, hbefore⟩ := ih h
        exact ⟨before, after ++ [z], by simp, hbefore⟩

/-- Another picked item with the same start comes earlier in the list. -/
theorem mem_before_of_lowestFrom
    {m : Nat} {before after : List α} {x y : α}
    (h : lowestFrom start m (before ++ x :: after) = some y)
    (hm : m ≤ start x) (heq : start y = start x) (hne : y ≠ x) :
    y ∈ before := by
  obtain ⟨before', after', hsplit, hfirst⟩ := lowestFrom_split start h
  have hx : x ∉ before' := fun hx => by
    have := hfirst x hx hm
    omega
  obtain ⟨middle, rfl, htail⟩ | ⟨middle, rfl, htail⟩ := List.append_eq_append_iff.mp hsplit
  · -- the picked item would come after `x`
    cases middle with
    | nil =>
        exact absurd (List.cons.inj htail).1.symm hne
    | cons z middle =>
        obtain ⟨rfl, -⟩ := List.cons.inj htail
        exact absurd (by simp) hx
  · cases middle with
    | nil =>
        exact absurd (List.cons.inj htail).1 hne
    | cons z middle =>
        obtain ⟨rfl, -⟩ := List.cons.inj htail
        simp

/-- An item that starts strictly below all other qualifying ones is picked. -/
theorem lowestFrom_eq_some
    {m : Nat} {l : List α} {x : α}
    (hx : x ∈ l) (hm : m ≤ start x)
    (hlow : ∀ y, y ∈ l → m ≤ start y → start y ≤ start x → y = x) :
    lowestFrom start m l = some x := by
  cases hpick : lowestFrom start m l with
  | none =>
      have := (lowestFrom_eq_none_iff start m l).mp hpick x hx
      omega
  | some y =>
      obtain ⟨hy, hmy, hmin⟩ := lowestFrom_spec start hpick
      rw [hlow y hy hmy (hmin x hx hm)]

/-- The picked item is also picked from any address up to its own start. -/
theorem lowestFrom_of_le
    {m k : Nat} {l : List α} {x : α}
    (h : lowestFrom start m l = some x)
    (hmk : m ≤ k) (hkx : k ≤ start x) :
    lowestFrom start k l = some x := by
  induction l using List.reverseRecOn generalizing x with
  | nil =>
      simp at h
  | append_singleton l z ih =>
      rw [lowestFrom_concat, pickLower] at h ⊢
      split_ifs at h with hz
      · obtain rfl : z = x := by simpa using h
        have hbest : (lowestFrom start k l).all
            (fun b => decide (start z < start b)) = true := by
          cases hpick : lowestFrom start m l with
          | none =>
              have hnone : lowestFrom start k l = none := by
                rw [lowestFrom_eq_none_iff] at hpick ⊢
                exact fun y hy => Nat.lt_of_lt_of_le (hpick y hy) hmk
              simp [hnone]
          | some b =>
              have hzb : start z < start b := by simpa [hpick] using hz.2
              simp [ih hpick (by omega), hzb]
        exact if_pos ⟨hkx, hbest⟩
      · rw [ih h hkx]
        refine if_neg (fun hk => hz ⟨by omega, ?_⟩)
        rw [h]
        exact hk.2

variable (stop : α → Nat)

/-- Nonempty disjoint items can be listed in ascending order. -/
theorem exists_ascending_perm
    {l : List α}
    (hne : ∀ x, x ∈ l → start x < stop x)
    (hdisjoint : l.Pairwise
      (fun a b => stop a ≤ start b ∨ stop b ≤ start a)) :
    ∃ s : List α, s.Perm l ∧ s.Pairwise (fun a b => stop a ≤ start b) := by
  refine ⟨l.mergeSort (fun a b => decide (start a ≤ start b)),
    List.mergeSort_perm l _, ?_⟩
  have hperm := List.mergeSort_perm l (fun a b => decide (start a ≤ start b))
  have hsorted : (l.mergeSort (fun a b => decide (start a ≤ start b))).Pairwise
      (fun a b => decide (start a ≤ start b) = true) := by
    apply List.pairwise_mergeSort
    · intro a b c hab hbc
      simp only [decide_eq_true_eq] at *
      omega
    · intro a b
      simp only [Bool.or_eq_true, decide_eq_true_eq]
      omega
  have hapart := (hperm.pairwise_iff
    (fun {a b} hab => Or.symm hab)).mpr hdisjoint
  refine (hsorted.and hapart).imp_of_mem ?_
  rintro a b _ hb ⟨hle, hab⟩
  have hb' := hne b (hperm.mem_iff.mp hb)
  simp only [decide_eq_true_eq] at hle
  omega

section Ascending

variable {stop}
variable {l done todo : List α}
  (hne : ∀ x, x ∈ l → start x < stop x)
include hne

/-- From an address past all handled items the next item in order is picked. -/
theorem lowestFrom_ascending
    {m : Nat} {x : α}
    (hperm : (done ++ x :: todo).Perm l)
    (hasc : (done ++ x :: todo).Pairwise (fun a b => stop a ≤ start b))
    (hdone : ∀ a, a ∈ done → start a < m)
    (hx : m ≤ start x) :
    lowestFrom start m l = some x := by
  have hmem : x ∈ l := hperm.mem_iff.mp (by simp)
  refine lowestFrom_eq_some start hmem hx (fun y hy hmy hle => ?_)
  have hlater := (List.pairwise_cons.mp (List.pairwise_append.mp hasc).2.1).1
  rcases List.mem_append.mp (hperm.mem_iff.mpr hy) with hy' | hy'
  · have := hdone y hy'
    omega
  · rcases List.mem_cons.mp hy' with rfl | hy'
    · rfl
    · have h₁ := hlater y hy'
      have h₂ := hne x hmem
      omega

omit hne in
/-- Past all items nothing is picked any more. -/
theorem lowestFrom_ascending_end
    {m : Nat}
    (hperm : done.Perm l)
    (hdone : ∀ a, a ∈ done → start a < m) :
    lowestFrom start m l = none :=
  (lowestFrom_eq_none_iff start m l).mpr
    (fun x hx => hdone x (hperm.mem_iff.mpr hx))

end Ascending

end LowestFirst

end LowestFirst
end DexprOS
