import Mathlib.Data.List.Basic
import Mathlib.Logic.Function.Basic
import Mathlib.Tactic.Common

/-!
# Arrays that record the indices used

An array without an end, together with the indices at which it has been read or written.
C code that runs over the end of its array goes on here, and its run can be asked whether
it did.

Main facts:
* `get_put`: what a store changes;
* `touched_put`, `touched_read`, `touched_orAt`: what is recorded;
* `get_foldl_put`, `mem_touched_foldl_put`: storing into the first elements;
* `get_fill`, `mem_touched_fill`: setting them to one value.
-/

namespace DexprOS

universe u

/-- An array and the indices used so far. -/
structure RecordedArray (α : Type u) where
  get : Nat → α
  touched : List Nat

namespace RecordedArray

section RecordedArray

variable {α : Type u} {a : RecordedArray α} {i j n : Nat} {v : α}

/-- An array that has not been used yet. -/
def fresh (content : Nat → α) : RecordedArray α :=
  ⟨content, []⟩

/-- `a[i] = v` -/
def put (a : RecordedArray α) (i : Nat) (v : α) : RecordedArray α :=
  ⟨Function.update a.get i v, i :: a.touched⟩

/-- The array after a read of `a[i]`. -/
def read (a : RecordedArray α) (i : Nat) : RecordedArray α :=
  ⟨a.get, i :: a.touched⟩

/-- A loop that sets the first `n` elements. -/
def fill (a : RecordedArray α) (n : Nat) (v : α) : RecordedArray α :=
  (List.range n).foldl (fun a i => a.put i v) a

/-- All indices used are below `n`. -/
def Within (a : RecordedArray α) (n : Nat) : Prop :=
  ∀ i ∈ a.touched, i < n

@[simp] theorem touched_fresh
    (content : Nat → α) :
    (fresh content).touched = [] :=
  rfl

@[simp] theorem touched_put :
    (a.put i v).touched = i :: a.touched :=
  rfl

@[simp] theorem touched_read :
    (a.read i).touched = i :: a.touched :=
  rfl

theorem get_put :
    (a.put i v).get j = if j = i then v else a.get j :=
  Function.update_apply a.get i v j

@[simp] theorem get_put_self :
    (a.put i v).get i = v := by
  simp [get_put]

theorem get_put_of_ne
    (h : j ≠ i) :
    (a.put i v).get j = a.get j := by
  simp [get_put, h]

/-- Storing into the first `n` elements uses their indices. -/
theorem mem_touched_foldl_put
    (value : Nat → α) (n : Nat) :
    i ∈ ((List.range n).foldl (fun a j => a.put j (value j)) a).touched ↔
      i < n ∨ i ∈ a.touched := by
  induction n with
  | zero => simp
  | succ n ih =>
      rw [List.range_succ, List.foldl_append, List.foldl_cons, List.foldl_nil, touched_put,
        List.mem_cons, ih]
      have hlt : i < n + 1 ↔ i = n ∨ i < n := by omega
      rw [hlt, or_assoc]

/-- Storing into the first `n` elements changes these. -/
theorem get_foldl_put
    (value : Nat → α) (n : Nat) :
    ((List.range n).foldl (fun a j => a.put j (value j)) a).get i =
      if i < n then value i else a.get i := by
  induction n with
  | zero => simp
  | succ n ih =>
      rw [List.range_succ, List.foldl_append, List.foldl_cons, List.foldl_nil]
      by_cases hi : i = n
      · subst hi
        simp
      · rw [get_put_of_ne hi, ih]
        have hiff : i < n + 1 ↔ i < n := by omega
        simp [hiff]

theorem mem_touched_fill :
    i ∈ (a.fill n v).touched ↔ i < n ∨ i ∈ a.touched :=
  mem_touched_foldl_put (fun _ => v) n

theorem get_fill :
    (a.fill n v).get i = if i < n then v else a.get i :=
  get_foldl_put (fun _ => v) n

end RecordedArray

section Words

variable {w : Nat} {a : RecordedArray (BitVec w)} {i j : Nat} {v : BitVec w}

/-- `a[i] |= v` -/
def orAt (a : RecordedArray (BitVec w)) (i : Nat) (v : BitVec w) : RecordedArray (BitVec w) :=
  a.put i (a.get i ||| v)

@[simp] theorem touched_orAt :
    (a.orAt i v).touched = i :: a.touched :=
  rfl

@[simp] theorem get_orAt_self :
    (a.orAt i v).get i = a.get i ||| v :=
  get_put_self

theorem get_orAt_of_ne
    (h : j ≠ i) :
    (a.orAt i v).get j = a.get j :=
  get_put_of_ne h

end Words

end RecordedArray
end DexprOS
