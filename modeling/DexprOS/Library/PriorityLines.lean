import Mathlib.Data.Fintype.Card
import Mathlib.Logic.Equiv.Fin.Basic
import Mathlib.Order.Fin.Basic
import Mathlib.Tactic.Common

/-!
# Lines with priorities

What an interrupt controller keeps for each of its lines: whether it is masked, whether it
requests something, and whether it is being served.  Lower lines come first, and a line that is
being served holds back itself and the higher ones.

Main facts:
* `pending_eq_some_iff`, `exists_pending`: the line that comes next;
* `inService_finish_take`: finishing undoes taking.
-/

namespace DexprOS
namespace PriorityLines

section Lines

variable {n : Nat}

structure Lines (n : Nat) where
  mask : Fin n → Bool
  requests : Fin n → Bool
  inService : Fin n → Bool

/-- Nothing from this line down is being served. -/
def Lines.Free (l : Lines n) (k : Fin n) : Prop :=
  ∀ j ≤ k, l.inService j = false

instance (l : Lines n) (k : Fin n) : Decidable (l.Free k) :=
  inferInstanceAs (Decidable (∀ j ≤ k, _))

/-- The line may come next. -/
def Lines.offers (l : Lines n) (k : Fin n) : Bool :=
  l.requests k && !l.mask k && decide (l.Free k)

/-- The line that comes next. -/
def Lines.pending (l : Lines n) : Option (Fin n) :=
  Fin.find? l.offers

/-- The line requests something, or it does not any more. -/
def Lines.setRequest (k : Fin n) (b : Bool) (l : Lines n) : Lines n :=
  { l with requests := Function.update l.requests k b }

/-- The line is served from now on, and its request is taken back. -/
def Lines.take (k : Fin n) (l : Lines n) : Lines n :=
  { l with
    requests := Function.update l.requests k false
    inService := Function.update l.inService k true }

/-- The first line that is being served is not served any more. -/
def Lines.finish (l : Lines n) : Lines n :=
  match Fin.find? l.inService with
  | some k => { l with inService := Function.update l.inService k false }
  | none => l

/-- The lines that request something. -/
def Lines.requested (l : Lines n) : Finset (Fin n) :=
  Finset.univ.filter fun k => l.requests k = true

variable {l l' : Lines n} {k : Fin n}

theorem offers_iff :
    l.offers k = true ↔ l.requests k = true ∧ l.mask k = false ∧ l.Free k := by
  simp [Lines.offers, and_assoc]

theorem pending_eq_some_iff :
    l.pending = some k ↔ l.offers k = true ∧ ∀ j < k, l.offers j = false := by
  simp [Lines.pending]

/-- A line that may come next does, or one that comes before it. -/
theorem exists_pending
    (hk : l.offers k = true) :
    ∃ j ≤ k, l.pending = some j := by
  cases hpending : l.pending with
  | none =>
      rw [Lines.pending, Fin.find?_eq_none_iff] at hpending
      rw [hpending k] at hk
      cases hk
  | some j =>
      refine ⟨j, ?_, rfl⟩
      by_contra hlt
      have hnot := (pending_eq_some_iff.mp hpending).2 k (not_le.mp hlt)
      rw [hnot] at hk
      cases hk

@[simp]
theorem mask_finish
    (l : Lines n) :
    l.finish.mask = l.mask := by
  unfold Lines.finish
  split <;> rfl

@[simp]
theorem requests_finish
    (l : Lines n) :
    l.finish.requests = l.requests := by
  unfold Lines.finish
  split <;> rfl

@[simp]
theorem requests_take
    (k : Fin n) (l : Lines n) :
    (l.take k).requests = Function.update l.requests k false :=
  rfl

@[simp]
theorem inService_take
    (k : Fin n) (l : Lines n) :
    (l.take k).inService = Function.update l.inService k true :=
  rfl

@[simp]
theorem requests_setRequest
    (k : Fin n) (b : Bool) (l : Lines n) :
    (l.setRequest k b).requests = Function.update l.requests k b :=
  rfl

theorem mem_requested
    {j : Fin n} :
    j ∈ l.requested ↔ l.requests j = true := by
  simp [Lines.requested]

/-- Taking a line leaves the other requests. -/
theorem requested_take
    (k : Fin n) (l : Lines n) :
    (l.take k).requested = l.requested.erase k := by
  ext j
  rw [mem_requested, Finset.mem_erase, mem_requested, requests_take]
  by_cases hj : j = k
  · simp [hj]
  · simp [hj]

/-- What finishing does depends on the served lines only. -/
theorem inService_finish_congr
    (h : l.inService = l'.inService) :
    l.finish.inService = l'.finish.inService := by
  unfold Lines.finish
  rw [h]
  split
  · rfl
  · exact h

theorem inService_finish_of_none
    (h : l.inService = fun _ => false) :
    l.finish.inService = fun _ => false := by
  have hnone : Fin.find? l.inService = none := by
    rw [Fin.find?_eq_none_iff]
    exact congrFun h
  simp only [Lines.finish, hnone]
  exact h

/-- Finishing ends the service of the line that has been taken. -/
theorem inService_finish_take
    (hfree : l.Free k) :
    (l.take k).finish.inService = l.inService := by
  have hfirst : Fin.find? (Function.update l.inService k true) = some k := by
    rw [Fin.find?_eq_some_iff]
    refine ⟨Function.update_self k true l.inService, fun j hj => ?_⟩
    rw [Function.update_of_ne hj.ne]
    exact hfree j hj.le
  have hfinish : (l.take k).finish.inService =
      Function.update (Function.update l.inService k true) k false := by
    simp only [Lines.finish, Lines.take, hfirst]
  rw [hfinish, Function.update_idem, ← hfree k le_rfl, Function.update_eq_self]

end Lines

end PriorityLines
end DexprOS
