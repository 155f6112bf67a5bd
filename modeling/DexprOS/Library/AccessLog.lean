import DexprOS.Library.WordMemory
import Mathlib.Data.Set.Basic

/-!
# Memories that record their accesses

A byte memory with the width and the address of every load and store made in it, for
questions about the accesses of a program and not about its bytes.

Main facts:
* `AccessLog.mem_fillUp_iff`: the stores of filling unit by unit;
* `AccessLog.Adds.trans`, `AccessLog.Adds.between`: accesses of a program are collected;
* `AccessLog.Adds.aligned_iff`: those of more than a byte decide about the alignment.
-/

namespace DexprOS
namespace ByteWords

open ByteCopy

section AccessLog

/-- A memory and the accesses made so far, each a width and an address. -/
structure AccessLog where
  mem : Memory
  accesses : List (Nat × Nat)

namespace AccessLog

/-- A memory without accesses. -/
def fresh (mem : Memory) : AccessLog :=
  ⟨mem, []⟩

/-- Every access is at a multiple of its width. -/
def Aligned (log : AccessLog) : Prop :=
  ∀ x ∈ log.accesses, x.2 % x.1 = 0

instance : WordMemory AccessLog where
  load w a log := (wordAt log.mem w a, ⟨log.mem, (w, a) :: log.accesses⟩)
  store w a value log := ⟨storeBytes w a value log.mem, (w, a) :: log.accesses⟩

instance : UnitMemory AccessLog where
  copyUnit w dst src log :=
    ⟨ByteCopy.copyUnit w dst src log.mem, (w, dst) :: (w, src) :: log.accesses⟩

theorem load_eq (w a : Nat) (log : AccessLog) :
    WordMemory.load w a log = (wordAt log.mem w a, ⟨log.mem, (w, a) :: log.accesses⟩) :=
  rfl

theorem mem_store_iff
    {w a value : Nat} {log : AccessLog} {x : Nat × Nat} :
    x ∈ (WordMemory.store w a value log).accesses ↔ x = (w, a) ∨ x ∈ log.accesses :=
  List.mem_cons

theorem mem_copyUnit_iff
    {w dst src : Nat} {log : AccessLog} {x : Nat × Nat} :
    x ∈ (UnitMemory.copyUnit w dst src log).accesses ↔
      x = (w, dst) ∨ x = (w, src) ∨ x ∈ log.accesses := by
  have h : (UnitMemory.copyUnit w dst src log).accesses =
      (w, dst) :: (w, src) :: log.accesses := rfl
  rw [h, List.mem_cons, List.mem_cons]

/-- Filling unit by unit stores each of the units. -/
theorem mem_fillUp_iff
    {w value : Nat} {x : Nat × Nat} (n : Nat) :
    ∀ {a : Nat} {log : AccessLog},
      x ∈ (fillUp w value n a log).accesses ↔
        x ∈ log.accesses ∨ ∃ i, i < n ∧ x = (w, a + w * i) := by
  induction n with
  | zero =>
      intro a log
      simp [fillUp]
  | succ n ih =>
      intro a log
      rw [fillUp, ih, mem_store_iff]
      constructor
      · rintro ((rfl | hbefore) | ⟨i, hi, rfl⟩)
        · exact Or.inr ⟨0, by omega, by simp⟩
        · exact Or.inl hbefore
        · exact Or.inr ⟨i + 1, by omega, by rw [Nat.mul_succ, Nat.add_assoc, Nat.add_comm w]⟩
      · rintro (hbefore | ⟨i, hi, rfl⟩)
        · exact Or.inl (Or.inr hbefore)
        · cases i with
          | zero => exact Or.inl (Or.inl (by simp))
          | succ i =>
              exact Or.inr ⟨i, by omega, by rw [Nat.mul_succ, Nat.add_assoc, Nat.add_comm w]⟩

/-- From `log` to `log'` the accesses `made` have been added, and any of single bytes. -/
structure Adds (made : Set (Nat × Nat)) (log log' : AccessLog) : Prop where
  kept : ∀ x ∈ log.accesses, x ∈ log'.accesses
  added : ∀ x ∈ made, x ∈ log'.accesses
  only : ∀ x ∈ log'.accesses, x ∈ log.accesses ∨ x ∈ made ∨ x.1 = 1

variable {made more : Set (Nat × Nat)} {log log' log'' : AccessLog}

theorem adds_refl (log : AccessLog) :
    Adds ∅ log log where
  kept := fun _ hx => hx
  added := fun _ hx => absurd hx (Set.notMem_empty _)
  only := fun _ hx => Or.inl hx

theorem Adds.trans
    (h : Adds made log log') (h' : Adds more log' log'') :
    Adds (made ∪ more) log log'' where
  kept := fun x hx => h'.kept x (h.kept x hx)
  added := by
    rintro x (hx | hx)
    · exact h'.kept x (h.added x hx)
    · exact h'.added x hx
  only := by
    intro x hx
    rcases h'.only x hx with hbefore | hmore | hbyte
    · rcases h.only x hbefore with hlog | hmade | hbyte
      · exact Or.inl hlog
      · exact Or.inr (Or.inl (Or.inl hmade))
      · exact Or.inr (Or.inr hbyte)
    · exact Or.inr (Or.inl (Or.inr hmore))
    · exact Or.inr (Or.inr hbyte)

/-- Accesses of single bytes need not be told apart. -/
theorem Adds.of_bytes
    (h : Adds made log log') (hbytes : ∀ x ∈ made, x.1 = 1) :
    Adds ∅ log log' where
  kept := h.kept
  added := fun _ hx => absurd hx (Set.notMem_empty _)
  only := by
    intro x hx
    rcases h.only x hx with hlog | hmade | hbyte
    · exact Or.inl hlog
    · exact Or.inr (Or.inr (hbytes x hmade))
    · exact Or.inr (Or.inr hbyte)

/-- Bytes before and after do not matter. -/
theorem Adds.between
    {log₁ log₂ log₃ log₄ : AccessLog}
    (hbefore : Adds ∅ log₁ log₂) (h : Adds made log₂ log₃) (hafter : Adds ∅ log₃ log₄) :
    Adds made log₁ log₄ := by
  have hall := (hbefore.trans h).trans hafter
  rwa [Set.empty_union, Set.union_empty] at hall

/-- A byte is always aligned, so the other accesses decide. -/
theorem Adds.aligned_iff
    {mem : Memory}
    (h : Adds made (fresh mem) log) :
    log.Aligned ↔ ∀ x ∈ made, x.2 % x.1 = 0 := by
  constructor
  · intro haligned x hx
    exact haligned x (h.added x hx)
  · intro hmade x hx
    rcases h.only x hx with hnone | hx | hbyte
    · exact absurd hnone List.not_mem_nil
    · exact hmade x hx
    · rw [hbyte]
      exact Nat.mod_one x.2

end AccessLog

end AccessLog

end ByteWords
end DexprOS
