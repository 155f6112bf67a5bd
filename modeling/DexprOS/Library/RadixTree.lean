import Mathlib.Algebra.BigOperators.Group.Finset.Sigma
import Mathlib.Data.Finset.Sigma
import Mathlib.Order.Interval.Finset.Nat
import Mathlib.Data.Finset.Union
import Mathlib.Tactic.Common

/-!
# Nodes of a radix tree

The leaves of a radix tree are numbers.  The node at level `k` above the leaf `p` has the
index `p / r ^ k`.  The nodes that a set of leaves needs are its cover.

Main facts:
* `mem_cover`, `cover_union`: covers by leaves;
* `cover_succ`: the leaves below one node need that node and the cover below it;
* `card_innerNodes_cover`: the inner nodes of a cover, counted level by level;
* `card_union_Icc`: counting indices that arrive in ascending intervals.
-/

namespace DexprOS
namespace Radix

section Cover

variable {r levels k i p : ℕ} {P Q : Finset ℕ}

/-- The nodes of the lowest levels above a leaf. -/
def path (r levels p : ℕ) : Finset (ℕ × ℕ) :=
  (Finset.range levels).image fun k => (k, p / r ^ k)

/-- The nodes of the lowest levels above some leaves. -/
def cover (r levels : ℕ) (P : Finset ℕ) : Finset (ℕ × ℕ) :=
  P.biUnion (path r levels)

theorem mem_cover :
    (k, i) ∈ cover r levels P ↔ k < levels ∧ ∃ p ∈ P, p / r ^ k = i := by
  simp only [cover, path, Finset.mem_biUnion, Finset.mem_image, Finset.mem_range, Prod.mk.injEq]
  constructor
  · rintro ⟨p, hp, k', hk', rfl, rfl⟩
    exact ⟨hk', p, hp, rfl⟩
  · rintro ⟨hk, p, hp, rfl⟩
    exact ⟨p, hp, k, hk, rfl, rfl⟩

@[simp] theorem cover_empty :
    cover r levels ∅ = ∅ :=
  rfl

theorem cover_union :
    cover r levels (P ∪ Q) = cover r levels P ∪ cover r levels Q := by
  ext ⟨k, i⟩
  simp only [mem_cover, Finset.mem_union, or_and_right, exists_or, and_or_left]

theorem mem_cover_one :
    (k, i) ∈ cover r 1 P ↔ k = 0 ∧ i ∈ P := by
  rw [mem_cover]
  constructor
  · rintro ⟨hk, p, hp, rfl⟩
    obtain rfl : k = 0 := by omega
    exact ⟨rfl, by simpa using hp⟩
  · rintro ⟨rfl, hi⟩
    exact ⟨Nat.zero_lt_one, i, hi, by simp⟩

/-- The leaves below one node need that node and their cover below it. -/
theorem cover_succ
    (hne : P.Nonempty) (hblock : ∀ p ∈ P, p / r ^ levels = i) :
    cover r (levels + 1) P = insert (levels, i) (cover r levels P) := by
  ext ⟨k, j⟩
  rw [Finset.mem_insert, mem_cover, mem_cover, Prod.mk.injEq]
  constructor
  · rintro ⟨hk, p, hp, rfl⟩
    obtain rfl | hlt := Nat.eq_or_lt_of_le (Nat.lt_succ_iff.mp hk)
    · exact .inl ⟨rfl, hblock p hp⟩
    · exact .inr ⟨hlt, p, hp, rfl⟩
  · rintro (⟨rfl, rfl⟩ | ⟨hk, p, hp, rfl⟩)
    · obtain ⟨p, hp⟩ := hne
      exact ⟨Nat.lt_succ_self _, p, hp, hblock p hp⟩
    · exact ⟨Nat.lt_succ_of_lt hk, p, hp, rfl⟩

end Cover

section Inner

variable {r levels : ℕ} {nodes nodes' : Finset (ℕ × ℕ)} {P : Finset ℕ}

/-- The nodes that are not leaves. -/
def innerNodes (nodes : Finset (ℕ × ℕ)) : Finset (ℕ × ℕ) :=
  nodes.filter fun n => 0 < n.1

theorem mem_innerNodes {n : ℕ × ℕ} :
    n ∈ innerNodes nodes ↔ n ∈ nodes ∧ 0 < n.1 :=
  Finset.mem_filter

theorem innerNodes_union :
    innerNodes (nodes ∪ nodes') = innerNodes nodes ∪ innerNodes nodes' :=
  Finset.filter_union _ _ _

theorem innerNodes_mono
    (h : nodes ⊆ nodes') :
    innerNodes nodes ⊆ innerNodes nodes' :=
  Finset.filter_subset_filter _ h

/-- The inner nodes of a cover, counted level by level. -/
theorem card_innerNodes_cover :
    (innerNodes (cover r levels P)).card =
      ∑ k ∈ Finset.Ico 1 levels, (P.image fun p => p / r ^ k).card := by
  have heq : innerNodes (cover r levels P) =
      ((Finset.Ico 1 levels).sigma fun k => P.image fun p => p / r ^ k).image
        fun n => (n.1, n.2) := by
    ext ⟨k, i⟩
    simp only [mem_innerNodes, mem_cover, Finset.mem_image, Finset.mem_sigma, Finset.mem_Ico]
    constructor
    · rintro ⟨⟨hk, p, hp, rfl⟩, hpos⟩
      exact ⟨⟨k, p / r ^ k⟩, ⟨⟨hpos, hk⟩, p, hp, rfl⟩, rfl⟩
    · rintro ⟨⟨k', i'⟩, ⟨⟨hpos, hk⟩, p, hp, hi⟩, heq⟩
      obtain ⟨rfl, rfl⟩ := Prod.mk.injEq _ _ _ _ ▸ heq
      exact ⟨⟨hk, p, hp, hi⟩, hpos⟩
  rw [heq, Finset.card_image_of_injective, Finset.card_sigma]
  rintro ⟨k, i⟩ ⟨k', i'⟩ h
  obtain ⟨rfl, rfl⟩ := Prod.mk.injEq _ _ _ _ ▸ h
  rfl

end Inner

section Intervals

variable {r k p a b first last : ℕ} {U : Finset ℕ}

/-- Indices that arrive in ascending order: an interval that starts at the highest index so
far or above it. -/
theorem card_union_Icc
    (hU : ∀ i ∈ U, i ≤ first) (hle : first ≤ last) :
    (U ∪ Finset.Icc first last).card =
      U.card + (last - first + if first ∈ U then 0 else 1) := by
  have hcard : (Finset.Icc first last).card = last - first + 1 := by
    rw [Nat.card_Icc]
    omega
  have hsum := Finset.card_union_add_card_inter U (Finset.Icc first last)
  split
  · rename_i hfirst
    have hinter : U ∩ Finset.Icc first last = {first} := by
      ext i
      rw [Finset.mem_inter, Finset.mem_Icc, Finset.mem_singleton]
      constructor
      · rintro ⟨hi, hge, -⟩
        exact le_antisymm (hU i hi) hge
      · rintro rfl
        exact ⟨hfirst, le_rfl, hle⟩
    rw [hinter, Finset.card_singleton] at hsum
    omega
  · rename_i hfirst
    have hinter : U ∩ Finset.Icc first last = ∅ := by
      ext i
      rw [Finset.mem_inter, Finset.mem_Icc]
      constructor
      · rintro ⟨hi, hge, -⟩
        exact absurd (le_antisymm (hU i hi) hge ▸ hi) hfirst
      · exact fun hi => absurd hi (Finset.notMem_empty i)
    rw [hinter, Finset.card_empty] at hsum
    omega

/-- The nodes above consecutive leaves are consecutive. -/
theorem image_div_Icc
    (hr : 0 < r) (hab : a ≤ b) :
    (Finset.Icc a b).image (· / r ^ k) = Finset.Icc (a / r ^ k) (b / r ^ k) := by
  have hpos : 0 < r ^ k := Nat.pow_pos hr
  ext i
  rw [Finset.mem_image, Finset.mem_Icc]
  constructor
  · rintro ⟨p, hp, rfl⟩
    rw [Finset.mem_Icc] at hp
    exact ⟨Nat.div_le_div_right hp.1, Nat.div_le_div_right hp.2⟩
  · rintro ⟨hlo, hhi⟩
    obtain rfl | hlt := Nat.eq_or_lt_of_le hlo
    · exact ⟨a, Finset.mem_Icc.mpr ⟨le_rfl, hab⟩, rfl⟩
    · refine ⟨i * r ^ k, Finset.mem_Icc.mpr ⟨?_, ?_⟩, Nat.mul_div_cancel i hpos⟩
      · exact ((Nat.div_lt_iff_lt_mul hpos).mp hlt).le
      · exact (Nat.le_div_iff_mul_le hpos).mp hhi

end Intervals

end Radix
end DexprOS
