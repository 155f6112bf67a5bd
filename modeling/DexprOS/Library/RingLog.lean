import Mathlib.Data.List.Basic
import Mathlib.Logic.Function.Basic
import Mathlib.Tactic.Common

/-!
# Ring buffers as bounded logs

A ring of `n` cells with a first and an end index holds the cells from the first up to
the end, `n - 1` of them at most.  Pushing moves the end and, in a full ring, the first
index with it; popping moves the end back.

Main facts:
* `contents_push`, `contents_push_full`, `contents_pop`: what the operations do to the
  contents;
* `indices_append`: a third index inside of the window splits what is walked over;
* `distance_push`, `distance_pop`: how far two indices are apart afterwards;
* `between_push`, `between_pop`: when a third index stays between the two.
-/

namespace DexprOS
namespace Ring

universe u

variable {α : Type u}

section Indices

/-- The index behind this one. -/
def next (n i : Nat) : Nat :=
  (i + 1) % n

/-- The index before this one. -/
def prev (n i : Nat) : Nat :=
  if i = 0 then n - 1 else i - 1

/-- Number of steps from `a` to `b`. -/
def distance (n a b : Nat) : Nat :=
  (b + n - a) % n

theorem next_eq
    {n i : Nat}
    (hi : i < n) :
    next n i = if i + 1 = n then 0 else i + 1 := by
  unfold next
  split
  · rename_i h
    rw [h, Nat.mod_self]
  · rw [Nat.mod_eq_of_lt (by omega)]

theorem next_lt
    {n i : Nat}
    (hi : i < n) :
    next n i < n :=
  Nat.mod_lt _ (by omega)

theorem prev_lt
    {n i : Nat}
    (hi : i < n) :
    prev n i < n := by
  unfold prev
  split <;> omega

theorem distance_eq
    {n a b : Nat}
    (ha : a < n) (hb : b < n) :
    distance n a b = if a ≤ b then b - a else b + n - a := by
  unfold distance
  split
  · rw [show b + n - a = (b - a) + n by omega, Nat.add_mod_right, Nat.mod_eq_of_lt (by omega)]
  · rw [Nat.mod_eq_of_lt (by omega)]

theorem distance_lt
    {n a b : Nat}
    (hb : b < n) :
    distance n a b < n :=
  Nat.mod_lt _ (by omega)

theorem distance_self
    {n a : Nat}
    (ha : a < n) :
    distance n a a = 0 := by
  rw [distance_eq ha ha]
  simp

theorem distance_eq_zero
    {n a b : Nat}
    (ha : a < n) (hb : b < n) :
    distance n a b = 0 ↔ a = b := by
  rw [distance_eq ha hb]
  split <;> omega

/-- The end meets the first index exactly when the ring is full. -/
theorem next_eq_iff
    {n a b : Nat}
    (ha : a < n) (hb : b < n) :
    next n b = a ↔ distance n a b + 1 = n := by
  rw [next_eq hb, distance_eq ha hb]
  split <;> split <;> omega

/-- A full ring is not empty. -/
theorem ne_of_full
    {n a b : Nat}
    (hn : 2 ≤ n) (ha : a < n) (hb : b < n) (hfull : next n b = a) :
    a ≠ b := by
  intro h
  have hlen := (next_eq_iff ha hb).mp hfull
  have := (distance_eq_zero ha hb).mpr h
  omega

theorem distance_push
    {n a b : Nat}
    (ha : a < n) (hb : b < n) (hroom : distance n a b + 1 < n) :
    distance n a (next n b) = distance n a b + 1 := by
  rw [distance_eq ha hb] at hroom ⊢
  rw [distance_eq ha (next_lt hb), next_eq hb]
  repeat' split
  all_goals first | omega | (split at hroom <;> omega)

theorem distance_next
    {n a b : Nat}
    (ha : a < n) (hb : b < n) (hne : a ≠ b) :
    distance n (next n a) b + 1 = distance n a b := by
  rw [distance_eq ha hb, distance_eq (next_lt ha) hb, next_eq ha]
  repeat' split
  all_goals omega

theorem distance_pop
    {n a b : Nat}
    (ha : a < n) (hb : b < n) (hne : a ≠ b) :
    distance n a (prev n b) + 1 = distance n a b := by
  rw [distance_eq ha hb, distance_eq ha (prev_lt hb), prev]
  repeat' split
  all_goals omega

/-- Walking the distance from `a` leads to `b`. -/
theorem add_distance
    {n a b : Nat}
    (ha : a < n) (hb : b < n) :
    (a + distance n a b) % n = b := by
  rw [distance_eq ha hb]
  split
  · rw [show a + (b - a) = b by omega, Nat.mod_eq_of_lt hb]
  · rw [show a + (b + n - a) = b + n by omega, Nat.add_mod_right, Nat.mod_eq_of_lt hb]

/-- An index that lies so many steps behind `a`. -/
theorem distance_add_mod
    {n a k : Nat}
    (ha : a < n) (hk : k < n) :
    distance n a ((a + k) % n) = k := by
  rw [distance_eq ha (Nat.mod_lt _ (by omega))]
  by_cases hwrap : a + k < n
  · rw [Nat.mod_eq_of_lt hwrap, if_pos (by omega)]
    omega
  · rw [Nat.mod_eq_sub_mod (by omega), Nat.mod_eq_of_lt (by omega), if_neg (by omega)]
    omega

/-- Steps add up as long as the middle index lies on the way. -/
theorem distance_add
    {n a m b : Nat}
    (ha : a < n) (hm : m < n) (hb : b < n) (hle : distance n a m ≤ distance n a b) :
    distance n a m + distance n m b = distance n a b := by
  rw [distance_eq ha hm, distance_eq ha hb] at *
  rw [distance_eq hm hb]
  repeat' split at hle
  all_goals repeat' split
  all_goals omega

end Indices

section Contents

/-- The indices that a loop from `a` to `b` walks over. -/
def indices (n a b : Nat) : List Nat :=
  (List.range (distance n a b)).map fun k => (a + k) % n

/-- The cells from `a` up to `b`. -/
def contents (n : Nat) (cells : Nat → α) (a b : Nat) : List α :=
  (indices n a b).map cells

@[simp] theorem length_indices
    (n a b : Nat) :
    (indices n a b).length = distance n a b := by
  simp [indices]

@[simp] theorem length_contents
    (n : Nat) (cells : Nat → α) (a b : Nat) :
    (contents n cells a b).length = distance n a b := by
  simp [contents]

theorem indices_self
    {n a : Nat}
    (ha : a < n) :
    indices n a a = [] := by
  simp [indices, distance_self ha]

theorem indices_lt
    {n a b i : Nat}
    (hb : b < n) (hi : i ∈ indices n a b) :
    i < n := by
  obtain ⟨k, -, rfl⟩ := List.mem_map.mp hi
  exact Nat.mod_lt _ (by omega)

/-- A walk starts at `a`. -/
theorem indices_cons
    {n a b : Nat}
    (ha : a < n) (hb : b < n) (hne : a ≠ b) :
    indices n a b = a :: indices n (next n a) b := by
  have hdistance := distance_next ha hb hne
  rw [indices, ← hdistance, List.range_succ_eq_map, List.map_cons, List.map_map]
  congr 1
  · exact Nat.mod_eq_of_lt ha
  · refine List.map_congr_left fun k _ => ?_
    simp only [Function.comp_apply, Nat.succ_eq_add_one, next, Nat.mod_add_mod]
    rw [show a + (k + 1) = a + 1 + k by omega]

/-- A walk ends before `b`. -/
theorem indices_concat
    {n a b : Nat}
    (ha : a < n) (hb : b < n) (hne : a ≠ b) :
    indices n a b = indices n a (prev n b) ++ [prev n b] := by
  have hdistance := distance_pop ha hb hne
  rw [indices, ← hdistance, List.range_succ, List.map_append, List.map_singleton,
    add_distance ha (prev_lt hb)]
  rfl

/-- A third index on the way splits the walk. -/
theorem indices_append
    {n a m b : Nat}
    (ha : a < n) (hm : m < n) (hb : b < n) (hle : distance n a m ≤ distance n a b) :
    indices n a b = indices n a m ++ indices n m b := by
  have hadd := distance_add ha hm hb hle
  rw [indices, ← hadd, List.range_add, List.map_append, List.map_map]
  congr 1
  refine List.map_congr_left fun k _ => ?_
  show (a + (distance n a m + k)) % n = (m + k) % n
  rw [← Nat.add_assoc, Nat.add_mod, add_distance ha hm, Nat.add_mod m k, Nat.mod_eq_of_lt hm]

/-- A walk that starts later walks over the last indices. -/
theorem indices_drop
    {n a b k : Nat}
    (ha : a < n) (hb : b < n) (hk : k ≤ distance n a b) :
    (indices n a b).drop k = indices n ((a + k) % n) b := by
  have hmid := distance_add_mod ha (Nat.lt_of_le_of_lt hk (distance_lt hb))
  have hsplit := indices_append ha (Nat.mod_lt (a + k) (by omega)) hb (by rw [hmid]; exact hk)
  rw [hsplit]
  exact List.drop_left' ((length_indices n a _).trans hmid)

/-- The end is not walked over. -/
theorem end_not_mem_indices
    {n a b : Nat}
    (ha : a < n) (hb : b < n) :
    b ∉ indices n a b := by
  intro hmem
  obtain ⟨k, hk, hkb⟩ := List.mem_map.mp hmem
  have hlt := List.mem_range.mp hk
  have hdistance := distance_lt (n := n) (a := a) hb
  rw [distance_eq ha hb] at hlt hdistance
  by_cases hwrap : a + k < n
  · rw [Nat.mod_eq_of_lt hwrap] at hkb
    split at hlt <;> omega
  · rw [show a + k = (a + k - n) + n by omega, Nat.add_mod_right,
      Nat.mod_eq_of_lt (by split at hlt <;> omega)] at hkb
    split at hlt <;> omega

/-- Storing at the end leaves the contents alone. -/
theorem contents_update_end
    {n a b : Nat} {cells : Nat → α} {c : α}
    (ha : a < n) (hb : b < n) :
    contents n (Function.update cells b c) a b = contents n cells a b := by
  refine List.map_congr_left fun i hi => Function.update_of_ne ?_ _ _
  rintro rfl
  exact end_not_mem_indices ha hb hi

/-- Pushing into a ring with room appends. -/
theorem contents_push
    {n a b : Nat} {cells : Nat → α} {c : α}
    (ha : a < n) (hb : b < n) (hroom : distance n a b + 1 < n) :
    contents n (Function.update cells b c) a (next n b) = contents n cells a b ++ [c] := by
  have hpush := distance_push ha hb hroom
  have hne : a ≠ next n b := by
    intro h
    have := (next_eq_iff ha hb).mp h.symm
    omega
  have hprev : prev n (next n b) = b := by
    rw [prev, next_eq hb]
    repeat' split
    all_goals omega
  rw [contents, indices_concat ha (next_lt hb) hne, hprev, List.map_append]
  congr 1
  · exact contents_update_end ha hb
  · simp

theorem contents_cons
    {n a b : Nat} {cells : Nat → α}
    (ha : a < n) (hb : b < n) (hne : a ≠ b) :
    contents n cells a b = cells a :: contents n cells (next n a) b := by
  rw [contents, indices_cons ha hb hne]
  rfl

/-- Pushing into a full ring drops the oldest cell. -/
theorem contents_push_full
    {n a b : Nat} {cells : Nat → α} {c : α}
    (hn : 2 ≤ n) (ha : a < n) (hb : b < n) (hfull : next n b = a) :
    contents n (Function.update cells b c) (next n a) (next n b) =
      (contents n cells a b).tail ++ [c] := by
  have hdistance := (next_eq_iff ha hb).mp hfull
  have hne := ne_of_full hn ha hb hfull
  have hnext := distance_next ha hb hne
  rw [contents_push (next_lt ha) hb (by omega), contents_cons ha hb hne, List.tail_cons]

/-- Popping drops the newest cell. -/
theorem contents_pop
    {n a b : Nat} {cells : Nat → α}
    (ha : a < n) (hb : b < n) (hne : a ≠ b) :
    contents n cells a (prev n b) = (contents n cells a b).dropLast := by
  rw [contents, contents, indices_concat ha hb hne, List.map_append, List.map_singleton,
    List.dropLast_concat]

end Contents

section Log

/-- The reference: a log that keeps its newest `capacity` elements. -/
def append (capacity : Nat) (log : List α) (c : α) : List α :=
  (log ++ [c]).drop (log.length + 1 - capacity)

/-- What was pushed last stays at the end of the log, as long as it fits. -/
theorem suffix_append
    {capacity : Nat} {log recent : List α}
    (hrecent : recent <:+ log) (hfits : recent.length < capacity) (c : α) :
    recent ++ [c] <:+ append capacity log c := by
  obtain ⟨older, rfl⟩ := hrecent
  have hdrop : (older ++ recent).length + 1 - capacity ≤ older.length := by
    rw [List.length_append]
    omega
  unfold append
  rw [List.append_assoc, List.drop_append_of_le_length hdrop]
  exact List.suffix_append _ _

theorem suffix_foldl_append
    {capacity : Nat} {log recent : List α} (cs : List α)
    (hrecent : recent <:+ log) (hfits : recent.length + cs.length ≤ capacity) :
    recent ++ cs <:+ cs.foldl (append capacity) log := by
  induction cs generalizing log recent with
  | nil =>
      rwa [List.append_nil]
  | cons c cs ih =>
      rw [List.length_cons] at hfits
      have hstep := suffix_append hrecent (show recent.length < capacity by omega) c
      have hrest := ih hstep (by rw [List.length_append, List.length_singleton]; omega)
      rwa [List.append_assoc, List.singleton_append] at hrest

/-- Pushing, as the ring does it, appends to the log. -/
theorem contents_append
    {n a b : Nat} {cells : Nat → α} {c : α}
    (hn : 2 ≤ n) (ha : a < n) (hb : b < n) :
    contents n (Function.update cells b c) (if next n b = a then next n a else a) (next n b) =
      append (n - 1) (contents n cells a b) c := by
  have hlt := distance_lt (n := n) (a := a) hb
  unfold append
  rw [length_contents]
  by_cases hfull : next n b = a
  · have hdistance := (next_eq_iff ha hb).mp hfull
    have hne := ne_of_full hn ha hb hfull
    rw [if_pos hfull, contents_push_full hn ha hb hfull, contents_cons ha hb hne,
      show distance n a b + 1 - (n - 1) = 1 by omega]
    rfl
  · have hroom : distance n a b + 1 < n := by
      have := mt (next_eq_iff ha hb).mpr hfull
      omega
    rw [if_neg hfull, contents_push ha hb hroom,
      show distance n a b + 1 - (n - 1) = 0 by omega, List.drop_zero]

end Log

section Window

/-- `i` lies on the way from `a` to `b`, the two included. -/
def Between (n a i b : Nat) : Prop :=
  distance n a i ≤ distance n a b

instance
    (n a i b : Nat) :
    Decidable (Between n a i b) :=
  inferInstanceAs (Decidable (_ ≤ _))

theorem between_end
    (n a b : Nat) :
    Between n a b b :=
  Nat.le_refl _

/-- The walk from an index on the way is the last part of the whole walk. -/
theorem indices_suffix
    {n a i b : Nat}
    (ha : a < n) (hi : i < n) (hb : b < n) (hbetween : Between n a i b) :
    indices n i b <:+ indices n a b :=
  ⟨indices n a i, (indices_append ha hi hb hbetween).symm⟩

theorem between_of_mem_indices
    {n a i b : Nat}
    (ha : a < n) (hi : i ∈ indices n a b) :
    Between n a i b := by
  obtain ⟨k, hk, rfl⟩ := List.mem_map.mp hi
  have hlt := List.mem_range.mp hk
  have hdistance : distance n a b < n := Nat.mod_lt _ (by omega)
  unfold Between
  rw [distance_eq ha (Nat.mod_lt _ (by omega))]
  by_cases hwrap : a + k < n
  · rw [Nat.mod_eq_of_lt hwrap]
    split <;> omega
  · rw [show a + k = (a + k - n) + n by omega, Nat.add_mod_right, Nat.mod_eq_of_lt (by omega)]
    split <;> omega

/-- Pushing moves an index out of the way when the end runs into it. -/
theorem between_push
    {n a i b : Nat}
    (hn : 2 ≤ n) (ha : a < n) (hi : i < n) (hb : b < n) (hbetween : Between n a i b) :
    Between n (if next n b = a then next n a else a) (if next n b = i then next n i else i)
      (next n b) := by
  unfold Between at *
  by_cases hfull : next n b = a
  · have hlen := (next_eq_iff ha hb).mp hfull
    have hstart := distance_next ha hb (ne_of_full hn ha hb hfull)
    have hnext := distance_push (next_lt ha) hb (by omega)
    rw [if_pos hfull, hnext]
    split
    · rename_i h
      rw [← h, hfull, distance_self (next_lt ha)]
      exact Nat.zero_le _
    · rename_i h
      have hindex := distance_next ha hi (hfull ▸ h)
      omega
  · have hroom : distance n a b + 1 < n := by
      have := mt (next_eq_iff ha hb).mpr hfull
      have := distance_lt (n := n) (a := a) hb
      omega
    have hpush := distance_push ha hb hroom
    have hne : next n b ≠ i := by
      intro h
      rw [← h, hpush] at hbetween
      omega
    rw [if_neg hfull, if_neg hne, hpush]
    omega

theorem between_pop
    {n a i b : Nat}
    (ha : a < n) (hi : i < n) (hb : b < n) (hne : a ≠ b) (hib : i ≠ b)
    (hbetween : Between n a i b) :
    Between n a i (prev n b) := by
  have hpop := distance_pop ha hb hne
  have hdistance : distance n a i ≠ distance n a b := by
    intro h
    have hadd := add_distance ha hi
    rw [h, add_distance ha hb] at hadd
    exact hib hadd.symm
  unfold Between at *
  omega

/-- Popping the element that an index stands behind leaves the index outside. -/
theorem not_between_pop
    {n a b : Nat}
    (ha : a < n) (hb : b < n) (hne : a ≠ b) :
    ¬ Between n a b (prev n b) := by
  have hpop := distance_pop ha hb hne
  unfold Between
  omega

end Window

end Ring
end DexprOS
