import DexprOS.Library.AccessLog
import DexprOS.Kernel.KstdlibMemset

/-!
# Kernel string.c: the accesses of memset and memcpy

`memset` and the forward paths of `memcpy` run on a memory that records its accesses.  All
addresses and counts are covered, also those whose ranges run over the end of the address
space.

Main facts:
* `fillUntil_adds`, `copyForwards_adds`: the accesses of a loop;
* `memset_adds`, `memcpyForwards_adds`: those of the functions;
* `memsetWords_aligned_iff`, `pathUnits_aligned_iff`: when they are aligned.
-/

namespace DexprOS
namespace KstdlibString

open Fuel ByteCopy ByteWords AccessLog

section Fill

/-- A loop whose end wraps is left at once. -/
theorem fillUntil_wraps
    {w n dest fuel : Nat} (value : Nat) (log : AccessLog)
    (hdest : dest < 2 ^ 64) (hlength : w * n < 2 ^ 64) (hwrap : 2 ^ 64 ≤ dest + w * n)
    (hfuel : 0 < fuel) :
    fillUntil w dest (u64 (dest + w * n)) value log fuel = some ⟨dest, log⟩ := by
  obtain ⟨m, rfl⟩ := Nat.exists_eq_add_of_lt hfuel
  have hend : u64 (dest + w * n) ≤ dest := by
    unfold u64
    omega
  apply forever_leave
  rw [fillPass, if_neg (Nat.not_lt.mpr hend)]

/-- The units that a loop over `n` of them stores. -/
def filledUnits (w n dest : Nat) : Set (Nat × Nat) :=
  {x | dest + w * n < 2 ^ 64 ∧ ∃ i, i < n ∧ x = (w, dest + w * i)}

/-- A loop of `memset` ends and stores its units, unless its end wraps. -/
theorem fillUntil_adds
    {w n dest : Nat} (value : Nat) (log : AccessLog)
    (hw : 0 < w) (hdest : dest < 2 ^ 64) (hlength : w * n < 2 ^ 64) :
    ∃ log', Adds (filledUnits w n dest) log log' ∧ ∀ fuel, n < fuel →
      fillUntil w dest (u64 (dest + w * n)) value log fuel =
        some ⟨if dest + w * n < 2 ^ 64 then dest + w * n else dest, log'⟩ := by
  by_cases hwrap : dest + w * n < 2 ^ 64
  · refine ⟨fillUp w value n dest log, ⟨?_, ?_, ?_⟩, fun fuel hfuel => ?_⟩
    · intro x hx
      exact (mem_fillUp_iff n).mpr (Or.inl hx)
    · rintro x ⟨-, hx⟩
      exact (mem_fillUp_iff n).mpr (Or.inr hx)
    · intro x hx
      rcases (mem_fillUp_iff n).mp hx with hlog | hunit
      · exact Or.inl hlog
      · exact Or.inr (Or.inl ⟨hwrap, hunit⟩)
    · rw [if_pos hwrap]
      exact fillUntil_run hw value n dest fuel log hwrap hfuel
  · refine ⟨log, ⟨fun _ hx => hx, ?_, fun _ hx => Or.inl hx⟩, fun fuel hfuel => ?_⟩
    · rintro x ⟨hin, -⟩
      exact absurd hin hwrap
    · rw [if_neg hwrap]
      exact fillUntil_wraps value log hdest hlength (by omega) (by omega)

/-- A loop over bytes stores bytes. -/
theorem filledUnits_bytes
    {n dest : Nat} :
    ∀ x ∈ filledUnits 1 n dest, x.1 = 1 := by
  rintro x ⟨-, i, -, rfl⟩
  rfl

end Fill

section Memset

/-- The 64-bit stores of `memset`: behind its prologue, if there is one and neither it nor
the words run over the end of the address space. -/
def memsetWords (dest count : Nat) : Set (Nat × Nat) :=
  {x | dest % 8 + 8 ≤ count ∧ x ∈ filledUnits 8 ((count - dest % 8) / 8) (dest + dest % 8)}

/-- The pointer behind the prologue, which is not moved when the prologue's end wraps. -/
def afterPrologue (dest : Nat) : Nat :=
  if dest + dest % 8 < 2 ^ 64 then dest + dest % 8 else dest

/-- A prologue that wraps is followed by words that wrap. -/
theorem filledUnits_afterPrologue
    {dest n : Nat}
    (hn : 0 < n) :
    filledUnits 8 n (afterPrologue dest) = filledUnits 8 n (dest + dest % 8) := by
  rw [afterPrologue]
  split
  · rfl
  · ext x
    constructor
    · rintro ⟨hend, -⟩
      omega
    · rintro ⟨hend, -⟩
      omega

/-- The prologue ends and stores bytes only. -/
theorem memsetPrologue_adds
    {dest count : Nat} (value : Nat) (log : AccessLog)
    (hdest : dest < 2 ^ 64) (hlong : dest % 8 + 8 ≤ count) :
    ∃ log', Adds ∅ log log' ∧ ∀ fuel, count < fuel →
      (if dest % 8 ≠ 0 ∨ count < dest % 8 + 8 then
        fillUntil 1 dest (u64 (dest + dest % 8)) value log fuel
      else some ⟨dest, log⟩) = some ⟨afterPrologue dest, log'⟩ := by
  by_cases haligned : dest % 8 = 0
  · refine ⟨log, adds_refl log, fun fuel _ => ?_⟩
    rw [if_neg (by omega), afterPrologue, if_pos (by omega), haligned, Nat.add_zero]
  · obtain ⟨log', hadds, hrun⟩ := fillUntil_adds (n := dest % 8) value log Nat.one_pos hdest
      (by omega)
    refine ⟨log', hadds.of_bytes filledUnits_bytes, fun fuel hfuel => ?_⟩
    rw [Nat.one_mul] at hrun
    rw [if_pos (Or.inl haligned), hrun fuel (by omega), afterPrologue]

theorem afterPrologue_lt
    {dest : Nat}
    (hdest : dest < 2 ^ 64) :
    afterPrologue dest < 2 ^ 64 := by
  rw [afterPrologue]
  split <;> omega

/-- `memset` ends and makes its 64-bit stores, besides those of bytes. -/
theorem memset_adds
    {dest count : Nat} (ch : Int32) (log : AccessLog)
    (hdest : dest ≠ 0) (hcount : count ≠ 0) (hdestEnd : dest < 2 ^ 64)
    (hcountEnd : count < 2 ^ 64) :
    ∃ log', Returns (memset dest ch count log) (dest, log') ∧
      Adds (memsetWords dest count) log log' := by
  by_cases hshort : count < dest % 8 + 8
  · -- the prologue is all
    obtain ⟨log', hadds, hrun⟩ := fillUntil_adds (n := count) ch.toUInt32.toUInt8.toNat log
      Nat.one_pos hdestEnd (by omega)
    have hnone : memsetWords dest count = ∅ := by
      ext x
      simp [memsetWords, Nat.not_le.mpr hshort]
    have hbyte : count % 256 = count := by omega
    rw [Nat.one_mul] at hrun
    refine ⟨log', ⟨count + 1, fun fuel hfuel => ?_⟩, ?_⟩
    · rw [memset, if_neg (by omega)]
      simp only [hshort, hbyte, or_true, if_true, hrun fuel hfuel]
      rfl
    · rw [hnone]
      exact hadds.of_bytes filledUnits_bytes
  · -- up to seven bytes, whole words, what is left
    have hlong : dest % 8 + 8 ≤ count := Nat.not_lt.mp hshort
    obtain ⟨log₁, hadds₁, hrun₁⟩ := memsetPrologue_adds ch.toUInt32.toUInt8.toNat log hdestEnd
      hlong
    obtain ⟨log₂, hadds₂, hrun₂⟩ := fillUntil_adds (w := 8) (n := (count - dest % 8) / 8)
      (repeatedByte ch.toUInt32.toUInt8).toNat log₁ (by omega) (afterPrologue_lt hdestEnd)
      (by omega)
    obtain ⟨log₃, hadds₃, hrun₃⟩ := @fillUntil_adds 1 ((count - dest % 8) % 8)
      (u64 (afterPrologue dest + (count - dest % 8) / 8 * 8))
      ch.toUInt32.toUInt8.toNat log₂ Nat.one_pos (Nat.mod_lt _ (by omega)) (by omega)
    rw [Nat.one_mul] at hrun₃
    refine ⟨log₃, ⟨count + 1, fun fuel hfuel => ?_⟩, ?_⟩
    · have hcopied : dest % 8 % 256 = dest % 8 := by omega
      have hcopied' : (if dest % 8 ≠ 0 ∨ count < dest % 8 + 8 then dest % 8 else 0) =
          dest % 8 := by
        split <;> omega
      have hne : dest % 8 ≠ count := by omega
      have hleft : count - (dest % 8 + (count - dest % 8) / 8 * 8) =
          (count - dest % 8) % 8 := by
        omega
      rw [memset, if_neg (by omega)]
      simp only [if_neg hshort, hcopied, hcopied', hrun₁ fuel hfuel, hne, if_false,
        Option.bind_eq_bind, Option.bind_some, hrun₂ fuel (by omega), hleft,
        hrun₃ fuel (by omega)]
      rfl
    · have hwords : memsetWords dest count =
          filledUnits 8 ((count - dest % 8) / 8) (afterPrologue dest) := by
        rw [filledUnits_afterPrologue (by omega)]
        ext x
        simp [memsetWords, hlong]
      rw [hwords]
      exact hadds₁.between hadds₂ (hadds₃.of_bytes filledUnits_bytes)

/-- The words of `memset` are aligned when the first one is. -/
theorem memsetWords_aligned_iff
    {dest count : Nat} :
    (∀ x ∈ memsetWords dest count, x.2 % x.1 = 0) ↔
      count < dest % 8 + 8 ∨ 2 ^ 64 ≤ dest + dest % 8 + 8 * ((count - dest % 8) / 8) ∨
        dest % 4 = 0 := by
  constructor
  · intro haligned
    by_contra hnone
    push Not at hnone
    obtain ⟨hlong, hend, hresidue⟩ := hnone
    have hfirst := haligned (8, dest + dest % 8 + 8 * 0) ⟨hlong, hend, 0, by omega, rfl⟩
    simp only at hfirst
    omega
  · rintro hcases x ⟨hlong, hend, i, -, rfl⟩
    simp only
    omega

end Memset

section Copy

/-- The units that a loop over `n` of them loads and stores. -/
def copiedUnits (w n dst src : Nat) : Set (Nat × Nat) :=
  {x | ∃ i, i < n ∧ (x = (w, u64 (dst + w * i)) ∨ x = (w, u64 (src + w * i)))}

/-- Units counted from the second one on. -/
theorem u64_unit_succ
    (w a i : Nat) :
    u64 (u64 (a + w) + w * i) = u64 (a + w * (i + 1)) := by
  rw [u64_u64_add, Nat.mul_succ, Nat.add_assoc, Nat.add_comm w]

/-- The first unit and the others. -/
theorem copiedUnits_succ
    {w n dst src : Nat}
    (hdst : dst < 2 ^ 64) (hsrc : src < 2 ^ 64) :
    copiedUnits w (n + 1) dst src =
      {(w, dst), (w, src)} ∪ copiedUnits w n (u64 (dst + w)) (u64 (src + w)) := by
  ext x
  constructor
  · rintro ⟨i, hi, hx⟩
    cases i with
    | zero =>
        rw [Nat.mul_zero, Nat.add_zero, Nat.add_zero, u64_of_lt hdst, u64_of_lt hsrc] at hx
        exact Or.inl hx
    | succ i =>
        rw [← u64_unit_succ, ← u64_unit_succ] at hx
        exact Or.inr ⟨i, by omega, hx⟩
  · rintro (hx | ⟨i, hi, hx⟩)
    · refine ⟨0, by omega, ?_⟩
      rw [Nat.mul_zero, Nat.add_zero, Nat.add_zero, u64_of_lt hdst, u64_of_lt hsrc]
      exact hx
    · rw [u64_unit_succ, u64_unit_succ] at hx
      exact ⟨i + 1, by omega, hx⟩

theorem copiedUnits_bytes
    {n dst src : Nat} :
    ∀ x ∈ copiedUnits 1 n dst src, x.1 = 1 := by
  rintro x ⟨i, -, rfl | rfl⟩ <;> rfl

/-- Copying one unit loads and stores it. -/
theorem adds_copyUnit
    (w dst src : Nat) (log : AccessLog) :
    Adds {(w, dst), (w, src)} log (UnitMemory.copyUnit w dst src log) where
  kept := fun x hx => mem_copyUnit_iff.mpr (Or.inr (Or.inr hx))
  added := by
    rintro x (hx | hx)
    · exact mem_copyUnit_iff.mpr (Or.inl hx)
    · exact mem_copyUnit_iff.mpr (Or.inr (Or.inl hx))
  only := by
    intro x hx
    rcases mem_copyUnit_iff.mp hx with hdst | hsrc | hlog
    · exact Or.inr (Or.inl (Or.inl hdst))
    · exact Or.inr (Or.inl (Or.inr hsrc))
    · exact Or.inl hlog

/-- A loop of `memcpy` ends, also when its pointers wrap, and copies its units. -/
theorem copyForwards_adds
    {w : Nat} (hw : 0 < w) (n : Nat) :
    ∀ {dst src : Nat} (log : AccessLog),
      dst < 2 ^ 64 → src < 2 ^ 64 → w * n < 2 ^ 64 →
      ∃ log', Adds (copiedUnits w n dst src) log log' ∧ ∀ fuel, n < fuel →
        copyForwards w dst src (u64 (src + w * n)) log fuel =
          some ⟨u64 (dst + w * n), u64 (src + w * n), log'⟩ := by
  induction n with
  | zero =>
      intro dst src log hdst hsrc hlength
      have hnone : copiedUnits w 0 dst src = ∅ := by
        ext x
        simp [copiedUnits]
      refine ⟨log, hnone ▸ adds_refl log, fun fuel hfuel => ?_⟩
      obtain ⟨m, rfl⟩ := Nat.exists_eq_add_of_lt hfuel
      apply forever_leave
      simp [copyForwardsPass, u64_of_lt hdst, u64_of_lt hsrc]
  | succ n ih =>
      intro dst src log hdst hsrc hlength
      rw [Nat.mul_succ] at hlength
      have hwrap : ∀ a, u64 a < 2 ^ 64 := fun a => Nat.mod_lt a (by omega)
      have hne : src ≠ u64 (src + w * (n + 1)) := by
        rw [Nat.mul_succ]
        unfold u64
        omega
      obtain ⟨log', hadds, hrun⟩ := ih (UnitMemory.copyUnit w dst src log)
        (hwrap (dst + w)) (hwrap (src + w)) (by omega)
      rw [u64_unit_succ, u64_unit_succ] at hrun
      refine ⟨log', ?_, fun fuel hfuel => ?_⟩
      · rw [copiedUnits_succ hdst hsrc]
        exact (adds_copyUnit w dst src log).trans hadds
      · obtain ⟨m, rfl⟩ := Nat.exists_eq_add_of_lt hfuel
        have hpass : copyForwardsPass w (u64 (src + w * (n + 1))) ⟨dst, src, log⟩ =
            .again ⟨u64 (dst + w), u64 (src + w), UnitMemory.copyUnit w dst src log⟩ := by
          rw [copyForwardsPass, if_pos hne]
        rw [copyForwards, forever_again hpass]
        exact hrun (n + 1 + m) (by omega)

/-- A path of `memcpy` with words of `w` bytes ends and copies the words behind its
prologue. -/
theorem memcpyAligned_adds
    {w dest src count : Nat} (log : AccessLog)
    (hw : 0 < w) (hdest : dest < 2 ^ 64) (hsrc : src < 2 ^ 64) (hcount : w ≤ count)
    (hcountEnd : count < 2 ^ 64) :
    ∃ log', Returns (memcpyAligned w dest src count log) (dest, log') ∧
      Adds (copiedUnits w ((count - dest % w) / w) (u64 (dest + dest % w))
        (u64 (src + dest % w))) log log' := by
  have hwrap : ∀ a, u64 a < 2 ^ 64 := fun a => Nat.mod_lt a (by omega)
  have hmod : dest % w < w := Nat.mod_lt dest hw
  have hsplit := Nat.div_add_mod (count - dest % w) w
  have hquot : (count - dest % w) / w ≤ count - dest % w := Nat.div_le_self _ _
  obtain ⟨log₁, hadds₁, hrun₁⟩ := copyForwards_adds Nat.one_pos (dest % w) log hdest hsrc
    (by omega)
  rw [Nat.one_mul] at hrun₁
  obtain ⟨log₂, hadds₂, hrun₂⟩ := copyForwards_adds hw ((count - dest % w) / w) log₁
    (hwrap (dest + dest % w)) (hwrap (src + dest % w)) (by omega)
  obtain ⟨log₃, hadds₃, hrun₃⟩ := copyForwards_adds Nat.one_pos ((count - dest % w) % w) log₂
    (hwrap (u64 (dest + dest % w) + w * ((count - dest % w) / w)))
    (hwrap (u64 (src + dest % w) + w * ((count - dest % w) / w))) (by omega)
  rw [Nat.one_mul] at hrun₃
  refine ⟨log₃, ⟨count + 1, fun fuel hfuel => ?_⟩, ?_⟩
  · simp only [memcpyAligned, hrun₁ fuel (by omega), hrun₂ fuel (by omega),
      hrun₃ fuel (by omega), Option.bind_eq_bind, Option.bind_some]
    rfl
  · exact (hadds₁.of_bytes copiedUnits_bytes).between hadds₂
      (hadds₃.of_bytes copiedUnits_bytes)

/-- The width of the units that `memcpy` and `memcmp` choose. -/
def fastPathWidth (p q count : Nat) : Nat :=
  if p % 8 = q % 8 ∧ count ≥ 8 then 8
  else if p % 4 = q % 4 ∧ count ≥ 4 then 4
  else if p % 2 = q % 2 ∧ count ≥ 2 then 2
  else 1

/-- The words behind a prologue of `p % w` bytes are at multiples of their width: there are
none, or the prologue ends at such a multiple. -/
def WordsAligned (w p count : Nat) : Prop :=
  (count - p % w) / w = 0 ∨ 2 * (p % w) % w = 0

theorem fastPathWidth_cases
    (p q count : Nat) :
    (fastPathWidth p q count = 8 ∨ fastPathWidth p q count = 4 ∨
        fastPathWidth p q count = 2 ∨ fastPathWidth p q count = 1) ∧
      q % fastPathWidth p q count = p % fastPathWidth p q count := by
  rw [fastPathWidth]
  split
  · omega
  split
  · omega
  split
  · omega
  · omega

/-- The accesses of a forward path. -/
def pathUnits (dest src count : Nat) : Set (Nat × Nat) :=
  let w := fastPathWidth dest src count
  copiedUnits w ((count - dest % w) / w) (u64 (dest + dest % w)) (u64 (src + dest % w))

/-- The forward paths of `memcpy` end and copy their units. -/
theorem memcpyForwards_adds
    {dest src count : Nat} (log : AccessLog)
    (hdest : dest < 2 ^ 64) (hsrc : src < 2 ^ 64) (hcount : count < 2 ^ 64) :
    ∃ log', Returns (memcpyForwards dest src count log) (dest, log') ∧
      Adds (pathUnits dest src count) log log' := by
  -- a path with words of `w` bytes
  have hpath : ∀ w, 0 < w → w ≤ count → fastPathWidth dest src count = w →
      (∀ fuel, memcpyForwards dest src count log fuel =
        memcpyAligned w dest src count log fuel) →
      ∃ log', Returns (memcpyForwards dest src count log) (dest, log') ∧
        Adds (pathUnits dest src count) log log' := by
    rintro w hw hle rfl hsame
    obtain ⟨log', hrun, hadds⟩ := memcpyAligned_adds log hw hdest hsrc hle hcount
    exact ⟨log', hrun.congr hsame, hadds⟩
  by_cases h8 : dest % 8 = src % 8 ∧ count ≥ 8
  · refine hpath 8 (by omega) h8.2 ?_ fun fuel => ?_
    · rw [fastPathWidth, if_pos h8]
    · rw [memcpyForwards, if_pos h8]
  by_cases h4 : dest % 4 = src % 4 ∧ count ≥ 4
  · refine hpath 4 (by omega) h4.2 ?_ fun fuel => ?_
    · rw [fastPathWidth, if_neg h8, if_pos h4]
    · rw [memcpyForwards, if_neg h8, if_pos h4]
  by_cases h2 : dest % 2 = src % 2 ∧ count ≥ 2
  · refine hpath 2 (by omega) h2.2 ?_ fun fuel => ?_
    · rw [fastPathWidth, if_neg h8, if_neg h4, if_pos h2]
    · rw [memcpyForwards, if_neg h8, if_neg h4, if_pos h2]
  · -- single bytes
    have hwidth : fastPathWidth dest src count = 1 := by
      rw [fastPathWidth, if_neg h8, if_neg h4, if_neg h2]
    obtain ⟨log', hadds, hrun⟩ := copyForwards_adds Nat.one_pos count log hdest hsrc (by omega)
    rw [Nat.one_mul] at hrun
    refine ⟨log', ⟨count + 1, fun fuel hfuel => ?_⟩, ?_⟩
    · rw [memcpyForwards, if_neg h8, if_neg h4, if_neg h2, hrun fuel hfuel]
      rfl
    · rw [pathUnits, hwidth]
      simpa [Nat.mod_one, u64_of_lt hdest, u64_of_lt hsrc] using hadds

/-- Words at addresses with the residue of the first ones. -/
theorem copiedUnits_aligned_iff
    {w n dst src : Nat}
    (hw : w = 8 ∨ w = 4 ∨ w = 2 ∨ w = 1) (hresidue : src % w = dst % w) :
    (∀ x ∈ copiedUnits w n dst src, x.2 % x.1 = 0) ↔ n = 0 ∨ dst % w = 0 := by
  have hmod : ∀ a i, u64 (a + w * i) % w = a % w := by
    intro a i
    have hdvd : w ∣ 2 ^ 64 := by
      rcases hw with rfl | rfl | rfl | rfl <;> decide
    rw [u64, Nat.mod_mod_of_dvd _ hdvd, Nat.add_mul_mod_self_left]
  constructor
  · intro haligned
    rcases Nat.eq_zero_or_pos n with hnone | hsome
    · exact Or.inl hnone
    · have hfirst := haligned (w, u64 (dst + w * 0)) ⟨0, hsome, Or.inl rfl⟩
      exact Or.inr ((hmod dst 0).symm.trans hfirst)
  · rintro hcases x ⟨i, hi, hx⟩
    have hzero : dst % w = 0 := hcases.resolve_left (by omega)
    rcases hx with rfl | rfl
    · exact (hmod dst i).trans hzero
    · exact (hmod src i).trans (hresidue.trans hzero)

/-- Where a prologue of `p % w` bytes ends. -/
theorem prologue_mod
    {w : Nat} (p : Nat)
    (hw : w = 8 ∨ w = 4 ∨ w = 2 ∨ w = 1) :
    u64 (p + p % w) % w = 2 * (p % w) % w := by
  unfold u64
  rcases hw with rfl | rfl | rfl | rfl <;> omega

theorem pathUnits_aligned_iff
    {dest src count : Nat} :
    (∀ x ∈ pathUnits dest src count, x.2 % x.1 = 0) ↔
      WordsAligned (fastPathWidth dest src count) dest count := by
  obtain ⟨hw, hresidue⟩ := fastPathWidth_cases dest src count
  have hsrc : u64 (src + dest % fastPathWidth dest src count) % fastPathWidth dest src count =
      u64 (dest + dest % fastPathWidth dest src count) % fastPathWidth dest src count := by
    rw [prologue_mod dest hw, ← hresidue, prologue_mod src hw]
  rw [pathUnits, copiedUnits_aligned_iff hw hsrc, prologue_mod dest hw, WordsAligned]

end Copy

end KstdlibString
end DexprOS
