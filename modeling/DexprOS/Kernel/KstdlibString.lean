import DexprOS.Library.FuelLoop
import DexprOS.Library.ByteCopy

/-!
# Kernel string.c: memcpy and memmove

The overlap dispatch between `memcpy` and `memmove`, the forward fast paths and
the backward paths with their alignment prologue, word loop and byte epilogue.

A pointer is its address.  Additions and subtractions on `uintptr_t` values and
pointers wrap modulo `2^64` as the machine does; a loop that runs away because a
pointer dropped below zero therefore returns nothing.  The memory may be one that also
records what is loaded from it.

Main facts:
* `memcpyForwards_result`: what the forward paths do on source ranges above and below
  the destination;
* `memmoveBackwards_bytes`: the byte-wise backward path is a faithful move;
* `memmoveAlignedBackwards_last`: every word-wise backward path stores a wrong
  last byte;
* `memmove_memcpy_moves_iff`: exactly when the two functions move every memory content;
* `memcpy_copies_exactly`: what the forward paths of `memcpy` write and read.
-/

namespace DexprOS
namespace KstdlibString

open Fuel ByteCopy

universe u

section KstdlibString

-- The functions are the same for every kind of memory that they may run on.
variable {M : Type u} [UnitMemory M]

/-- Unsigned 64-bit value of an exact natural number. -/
def u64 (n : Nat) : Nat := n % 2 ^ 64

/-- Unsigned 64-bit subtraction. -/
def sub64 (a b : Nat) : Nat := (a + (2 ^ 64 - b)) % 2 ^ 64

/-- The two moving pointers of a copy loop and the memory. -/
structure CopyState (M : Type u) where
  pDst : Nat
  pSrc : Nat
  mem : M

/-- `for (; pSrc != pSrcEnd; ++pSrc, ++pDst) *pDst = *pSrc;` on units of `w`
bytes. -/
def copyForwardsPass (w pSrcEnd : Nat) (s : CopyState M) :
    Pass (CopyState M) (CopyState M) :=
  if s.pSrc ≠ pSrcEnd then
    .again
      { pDst := u64 (s.pDst + w)
        pSrc := u64 (s.pSrc + w)
        mem := UnitMemory.copyUnit w s.pDst s.pSrc s.mem }
  else
    .leave s

def copyForwards (w pDst pSrc pSrcEnd : Nat) (mem : M)
    (fuel : Nat) : Option (CopyState M) :=
  forever (copyForwardsPass w pSrcEnd) fuel ⟨pDst, pSrc, mem⟩

/-- `for (; pSrcLast >= pSrc; --pSrcLast, --pDst) *pDst = *pSrcLast;` on units of
`w` bytes.  The moving source pointer `pSrcLast` is the state's `pSrc`. -/
def copyBackwardsPass (w pSrc : Nat) (s : CopyState M) :
    Pass (CopyState M) (CopyState M) :=
  if s.pSrc ≥ pSrc then
    .again
      { pDst := sub64 s.pDst w
        pSrc := sub64 s.pSrc w
        mem := UnitMemory.copyUnit w s.pDst s.pSrc s.mem }
  else
    .leave s

def copyBackwards (w pSrc pDst pSrcLast : Nat) (mem : M)
    (fuel : Nat) : Option (CopyState M) :=
  forever (copyBackwardsPass w pSrc) fuel ⟨pDst, pSrcLast, mem⟩

/-- The three blocks of `memcpy` for `w` = 8, 4, 2: alignment bytes, words,
remaining bytes. -/
def memcpyAligned (w dest src count : Nat) (mem : M)
    (fuel : Nat) : Option (Nat × M) := do
  let numAlignBytes := dest % w
  let s₁ ← copyForwards 1 dest src (u64 (src + numAlignBytes)) mem fuel
  let s₂ ← copyForwards w s₁.pDst s₁.pSrc
    (u64 (s₁.pSrc + w * ((count - numAlignBytes) / w))) s₁.mem fuel
  let numRemBytes := (count - numAlignBytes) % w
  let s₃ ← copyForwards 1 s₂.pDst s₂.pSrc
    (u64 (s₂.pSrc + numRemBytes)) s₂.mem fuel
  return (dest, s₃.mem)

/-- `memcpy` after its overlap dispatch. -/
def memcpyForwards (dest src count : Nat) (mem : M)
    (fuel : Nat) : Option (Nat × M) :=
  if dest % 8 = src % 8 ∧ count ≥ 8 then
    memcpyAligned 8 dest src count mem fuel
  else if dest % 4 = src % 4 ∧ count ≥ 4 then
    memcpyAligned 4 dest src count mem fuel
  else if dest % 2 = src % 2 ∧ count ≥ 2 then
    memcpyAligned 2 dest src count mem fuel
  else do
    let s ← copyForwards 1 dest src (u64 (src + count)) mem fuel
    return (dest, s.mem)

/-- The three backward blocks of `memmove` for `w` = 8, 4, 2.  All three source
pointers start from `src`, as the code has them. -/
def memmoveAlignedBackwards (w dest src count : Nat) (mem : M)
    (fuel : Nat) : Option (Nat × M) := do
  let numAlignBytes := u64 (dest + count) % w
  let s₁ ← copyBackwards 1 src (sub64 (dest + count) 1)
    (sub64 (src + numAlignBytes) 1) mem fuel
  let s₂ ← copyBackwards w src s₁.pDst
    (sub64 (src + w * ((count - numAlignBytes) / w)) w) s₁.mem fuel
  let numRemBytes := (count - numAlignBytes) % w
  let s₃ ← copyBackwards 1 src s₂.pDst
    (sub64 (src + numRemBytes) 1) s₂.mem fuel
  return (dest, s₃.mem)

/-- `memmove` once it has decided to copy backwards. -/
def memmoveBackwards (dest src count : Nat) (mem : M)
    (fuel : Nat) : Option (Nat × M) :=
  let destEndValue := u64 (dest + count)
  let sourceEndValue := u64 (src + count)
  if destEndValue % 8 = sourceEndValue % 8 ∧ count ≥ 8 then
    memmoveAlignedBackwards 8 dest src count mem fuel
  else if destEndValue % 4 = sourceEndValue % 4 ∧ count ≥ 4 then
    memmoveAlignedBackwards 4 dest src count mem fuel
  else if destEndValue % 2 = sourceEndValue % 2 ∧ count ≥ 2 then
    memmoveAlignedBackwards 2 dest src count mem fuel
  else do
    let s ← copyBackwards 1 src (sub64 (dest + count) 1)
      (sub64 (src + count) 1) mem fuel
    return (dest, s.mem)

/-- The test on which `memcpy` hands the call to `memmove`. -/
abbrev OverlapsFromBelow (dest src count : Nat) : Prop :=
  src < u64 (dest + count) ∧ u64 (src + count) > dest ∧ dest > src

-- A call from one of the two functions to the other costs one unit of fuel.
mutual

def memcpy (dest src count : Nat) (mem : M) :
    Nat → Option (Nat × M)
  | 0 => none
  | fuel + 1 =>
      if dest = 0 ∨ src = 0 ∨ count = 0 then
        some (dest, mem)
      else if src = dest then
        some (dest, mem)
      else if OverlapsFromBelow dest src count then
        memmove dest src count mem fuel
      else
        memcpyForwards dest src count mem fuel

def memmove (dest src count : Nat) (mem : M) :
    Nat → Option (Nat × M)
  | 0 => none
  | fuel + 1 =>
      if dest = 0 ∨ src = 0 ∨ count = 0 then
        some (dest, mem)
      else if src = dest then
        some (dest, mem)
      else if u64 (src + count) ≤ dest ∨ src ≥ u64 (dest + count) then
        memcpy dest src count mem fuel
      else if dest < src then
        memcpy dest src count mem fuel
      else
        memmoveBackwards dest src count mem fuel

end

theorem u64_of_lt {n : Nat} (h : n < 2 ^ 64) : u64 n = n :=
  Nat.mod_eq_of_lt h

theorem sub64_of_le {a b : Nat} (hb : b ≤ a) (ha : a < 2 ^ 64) :
    sub64 a b = a - b := by
  unfold sub64
  omega

/-- A forward loop over `n` units is `copyUp`, even when its end pointer is the
end of the address space. -/
theorem copyForwards_run
    {w : Nat} (hw : 0 < w) (n : Nat) :
    ∀ (dst src fuel : Nat) (mem : M),
      0 < src →
      dst + w * n ≤ 2 ^ 64 →
      src + w * n ≤ 2 ^ 64 →
      n < fuel →
      copyForwards w (u64 dst) (u64 src) (u64 (src + w * n)) mem fuel =
        some ⟨u64 (dst + w * n), u64 (src + w * n),
          copyUp w n dst src mem⟩ := by
  induction n with
  | zero =>
      intro dst src fuel mem _ _ _ hfuel
      obtain ⟨m, rfl⟩ := Nat.exists_eq_add_of_lt hfuel
      apply forever_leave
      simp [copyForwardsPass, copyUp]
  | succ n ih =>
      intro dst src fuel mem hsrc hd hs hfuel
      rw [Nat.mul_succ] at hd hs
      obtain ⟨m, rfl⟩ := Nat.exists_eq_add_of_lt hfuel
      have hdst : u64 dst = dst := u64_of_lt (by omega)
      have hsrc' : u64 src = src := u64_of_lt (by omega)
      have hne : u64 src ≠ u64 (src + w * (n + 1)) := by
        rw [hsrc', Nat.mul_succ]
        unfold u64
        omega
      have hpass :
          copyForwardsPass w (u64 (src + w * (n + 1)))
              ⟨u64 dst, u64 src, mem⟩ =
            .again ⟨u64 (dst + w), u64 (src + w),
              UnitMemory.copyUnit w dst src mem⟩ := by
        rw [copyForwardsPass, if_pos hne]
        simp only [hdst, hsrc']
      unfold copyForwards
      rw [forever_again hpass]
      have hrest := ih (dst + w) (src + w) (n + 1 + m)
        (UnitMemory.copyUnit w dst src mem) (by omega) (by omega) (by omega) (by omega)
      have ed : dst + w * (n + 1) = dst + w + w * n := by
        rw [Nat.mul_succ]
        omega
      have es : src + w * (n + 1) = src + w + w * n := by
        rw [Nat.mul_succ]
        omega
      rw [ed, es, copyUp]
      exact hrest

/-- A backward loop over `n` units that cannot drop below address zero is
`copyDown`. -/
theorem copyBackwards_run
    {w : Nat} (pSrc : Nat) (hw : 0 < w) (hpSrc : w ≤ pSrc) (n : Nat) :
    ∀ (dst fuel : Nat) (mem : M),
      w * n ≤ dst →
      dst < 2 ^ 64 →
      pSrc + w * n ≤ 2 ^ 64 →
      n < fuel →
      copyBackwards w pSrc dst (pSrc + w * n - w) mem fuel =
        some ⟨dst - w * n, pSrc - w,
          copyDown w n dst (pSrc + w * n - w) mem⟩ := by
  induction n with
  | zero =>
      intro dst fuel mem _ _ _ hfuel
      obtain ⟨m, rfl⟩ := Nat.exists_eq_add_of_lt hfuel
      apply forever_leave
      rw [copyBackwardsPass, if_neg (by simp only; omega)]
      simp [copyDown]
  | succ n ih =>
      intro dst fuel mem hn hdst hsrc hfuel
      rw [Nat.mul_succ] at hn hsrc
      obtain ⟨m, rfl⟩ := Nat.exists_eq_add_of_lt hfuel
      have elast : pSrc + w * (n + 1) - w = pSrc + w * n := by
        rw [Nat.mul_succ]
        omega
      have hpass :
          copyBackwardsPass w pSrc ⟨dst, pSrc + w * n, mem⟩ =
            .again ⟨dst - w, pSrc + w * n - w,
              UnitMemory.copyUnit w dst (pSrc + w * n) mem⟩ := by
        rw [copyBackwardsPass, if_pos (by simp only; omega)]
        simp only
        rw [sub64_of_le (by omega) hdst, sub64_of_le (by omega) (by omega)]
      unfold copyBackwards
      rw [elast, forever_again hpass]
      have hrest := ih (dst - w) (n + 1 + m)
        (UnitMemory.copyUnit w dst (pSrc + w * n) mem) (by omega) (by omega) (by omega) (by omega)
      have ed : dst - w * (n + 1) = dst - w - w * n := by
        rw [Nat.mul_succ]
        omega
      rw [ed, copyDown]
      exact hrest

/-- Below address `w` the word pointer wraps past zero and the loop never ends. -/
theorem copyBackwards_hangs
    {w pSrc dst pSrcLast : Nat} (mem : Memory)
    (hw : w = 8 ∨ w = 4 ∨ w = 2)
    (hlast : pSrcLast % w = pSrc)
    (fuel : Nat) :
    copyBackwards w pSrc dst pSrcLast mem fuel = none := by
  apply forever_eq_none_of_invariant (fun s => s.pSrc % w = pSrc)
  · intro s hs
    have hle : pSrc ≤ s.pSrc := hs ▸ Nat.mod_le _ _
    refine ⟨_, if_pos hle, ?_⟩
    rcases hw with rfl | rfl | rfl <;>
      simp only [sub64] <;> omega
  · exact hlast

@[simp] theorem u64_u64_add (a b : Nat) :
    u64 (u64 a + b) = u64 (a + b) := by
  unfold u64
  omega

/-- What a forward copy leaves behind, by the relative position of the ranges. -/
structure ForwardsResult (dest src count : Nat) (mem mem' : Memory) : Prop where
  moved : dest ≤ src ∨ src + count ≤ dest → Moved mem dest src count mem'
  echo : src < dest → Echo mem dest src count mem'

/-- The prologue of `a` bytes, `n` words and `r` remaining bytes of a forward copy. -/
def copyParts (w a n r dest src : Nat) (mem : M) : M :=
  copyUp 1 r (dest + (1 * a + w * n)) (src + (1 * a + w * n))
    (copyUp w n (dest + 1 * a) (src + 1 * a) (copyUp 1 a dest src mem))

/-- The words of a forward path are not wider than the distance of a source below. -/
structure ForwardSplit (dest src count w a n r : Nat) : Prop where
  total : 1 * a + w * n + 1 * r = count
  gap : src < dest → src + w ≤ dest

theorem memcpyAligned_run
    {w dest src count : Nat}
    (hw : 0 < w) (hcount : w ≤ count)
    (hgap : src < dest → src + w ≤ dest)
    (hsrc : 0 < src)
    (hdestEnd : dest + count ≤ 2 ^ 64)
    (hsrcEnd : src + count ≤ 2 ^ 64) :
    ∃ a n r, ForwardSplit dest src count w a n r ∧
      ∀ {M : Type u} [UnitMemory M] (mem : M),
        Returns (memcpyAligned w dest src count mem)
          (dest, copyParts w a n r dest src mem) := by
  have hmod : dest % w < w := Nat.mod_lt dest hw
  have hsplit : w * ((count - dest % w) / w) + (count - dest % w) % w =
      count - dest % w := Nat.div_add_mod _ _
  have hquot : (count - dest % w) / w ≤ count - dest % w := Nat.div_le_self _ _
  unfold memcpyAligned
  dsimp only
  set a := dest % w
  set n := (count - a) / w
  set r := (count - a) % w
  have htotal : 1 * a + w * n + 1 * r = count := by omega
  refine ⟨a, n, r, ⟨htotal, hgap⟩, fun mem => ⟨count + 1, fun fuel hfuel => ?_⟩⟩
  have h₁ := copyForwards_run Nat.zero_lt_one a dest src fuel mem
    hsrc (by omega) (by omega) (by omega)
  have h₂ := copyForwards_run hw n (dest + 1 * a) (src + 1 * a) fuel
    (copyUp 1 a dest src mem)
    (by omega) (by omega) (by omega) (by omega)
  have h₃ := copyForwards_run Nat.zero_lt_one r
    (dest + (1 * a + w * n)) (src + (1 * a + w * n)) fuel
    (copyUp w n (dest + 1 * a) (src + 1 * a) (copyUp 1 a dest src mem))
    (by omega) (by omega) (by omega) (by omega)
  rw [u64_of_lt (show dest < 2 ^ 64 by omega),
    u64_of_lt (show src < 2 ^ 64 by omega)] at h₁
  unfold copyParts
  simp only [Nat.one_mul, Nat.add_assoc] at h₁ h₂ h₃ ⊢
  simp only [h₁, h₂, h₃, Option.bind_eq_bind, Option.bind_some,
    Option.pure_def, u64_u64_add, Nat.add_assoc]

/-- The forward paths together: whichever block the residues select. -/
theorem memcpyForwards_run
    {dest src count : Nat}
    (hsrc : 0 < src) (hpos : 0 < count)
    (hdestEnd : dest + count ≤ 2 ^ 64)
    (hsrcEnd : src + count ≤ 2 ^ 64) :
    ∃ w a n r, ForwardSplit dest src count w a n r ∧
      ∀ {M : Type u} [UnitMemory M] (mem : M),
        Returns (memcpyForwards dest src count mem)
          (dest, copyParts w a n r dest src mem) := by
  unfold memcpyForwards
  split_ifs with h8 h4 h2
  · exact ⟨8, memcpyAligned_run (by omega) h8.2 (by omega) hsrc hdestEnd hsrcEnd⟩
  · exact ⟨4, memcpyAligned_run (by omega) h4.2 (by omega) hsrc hdestEnd hsrcEnd⟩
  · exact ⟨2, memcpyAligned_run (by omega) h2.2 (by omega) hsrc hdestEnd hsrcEnd⟩
  · refine ⟨1, count, 0, 0, ⟨by omega, fun hlt => hlt⟩,
      fun mem => ⟨count + 1, fun fuel hfuel => ?_⟩⟩
    have hrun := copyForwards_run Nat.zero_lt_one count dest src fuel mem
      hsrc (by omega) (by omega) (by omega)
    rw [u64_of_lt (show dest < 2 ^ 64 by omega),
      u64_of_lt (show src < 2 ^ 64 by omega), Nat.one_mul] at hrun
    simp only [hrun, Option.bind_eq_bind, Option.bind_some, Option.pure_def]
    rfl

/-- What such a copy leaves behind. -/
theorem ForwardSplit.result
    {dest src count w a n r : Nat} (h : ForwardSplit dest src count w a n r)
    (mem : Memory) :
    ForwardsResult dest src count mem (copyParts w a n r dest src mem) := by
  have htotal := h.total
  unfold copyParts
  constructor
  · intro hsafe
    have h₁ := moved_copyUp (w := 1) a (moved_zero mem dest src) (by omega)
    have h₂ := moved_copyUp (w := w) n h₁ (by omega)
    have h₃ := moved_copyUp (w := 1) r h₂ (by omega)
    simp only [Nat.zero_add, Nat.add_zero] at h₃
    rwa [htotal] at h₃
  · intro hlt
    have hone : src + 1 ≤ dest := hlt
    have h₁ := echo_copyUp hone a (echo_zero mem dest src)
    have h₂ := echo_copyUp (h.gap hlt) n h₁
    have h₃ := echo_copyUp hone r h₂
    simp only [Nat.zero_add, Nat.add_zero] at h₃
    rwa [htotal] at h₃

theorem memcpyForwards_result
    {dest src count : Nat} (mem : Memory)
    (hsrc : 0 < src) (hpos : 0 < count)
    (hdestEnd : dest + count ≤ 2 ^ 64)
    (hsrcEnd : src + count ≤ 2 ^ 64) :
    ∃ mem', Returns (memcpyForwards dest src count mem) (dest, mem') ∧
      ForwardsResult dest src count mem mem' := by
  obtain ⟨w, a, n, r, hsplit, hrun⟩ := memcpyForwards_run hsrc hpos hdestEnd hsrcEnd
  exact ⟨_, hrun mem, hsplit.result mem⟩

/-- A word-wise backward copy that ends has run its three loops: bytes down to an aligned
destination, words, and the remaining bytes. -/
theorem memmoveAlignedBackwards_loops
    {w dest src count ret : Nat} {mem mem' : Memory}
    (hw : w = 8 ∨ w = 4 ∨ w = 2) (hcount : w ≤ count)
    (hsrc : 0 < src) (hgap : src + w ≤ dest)
    (hdestEnd : dest + count < 2 ^ 64)
    (h : Returns (memmoveAlignedBackwards w dest src count mem) (ret, mem')) :
    ∃ a n r, a < w ∧ r < w ∧ a + w * n + r = count ∧
      mem' = copyDown 1 r (dest + count - 1 - a - w * n) (src + r - 1)
        (copyDown w n (dest + count - 1 - a) (src + w * n - w)
          (copyDown 1 a (dest + count - 1) (src + a - 1) mem)) := by
  have hmod : (dest + count) % w < w := Nat.mod_lt _ (by omega)
  have hsplit := Nat.div_add_mod (count - (dest + count) % w) w
  have hrem : (count - (dest + count) % w) % w < w := Nat.mod_lt _ (by omega)
  have hquot := Nat.div_le_self (count - (dest + count) % w) w
  refine ⟨(dest + count) % w, (count - (dest + count) % w) / w,
    (count - (dest + count) % w) % w, hmod, hrem, by omega, ?_⟩
  obtain ⟨fuel₀, h₀⟩ := h
  have hrun := h₀ (max fuel₀ (count + 1)) (Nat.le_max_left _ _)
  have hfuel : count + 1 ≤ max fuel₀ (count + 1) := Nat.le_max_right _ _
  generalize max fuel₀ (count + 1) = fuel at hrun hfuel
  unfold memmoveAlignedBackwards at hrun
  rw [u64_of_lt hdestEnd] at hrun
  dsimp only at hrun
  generalize (dest + count) % w = a at *
  generalize (count - a) / w = n at *
  generalize (count - a) % w = r at *
  have hstart : 1 ≤ a + w * n := by
    rcases Nat.eq_zero_or_pos n with rfl | hn
    · omega
    · have := Nat.le_mul_of_pos_right w hn
      omega
  rw [sub64_of_le (a := dest + count) (by omega) (by omega),
    sub64_of_le (a := src + a) (by omega) (by omega)] at hrun
  have h₁ := copyBackwards_run src Nat.zero_lt_one (by omega) a
    (dest + count - 1) fuel mem
    (by omega) (by omega) (by omega) (by omega)
  rw [Nat.one_mul] at h₁
  simp only [h₁, Option.bind_eq_bind, Option.bind_some] at hrun
  by_cases hlow : src < w
  · -- the word pointer passes below address zero
    have hhang : sub64 (src + w * n) w % w = src := by
      have hmodSrc : (src + w * n) % w = src := by
        rw [Nat.add_mul_mod_self_left]
        exact Nat.mod_eq_of_lt hlow
      rcases hw with rfl | rfl | rfl <;>
        simp only [sub64] <;> omega
    rw [copyBackwards_hangs _ hw hhang] at hrun
    simp at hrun
  · rw [sub64_of_le (a := src + w * n) (by omega) (by omega)] at hrun
    have h₂ := copyBackwards_run src (w := w) (by omega) (by omega) n
      (dest + count - 1 - a) fuel
      (copyDown 1 a (dest + count - 1) (src + a - 1) mem)
      (by omega) (by omega) (by omega) (by omega)
    simp only [h₂, Option.bind_some] at hrun
    rw [sub64_of_le (a := src + r) (by omega) (by omega)] at hrun
    have h₃ := copyBackwards_run src Nat.zero_lt_one (by omega) r
      (dest + count - 1 - a - w * n) fuel
      (copyDown w n (dest + count - 1 - a) (src + w * n - w)
        (copyDown 1 a (dest + count - 1) (src + a - 1) mem))
      (by omega) (by omega) (by omega) (by omega)
    rw [Nat.one_mul] at h₃
    simp only [h₃, Option.bind_some, Option.pure_def, Option.some.injEq,
      Prod.mk.injEq] at hrun
    exact hrun.2.symm

/-- Every word-wise backward copy starts its source at the front of the range:
the last byte of the destination is never the last byte of the source. -/
theorem memmoveAlignedBackwards_last
    {w dest src count ret : Nat} {mem mem' : Memory}
    (hw : w = 8 ∨ w = 4 ∨ w = 2) (hcount : w ≤ count)
    (hsrc : 0 < src) (hgap : src + w ≤ dest)
    (hdestEnd : dest + count < 2 ^ 64)
    (h : Returns (memmoveAlignedBackwards w dest src count mem) (ret, mem')) :
    ∃ t, t + 1 < count ∧ mem' (dest + (count - 1)) = mem (src + t) := by
  obtain ⟨a, n, r, ha, hr, hsplit, rfl⟩ :=
    memmoveAlignedBackwards_loops hw hcount hsrc hgap hdestEnd h
  have hw2 : 2 ≤ w := by omega
  have hstart : 1 ≤ a + w * n := by
    rcases Nat.eq_zero_or_pos n with rfl | hn
    · omega
    · have := Nat.le_mul_of_pos_right w hn
      omega
  rw [copyDown_above r (by omega)]
  cases n with
  | zero =>
      -- no word was copied, the alignment bytes come from the front
      obtain ⟨b, rfl⟩ : ∃ b, a = b + 1 := ⟨a - 1, by omega⟩
      refine ⟨b, by omega, ?_⟩
      have hfirst := copyDown_first (w := 1) (i := 0)
        (dest + count - 1) (src + (b + 1) - 1) b mem
        Nat.zero_lt_one (by omega)
      have ed : dest + (count - 1) = dest + count - 1 + 0 := by omega
      have es : src + b = src + (b + 1) - 1 + 0 := by omega
      rw [ed, es]
      exact hfirst
  | succ n =>
      rw [Nat.mul_succ] at hsplit ⊢
      refine ⟨w * n + a, by omega, ?_⟩
      have hfirst := copyDown_first
        (dest + count - 1 - a) (src + (w * n + w) - w) n
        (copyDown 1 a (dest + count - 1) (src + a - 1) mem)
        ha (by omega)
      have htail := movedTail_copyDown (dest + count - a) src a
        (by omega) a (Nat.le_refl a) (movedTail_self mem _ _ a)
      have hframe := htail.frame (src + (w * n + a)) (Or.inl (by omega))
      have ed : dest + (count - 1) = dest + count - 1 - a + a := by omega
      have es : src + (w * n + w) - w + a = src + (w * n + a) := by omega
      have et : dest + count - a + a - 1 = dest + count - 1 := by omega
      rw [et] at hframe
      rw [ed, hfirst, es]
      exact hframe

/-- The byte-wise backward path is a faithful move. -/
theorem memmoveBackwards_bytes
    (dest src count : Nat) (mem : Memory)
    (hsrc : 0 < src) (hlt : src < dest) (hover : dest < src + count)
    (hodd : (dest - src) % 2 = 1)
    (hdestEnd : dest + count < 2 ^ 64) :
    ∃ mem', Returns (memmoveBackwards dest src count mem) (dest, mem') ∧
      Moved mem dest src count mem' := by
  have hparity : (dest + count) % 2 ≠ (src + count) % 2 := by omega
  refine ⟨copyDown 1 count (dest + count - 1) (src + count - 1) mem,
    ⟨count + 1, fun fuel hfuel => ?_⟩, ?_⟩
  · unfold memmoveBackwards
    rw [u64_of_lt hdestEnd, u64_of_lt (n := src + count) (by omega)]
    dsimp only
    rw [if_neg (by omega), if_neg (by omega), if_neg (by omega),
      sub64_of_le (a := dest + count) (by omega) (by omega),
      sub64_of_le (a := src + count) (by omega) (by omega)]
    have hrun := copyBackwards_run src Nat.zero_lt_one (by omega) count
      (dest + count - 1) fuel mem
      (by omega) (by omega) (by omega) (by omega)
    rw [Nat.one_mul] at hrun
    simp only [hrun, Option.bind_eq_bind, Option.bind_some, Option.pure_def]
  · have htail := movedTail_copyDown dest src count (by omega)
      count (Nat.le_refl count) (movedTail_self mem dest src count)
    exact
      { copied := fun i hi => htail.copied i (Nat.zero_le i) hi
        frame := fun a ha => htail.frame a (by omega) }

/-- At an even distance some word-wise backward path is selected. -/
theorem memmoveBackwards_last
    {dest src count ret : Nat} {mem mem' : Memory}
    (hsrc : 0 < src) (hlt : src < dest) (hover : dest < src + count)
    (heven : (dest - src) % 2 = 0)
    (hdestEnd : dest + count < 2 ^ 64)
    (h : Returns (memmoveBackwards dest src count mem) (ret, mem')) :
    ∃ t, t + 1 < count ∧ mem' (dest + (count - 1)) = mem (src + t) := by
  unfold memmoveBackwards at h
  rw [u64_of_lt hdestEnd, u64_of_lt (n := src + count) (by omega)] at h
  dsimp only at h
  split_ifs at h with h8 h4 h2
  · exact memmoveAlignedBackwards_last (by omega) h8.2 hsrc (by omega)
      hdestEnd h
  · exact memmoveAlignedBackwards_last (by omega) h4.2 hsrc (by omega)
      hdestEnd h
  · exact memmoveAlignedBackwards_last (by omega) h2.2 hsrc (by omega)
      hdestEnd h
  · clear h8 h4
    omega

/-- A word-wise backward path fails on the memory that is zero except for the
last source byte. -/
theorem memmoveBackwards_words
    (dest src count : Nat)
    (hsrc : 0 < src) (hlt : src < dest) (hover : dest < src + count)
    (heven : (dest - src) % 2 = 0)
    (hdestEnd : dest + count < 2 ^ 64) :
    ∃ mem, ∀ ret mem',
      Returns (memmoveBackwards dest src count mem) (ret, mem') →
      ¬ Moved mem dest src count mem' := by
  refine ⟨fun a => if a = src + (count - 1) then 1 else 0,
    fun ret mem' hret hmoved => ?_⟩
  obtain ⟨t, ht, hbyte⟩ :=
    memmoveBackwards_last hsrc hlt hover heven hdestEnd hret
  have hcopied := hmoved.copied (count - 1) (by omega)
  rw [hcopied, if_pos rfl, if_neg (by omega)] at hbyte
  exact absurd hbyte (by decide)

/-- A forward path fails on an overlap from below: the memory that is zero
except for the first source byte is repeated at the overlap distance. -/
theorem memcpyForwards_overlap
    (dest src count : Nat)
    (hsrc : 0 < src) (hlt : src < dest) (hover : dest < src + count)
    (hdestEnd : dest + count ≤ 2 ^ 64) :
    ∃ mem, ∀ ret mem',
      Returns (memcpyForwards dest src count mem) (ret, mem') →
      ¬ Moved mem dest src count mem' := by
  refine ⟨fun a => if a = src then 1 else 0, fun ret mem' hret hmoved => ?_⟩
  obtain ⟨mem'', hret', hresult⟩ :=
    memcpyForwards_result (fun a => if a = src then (1 : UInt8) else 0)
      hsrc (by omega) hdestEnd (by omega)
  have hsame : mem' = mem'' := (Prod.mk.inj (hret.unique hret')).2
  subst hsame
  have hecho := (hresult.echo hlt).at_distance hlt hover
  have hcopied := hmoved.copied (dest - src) (by omega)
  rw [hcopied, if_pos rfl, if_neg (by omega)] at hecho
  exact absurd hecho (by decide)

section Dispatch

variable {dest src count : Nat}
  (hargs : ¬ (dest = 0 ∨ src = 0 ∨ count = 0)) (hne : src ≠ dest)
include hargs hne

theorem memcpy_returns_memmove
    (hover : OverlapsFromBelow dest src count) (mem : Memory) (r : Nat × Memory) :
    Returns (memcpy dest src count mem) r ↔
      Returns (memmove dest src count mem) r := by
  apply returns_iff_of_succ
  intro fuel
  rw [memcpy, if_neg hargs, if_neg hne, if_pos hover]

theorem memcpy_returns_forwards
    (hover : ¬ OverlapsFromBelow dest src count) (mem : M)
    (r : Nat × M) :
    Returns (memcpy dest src count mem) r ↔
      Returns (memcpyForwards dest src count mem) r := by
  apply returns_iff_of_succ
  intro fuel
  rw [memcpy, if_neg hargs, if_neg hne, if_neg hover]

theorem memmove_returns_memcpy
    (hforward : u64 (src + count) ≤ dest ∨ src ≥ u64 (dest + count) ∨ dest < src)
    (mem : Memory) (r : Nat × Memory) :
    Returns (memmove dest src count mem) r ↔
      Returns (memcpy dest src count mem) r := by
  apply returns_iff_of_succ
  intro fuel
  rw [memmove, if_neg hargs, if_neg hne]
  split_ifs <;> first | rfl | omega

theorem memmove_returns_backwards
    (hover : OverlapsFromBelow dest src count) (mem : Memory) (r : Nat × Memory) :
    Returns (memmove dest src count mem) r ↔
      Returns (memmoveBackwards dest src count mem) r := by
  apply returns_iff_of_succ
  intro fuel
  rw [memmove, if_neg hargs, if_neg hne, if_neg (by omega),
    if_neg (by omega)]

end Dispatch

/-- The call returns `dest` and has moved the bytes as a copy through a
temporary buffer would. -/
def MovesBytes (f : Nat → Option (Nat × Memory))
    (dest src count : Nat) (mem : Memory) : Prop :=
  ∃ mem', Returns f (dest, mem') ∧ Moved mem dest src count mem'

/-- The destination does not start strictly inside the source, or it does at an
odd distance and ends below the end of the address space. -/
def MoveSafe (dest src count : Nat) : Prop :=
  dest ≤ src ∨ src + count ≤ dest ∨
    ((dest - src) % 2 = 1 ∧ dest + count < 2 ^ 64)

/-- Outside the bad overlaps both functions reach a faithful copy. -/
theorem moves_of_moveSafe
    (dest src count : Nat)
    (hdest : dest ≠ 0) (hsrc : src ≠ 0)
    (hdestEnd : dest + count ≤ 2 ^ 64) (hsrcEnd : src + count ≤ 2 ^ 64)
    (hsafe : MoveSafe dest src count) (mem : Memory) :
    MovesBytes (memmove dest src count mem) dest src count mem ∧
      MovesBytes (memcpy dest src count mem) dest src count mem := by
  unfold MoveSafe at hsafe
  by_cases hcount : count = 0
  · subst hcount
    have hself := moved_zero mem dest src
    constructor
    · exact ⟨mem, (returns_iff_of_succ (fun fuel => by
        rw [memmove, if_pos (by omega)])).2 (returns_pure _), hself⟩
    · exact ⟨mem, (returns_iff_of_succ (fun fuel => by
        rw [memcpy, if_pos (by omega)])).2 (returns_pure _), hself⟩
  have hargs : ¬ (dest = 0 ∨ src = 0 ∨ count = 0) := by omega
  by_cases hne : src = dest
  · subst hne
    have hself : Moved mem src src count mem := ⟨fun _ _ => rfl, fun _ _ => rfl⟩
    constructor
    · exact ⟨mem, (returns_iff_of_succ (fun fuel => by
        rw [memmove, if_neg hargs, if_pos rfl])).2 (returns_pure _), hself⟩
    · exact ⟨mem, (returns_iff_of_succ (fun fuel => by
        rw [memcpy, if_neg hargs, if_pos rfl])).2 (returns_pure _), hself⟩
  by_cases hforward : dest ≤ src ∨ src + count ≤ dest
  · -- both functions end in the forward paths
    have hover : ¬ OverlapsFromBelow dest src count := by
      unfold OverlapsFromBelow u64
      omega
    obtain ⟨mem', hret, hresult⟩ :=
      memcpyForwards_result mem (by omega) (by omega) hdestEnd hsrcEnd
    have hcpy := (memcpy_returns_forwards hargs hne hover mem _).2 hret
    have hdispatch :
        u64 (src + count) ≤ dest ∨ src ≥ u64 (dest + count) ∨ dest < src := by
      unfold u64
      omega
    have hmove := (memmove_returns_memcpy hargs hne hdispatch mem _).2 hcpy
    exact ⟨⟨mem', hmove, hresult.moved hforward⟩,
      ⟨mem', hcpy, hresult.moved hforward⟩⟩
  · have hover : OverlapsFromBelow dest src count := by
      unfold OverlapsFromBelow u64
      omega
    obtain ⟨mem', hret, hmoved⟩ := memmoveBackwards_bytes dest src count
      mem (by omega) (by omega) (by omega)
      (by omega) (by omega)
    have hmove := (memmove_returns_backwards hargs hne hover mem _).2 hret
    have hcpy := (memcpy_returns_memmove hargs hne hover mem _).2 hmove
    exact ⟨⟨mem', hmove, hmoved⟩, ⟨mem', hcpy, hmoved⟩⟩

/-- On a bad overlap one memory content defeats both functions. -/
theorem not_moves_of_not_moveSafe
    (dest src count : Nat)
    (hsrc : src ≠ 0)
    (hdestEnd : dest + count ≤ 2 ^ 64)
    (hbad : ¬ MoveSafe dest src count) :
    ∃ mem, ¬ MovesBytes (memmove dest src count mem) dest src count mem ∧
      ¬ MovesBytes (memcpy dest src count mem) dest src count mem := by
  unfold MoveSafe at hbad
  have hargs : ¬ (dest = 0 ∨ src = 0 ∨ count = 0) := by omega
  have hne : src ≠ dest := by omega
  by_cases htop : dest + count = 2 ^ 64
  · -- the end of the destination wraps to zero and hides the overlap
    have hover : ¬ OverlapsFromBelow dest src count := by
      unfold OverlapsFromBelow u64
      omega
    have hdispatch :
        u64 (src + count) ≤ dest ∨ src ≥ u64 (dest + count) ∨ dest < src := by
      unfold u64
      omega
    obtain ⟨mem, hmem⟩ := memcpyForwards_overlap dest src count
      (by omega) (by omega) (by omega) hdestEnd
    have hcpy : ¬ MovesBytes (memcpy dest src count mem) dest src count mem := by
      rintro ⟨mem', hret, hmoved⟩
      exact hmem _ _
        ((memcpy_returns_forwards hargs hne hover mem _).1 hret) hmoved
    refine ⟨mem, ?_, hcpy⟩
    rintro ⟨mem', hret, hmoved⟩
    exact hcpy ⟨mem',
      (memmove_returns_memcpy hargs hne hdispatch mem _).1 hret, hmoved⟩
  · have hover : OverlapsFromBelow dest src count := by
      unfold OverlapsFromBelow u64
      omega
    obtain ⟨mem, hmem⟩ := memmoveBackwards_words dest src count
      (by omega) (by omega) (by omega) (by omega) (by omega)
    have hmove :
        ¬ MovesBytes (memmove dest src count mem) dest src count mem := by
      rintro ⟨mem', hret, hmoved⟩
      exact hmem _ _
        ((memmove_returns_backwards hargs hne hover mem _).1 hret) hmoved
    refine ⟨mem, hmove, ?_⟩
    rintro ⟨mem', hret, hmoved⟩
    exact hmove ⟨mem',
      (memcpy_returns_memmove hargs hne hover mem _).1 hret, hmoved⟩

/-- **Exactly when the two functions move every memory content**: unless the
destination starts strictly inside the source at an even distance, or the
overlapped destination ends at the end of the address space. -/
theorem memmove_memcpy_moves_iff
    (dest src count : Nat)
    (hdest : dest ≠ 0) (hsrc : src ≠ 0)
    (hdestEnd : dest + count ≤ 2 ^ 64) (hsrcEnd : src + count ≤ 2 ^ 64) :
    ((∀ mem, MovesBytes (memmove dest src count mem) dest src count mem) ↔
        MoveSafe dest src count) ∧
      ((∀ mem, MovesBytes (memcpy dest src count mem) dest src count mem) ↔
        MoveSafe dest src count) := by
  have hgood := moves_of_moveSafe dest src count hdest hsrc hdestEnd hsrcEnd
  have hbad := not_moves_of_not_moveSafe dest src count hsrc hdestEnd
  constructor
  · refine ⟨fun hall => ?_, fun hsafe mem => (hgood hsafe mem).1⟩
    by_contra hnot
    obtain ⟨mem, hmove, _⟩ := hbad hnot
    exact hmove (hall mem)
  · refine ⟨fun hall => ?_, fun hsafe mem => (hgood hsafe mem).2⟩
    by_contra hnot
    obtain ⟨mem, _, hcpy⟩ := hbad hnot
    exact hcpy (hall mem)

/-- The distance 3 of an overlapping move is odd, so `memmove` and `memcpy` agree
with the reference there. -/
theorem memmove_memcpy_moves_iff_distance_three :
    (∀ mem, MovesBytes (memmove 4099 4096 16 mem) 4099 4096 16 mem) ∧
      ∀ mem, MovesBytes (memcpy 4099 4096 16 mem) 4099 4096 16 mem := by
  have h := memmove_memcpy_moves_iff 4099 4096 16
    (by decide) (by decide) (by decide) (by decide)
  exact ⟨h.1.2 (by unfold MoveSafe; decide), h.2.2 (by unfold MoveSafe; decide)⟩

/-- Moving 16 bytes up by 8 bytes in the memory that holds the low byte of every
address: the last byte of the destination comes from the middle of the source. -/
theorem memmove_memcpy_distance_eight_wrong :
    ¬ MovesBytes (memmove 4104 4096 16 UInt8.ofNat) 4104 4096 16 UInt8.ofNat ∧
      ¬ MovesBytes (memcpy 4104 4096 16 UInt8.ofNat) 4104 4096 16
        UInt8.ofNat := by
  have hover : OverlapsFromBelow 4104 4096 16 := by decide
  have hargs : ¬ (4104 = 0 ∨ 4096 = 0 ∨ 16 = 0) := by decide
  have hne : 4096 ≠ 4104 := by decide
  have hmove :
      ¬ MovesBytes (memmove 4104 4096 16 UInt8.ofNat) 4104 4096 16
        UInt8.ofNat := by
    rintro ⟨mem', hret, hmoved⟩
    obtain ⟨t, ht, hbyte⟩ := memmoveBackwards_last (by decide) (by decide)
      (by decide) (by decide) (by decide)
      ((memmove_returns_backwards hargs hne hover _ _).1 hret)
    rw [hmoved.copied (16 - 1) (by decide)] at hbyte
    have hvalue := congrArg UInt8.toNat hbyte
    rw [UInt8.toNat_ofNat', UInt8.toNat_ofNat'] at hvalue
    omega
  refine ⟨hmove, ?_⟩
  rintro ⟨mem', hret, hmoved⟩
  exact hmove ⟨mem', (memcpy_returns_memmove hargs hne hover _ _).1 hret, hmoved⟩

end KstdlibString

section Loads

/-- The regions are disjoint, or the destination starts below the source. -/
def CopySafe (dest src count : Nat) : Prop :=
  dest + count ≤ src ∨ src + count ≤ dest ∨ dest < src

/-- The call returns `dest` and has moved the bytes, and the same run on a memory that
records its loads has only loaded bytes of the source. -/
def CopiesExactly (dest src count : Nat) (mem : Memory) : Prop :=
  ∃ mem' loads,
    Returns (memcpy dest src count mem) (dest, mem') ∧
    Returns (memcpy dest src count (⟨mem, []⟩ : LoggedMemory)) (dest, ⟨mem', loads⟩) ∧
    Moved mem dest src count mem' ∧
    ∀ a, a ∈ loads → src ≤ a ∧ a < src + count

/-- The three parts of a forward copy load bytes of the source only. -/
theorem loads_copyParts
    {dest src count w a n r : Nat} (h : ForwardSplit dest src count w a n r)
    (mem : Memory) {b : Nat}
    (hb : b ∈ (copyParts w a n r dest src (⟨mem, []⟩ : LoggedMemory)).loads) :
    src ≤ b ∧ b < src + count := by
  have htotal := h.total
  unfold copyParts at hb
  rcases loads_copyUp r hb with hb | hb
  · rcases loads_copyUp n hb with hb | hb
    · rcases loads_copyUp a hb with hb | hb
      · exact absurd hb List.not_mem_nil
      · exact ⟨hb.1, by omega⟩
    · exact ⟨by omega, by omega⟩
  · exact ⟨by omega, by omega⟩

/-- **`memcpy` copies exactly**: every byte arrives, no other byte changes, and nothing
outside of the source is read. -/
theorem memcpy_copies_exactly
    (dest src count : Nat)
    (hdest : dest ≠ 0) (hsrc : src ≠ 0)
    (hdestEnd : dest + count ≤ 2 ^ 64) (hsrcEnd : src + count ≤ 2 ^ 64)
    (hsafe : CopySafe dest src count) (mem : Memory) :
    CopiesExactly dest src count mem := by
  unfold CopySafe at hsafe
  by_cases hcount : count = 0
  · subst hcount
    refine ⟨mem, [], ?_, ?_, moved_zero mem dest src, fun a ha => absurd ha List.not_mem_nil⟩
    · exact (returns_iff_of_succ (fun fuel => by
        rw [memcpy, if_pos (by omega)])).2 (returns_pure _)
    · exact (returns_iff_of_succ (fun fuel => by
        rw [memcpy, if_pos (by omega)])).2 (returns_pure _)
  · have hargs : ¬ (dest = 0 ∨ src = 0 ∨ count = 0) := by omega
    have hne : src ≠ dest := by omega
    have hover : ¬ OverlapsFromBelow dest src count := by
      unfold OverlapsFromBelow u64
      omega
    obtain ⟨w, a, n, r, hsplit, hrun⟩ :=
      memcpyForwards_run (Nat.pos_of_ne_zero hsrc) (Nat.pos_of_ne_zero hcount)
        hdestEnd hsrcEnd
    have hlogged := hrun (⟨mem, []⟩ : LoggedMemory)
    have hbytes : (copyParts w a n r dest src (⟨mem, []⟩ : LoggedMemory)).mem =
        copyParts w a n r dest src mem := by
      unfold copyParts
      rw [copyUp_mem, copyUp_mem, copyUp_mem]
    have hpair : copyParts w a n r dest src (⟨mem, []⟩ : LoggedMemory) =
        ⟨copyParts w a n r dest src mem,
          (copyParts w a n r dest src (⟨mem, []⟩ : LoggedMemory)).loads⟩ := by
      rw [← hbytes]
    rw [hpair] at hlogged
    exact ⟨_, _, (memcpy_returns_forwards hargs hne hover mem _).2 (hrun mem),
      (memcpy_returns_forwards hargs hne hover _ _).2 hlogged,
      (hsplit.result mem).moved (by omega), fun b hb => loads_copyParts hsplit mem hb⟩

/-- An overlapping copy of 16 bytes down by 3 bytes, which takes the byte-wise path. -/
theorem memcpy_copies_exactly_distance_three :
    CopiesExactly 4096 4099 16 UInt8.ofNat :=
  memcpy_copies_exactly 4096 4099 16 (by decide) (by decide) (by decide) (by decide)
    (by unfold CopySafe; decide) UInt8.ofNat

end Loads

end KstdlibString
end DexprOS
