import DexprOS.Library.WordMemory
import DexprOS.Kernel.KstdlibString

/-!
# Kernel string.c: memcmp

Alignment bytes, words of 8, 4 or 2 bytes and remaining bytes, or single bytes where the
residues of the two addresses never agree.  Two words that differ are looked through byte by
byte, lowest address first.

Main facts:
* `compareUnits_run`: a loop over units finds the first difference of its bytes;
* `andThen_run`: blocks that follow each other find the first difference of all;
* `memcmp_run`: every path computes the difference of the bytes;
* `memcmp_first_difference`: the result is decided by the first bytes that differ.
-/

namespace DexprOS
namespace KstdlibString

open Fuel ByteCopy ByteWords

universe u

section Memcmp

variable {M : Type u} [WordMemory M]

/-- The two moving pointers of a loop of `memcmp` and the memory. -/
structure CompareState (M : Type u) where
  pLhs : Nat
  pRhs : Nat
  mem : M

/-- A block returns a difference or is left with its pointers at the end. -/
inductive Compared (M : Type u) where
  | differ (difference : Int) (mem : M)
  | equal (s : CompareState M)

/-- `if (*pLhs != *pRhs) return ((int)*pLhs) - ((int)*pRhs);` on bytes; the state that is
given back has the same pointers. -/
def compareByte (s : CompareState M) : Compared M :=
  let (l, mem₁) := WordMemory.load 1 s.pLhs s.mem
  let (r, mem₂) := WordMemory.load 1 s.pRhs mem₁
  if l ≠ r then .differ ((l : Int) - r) mem₂ else .equal { s with mem := mem₂ }

/-- The bytes of two words from the first one on, `n` of them. -/
def compareBytesOfWord : Nat → CompareState M → Compared M
  | 0, s => .equal s
  | n + 1, s =>
      match compareByte s with
      | .differ difference mem => .differ difference mem
      | .equal s' =>
          compareBytesOfWord n ⟨u64 (s'.pLhs + 1), u64 (s'.pRhs + 1), s'.mem⟩

/-- The body of a loop over words of `w` bytes. -/
def compareWord (w : Nat) (s : CompareState M) : Compared M :=
  let (l, mem₁) := WordMemory.load w s.pLhs s.mem
  let (r, mem₂) := WordMemory.load w s.pRhs mem₁
  if l ≠ r then
    match compareBytesOfWord w { s with mem := mem₂ } with
    | .differ difference mem => .differ difference mem
    | .equal s' => .equal { s with mem := s'.mem }
  else .equal { s with mem := mem₂ }

/-- One pass of `for (; goesOn; ++pLhs, ++pRhs) body` on units of `w` bytes. -/
def comparePass (w : Nat) (goesOn : Nat → Bool) (body : CompareState M → Compared M)
    (s : CompareState M) : Pass (CompareState M) (Compared M) :=
  if goesOn s.pLhs then
    match body s with
    | .differ difference mem => .leave (.differ difference mem)
    | .equal s' => .again ⟨u64 (s'.pLhs + w), u64 (s'.pRhs + w), s'.mem⟩
  else
    .leave (.equal s)

/-- `for (; pLhs != pLhsEnd; ++pLhs, ++pRhs)` over bytes. -/
def compareBytes (pLhsEnd : Nat) (s : CompareState M) (fuel : Nat) : Option (Compared M) :=
  forever (comparePass 1 (fun pLhs => pLhs != pLhsEnd) compareByte) fuel s

/-- `for (; pLhs != pLhsEnd; ++pLhs, ++pRhs)` over words. -/
def compareWords (w pLhsEnd : Nat) (s : CompareState M) (fuel : Nat) : Option (Compared M) :=
  forever (comparePass w (fun pLhs => pLhs != pLhsEnd) (compareWord w)) fuel s

/-- `for (; pLHS < pLHSEnd; pLHS += 1, pRHS += 1)`. -/
def compareBytesBelow (pLhsEnd : Nat) (s : CompareState M) (fuel : Nat) :
    Option (Compared M) :=
  forever (comparePass 1 (fun pLhs => decide (pLhs < pLhsEnd)) compareByte) fuel s

/-- A block follows if the one before has not returned. -/
def Compared.andThen (first : Option (Compared M))
    (next : CompareState M → Option (Compared M)) : Option (Compared M) :=
  match first with
  | none => none
  | some (.differ difference mem) => some (.differ difference mem)
  | some (.equal s) => next s

/-- The three blocks for `w` = 8, 4, 2: alignment bytes, words, remaining bytes. -/
def memcmpAligned (w lhs rhs count : Nat) (mem : M) (fuel : Nat) : Option (Compared M) :=
  let numAlignBytes := lhs % w
  let numRemBytes := (count - numAlignBytes) % w
  Compared.andThen (compareBytes (u64 (lhs + numAlignBytes)) ⟨lhs, rhs, mem⟩ fuel) fun s =>
    Compared.andThen
      (compareWords w (u64 (s.pLhs + w * ((count - numAlignBytes) / w))) s fuel) fun s =>
        compareBytes (u64 (s.pLhs + numRemBytes)) s fuel

/-- What `memcmp` returns, with the memory after its loads. -/
def Compared.result : Compared M → Int × M
  | .differ difference mem => (difference, mem)
  | .equal s => (0, s.mem)

def memcmp (lhs rhs count : Nat) (mem : M) (fuel : Nat) : Option (Int × M) :=
  if lhs = 0 ∨ rhs = 0 then some (0, mem)
  else if count = 0 ∨ lhs = rhs then some (0, mem)
  else if lhs % 8 = rhs % 8 ∧ count ≥ 8 then
    (memcmpAligned 8 lhs rhs count mem fuel).map Compared.result
  else if lhs % 4 = rhs % 4 ∧ count ≥ 4 then
    (memcmpAligned 4 lhs rhs count mem fuel).map Compared.result
  else if lhs % 2 = rhs % 2 ∧ count ≥ 2 then
    (memcmpAligned 2 lhs rhs count mem fuel).map Compared.result
  else
    (compareBytesBelow (u64 (lhs + count)) ⟨lhs, rhs, mem⟩ fuel).map Compared.result

end Memcmp

section Bodies

/-- Difference of the `n` bytes at `p` and at `q`. -/
def bytesDifference (mem : Memory) (p q n : Nat) : Int :=
  byteDifference (fun i => mem (p + i)) (fun i => mem (q + i)) n

/-- A body returns the difference of `w` bytes unless they are equal. -/
def ComparesUnits (w : Nat) (body : CompareState Memory → Compared Memory) : Prop :=
  ∀ (mem : Memory) (p q : Nat), p + w ≤ 2 ^ 64 → q + w ≤ 2 ^ 64 →
    body ⟨p, q, mem⟩ =
      if bytesDifference mem p q w = 0 then .equal ⟨p, q, mem⟩
      else .differ (bytesDifference mem p q w) mem

theorem bytesDifference_one
    (mem : Memory) (p q : Nat) :
    bytesDifference mem p q 1 = ((mem p).toNat : Int) - (mem q).toNat := by
  by_cases hbyte : mem p = mem q
  · simp [bytesDifference, byteDifference, hbyte]
  · simp [bytesDifference, byteDifference, hbyte]

theorem comparesUnits_byte :
    ComparesUnits 1 compareByte := by
  intro mem p q _ _
  simp only [compareByte, load_memory, wordAt_one, bytesDifference_one]
  by_cases hbyte : (mem p).toNat = (mem q).toNat
  · rw [if_neg (by simpa using hbyte), if_pos (by omega)]
  · rw [if_pos hbyte, if_neg (by omega)]

/-- Two pieces of a range. -/
theorem bytesDifference_add
    (mem : Memory) (p q m n : Nat) :
    bytesDifference mem p q (m + n) =
      if bytesDifference mem p q m = 0 then bytesDifference mem (p + m) (q + m) n
      else bytesDifference mem p q m := by
  simp only [bytesDifference, byteDifference_add m n, Nat.add_assoc]

/-- The byte-wise look at two words; the pointers of the caller are not moved by it. -/
theorem compareBytesOfWord_run
    (mem : Memory) (n : Nat) :
    ∀ p q : Nat, p + n ≤ 2 ^ 64 → q + n ≤ 2 ^ 64 →
      compareBytesOfWord n ⟨u64 p, u64 q, mem⟩ =
        if bytesDifference mem p q n = 0 then .equal ⟨u64 (p + n), u64 (q + n), mem⟩
        else .differ (bytesDifference mem p q n) mem := by
  induction n with
  | zero =>
      intro p q _ _
      simp [compareBytesOfWord, bytesDifference, byteDifference]
  | succ n ih =>
      intro p q hp hq
      have hrest := ih (p + 1) (q + 1) (by omega) (by omega)
      rw [compareBytesOfWord, u64_of_lt (show p < 2 ^ 64 by omega),
        u64_of_lt (show q < 2 ^ 64 by omega), comparesUnits_byte mem p q (by omega) (by omega),
        Nat.add_comm n 1, bytesDifference_add]
      by_cases hfirst : bytesDifference mem p q 1 = 0
      · simp only [if_pos hfirst, hrest, Nat.add_assoc]
      · simp only [if_neg hfirst]

/-- Words differ exactly when their bytes do. -/
theorem comparesUnits_word
    (w : Nat) :
    ComparesUnits w (compareWord w) := by
  intro mem p q hp hq
  have hwords : wordAt mem w p = wordAt mem w q ↔ bytesDifference mem p q w = 0 := by
    rw [wordAt_eq_iff, bytesDifference, byteDifference_eq_zero_iff]
  simp only [compareWord, load_memory]
  by_cases hequal : bytesDifference mem p q w = 0
  · rw [if_neg (by simpa using hwords.mpr hequal), if_pos hequal]
  · have hne : wordAt mem w p ≠ wordAt mem w q := fun h => hequal (hwords.mp h)
    have hpositive : 0 < w := by
      rcases Nat.eq_zero_or_pos w with rfl | hpositive
      · exact absurd rfl hne
      · exact hpositive
    have hlook := compareBytesOfWord_run mem w p q hp hq
    rw [u64_of_lt (by omega), u64_of_lt (by omega), if_neg hequal] at hlook
    rw [if_pos hne, if_neg hequal, hlook]

end Bodies

section Loops

/-- Outcome of comparing `n` bytes from two addresses on. -/
def comparedBytes (mem : Memory) (p q n : Nat) : Compared Memory :=
  if bytesDifference mem p q n = 0 then .equal ⟨p + n, u64 (q + n), mem⟩
  else .differ (bytesDifference mem p q n) mem

/-- A loop over `n` units finds the first difference of its bytes. -/
theorem compareUnits_run
    {w : Nat} (pEnd : Nat) (goesOn : Nat → Bool)
    {body : CompareState Memory → Compared Memory}
    (hbody : ComparesUnits w body)
    (hgoesOn : ∀ pLhs, pLhs < pEnd → goesOn pLhs = true)
    (hstop : goesOn pEnd = false)
    (hpositive : 0 < w) (hend : pEnd < 2 ^ 64)
    (mem : Memory) (n : Nat) :
    ∀ p q fuel : Nat, p + w * n = pEnd → q + w * n ≤ 2 ^ 64 → n < fuel →
      forever (comparePass w goesOn body) fuel ⟨p, u64 q, mem⟩ =
        some (comparedBytes mem p q (w * n)) := by
  induction n with
  | zero =>
      intro p q fuel hp hq hfuel
      rcases Nat.exists_eq_add_of_lt hfuel with ⟨m, rfl⟩
      rw [Nat.mul_zero, Nat.add_zero] at hp
      apply forever_leave
      simp [comparePass, hp, hstop, comparedBytes, bytesDifference, byteDifference]
  | succ n ih =>
      intro p q fuel hp hq hfuel
      rw [Nat.mul_succ] at hp hq
      rcases Nat.exists_eq_add_of_lt hfuel with ⟨m, rfl⟩
      have hgo := hgoesOn p (by omega)
      have hunit := hbody mem p q (by omega) (by omega)
      have hword : w * (n + 1) = w + w * n := by
        rw [Nat.mul_succ, Nat.add_comm]
      rw [u64_of_lt (show q < 2 ^ 64 by omega), comparedBytes, hword, bytesDifference_add]
      by_cases hfirst : bytesDifference mem p q w = 0
      · have hpass : comparePass w goesOn body ⟨p, q, mem⟩ =
            .again ⟨p + w, u64 (q + w), mem⟩ := by
          simp only [comparePass, hgo, hunit, if_pos hfirst, if_true,
            u64_of_lt (show p + w < 2 ^ 64 by omega)]
        rw [forever_again hpass, ih (p + w) (q + w) _ (by omega) (by omega) (by omega),
          if_pos hfirst, comparedBytes, ← Nat.add_assoc, ← Nat.add_assoc]
      · have hpass : comparePass w goesOn body ⟨p, q, mem⟩ =
            .leave (.differ (bytesDifference mem p q w) mem) := by
          simp only [comparePass, hgo, hunit, if_neg hfirst, if_true]
        rw [forever_leave hpass, if_neg hfirst, if_neg hfirst]

/-- Blocks that follow each other find the first difference of all of them. -/
theorem andThen_run
    (mem : Memory) {p q m n : Nat} {next : CompareState Memory → Option (Compared Memory)}
    (hnext : next ⟨p + m, u64 (q + m), mem⟩ = some (comparedBytes mem (p + m) (q + m) n)) :
    Compared.andThen (some (comparedBytes mem p q m)) next =
      some (comparedBytes mem p q (m + n)) := by
  rw [comparedBytes, comparedBytes, bytesDifference_add]
  by_cases hfirst : bytesDifference mem p q m = 0
  · simp only [Compared.andThen, if_pos hfirst, hnext, comparedBytes, Nat.add_assoc]
  · simp only [Compared.andThen, if_neg hfirst]

theorem compareBytes_run
    (mem : Memory) {p q n fuel : Nat}
    (hp : p + n < 2 ^ 64) (hq : q + n ≤ 2 ^ 64) (hfuel : n < fuel) :
    compareBytes (u64 (p + n)) ⟨p, u64 q, mem⟩ fuel = some (comparedBytes mem p q n) := by
  have hrun := compareUnits_run (p + n) (fun pLhs => pLhs != p + n)
    comparesUnits_byte (fun pLhs hlt => by simpa using Nat.ne_of_lt hlt) (by simp) Nat.one_pos hp
    mem n p q fuel (by omega) (by omega) hfuel
  rw [Nat.one_mul] at hrun
  rw [compareBytes, u64_of_lt hp, hrun]

theorem compareWords_run
    (mem : Memory) {w p q n fuel : Nat} (hw : 0 < w)
    (hp : p + w * n < 2 ^ 64) (hq : q + w * n ≤ 2 ^ 64) (hfuel : n < fuel) :
    compareWords w (u64 (p + w * n)) ⟨p, u64 q, mem⟩ fuel =
      some (comparedBytes mem p q (w * n)) := by
  have hrun := compareUnits_run (p + w * n) (fun pLhs => pLhs != p + w * n)
    (comparesUnits_word w) (fun pLhs hlt => by simpa using Nat.ne_of_lt hlt) (by simp) hw hp
    mem n p q fuel rfl hq hfuel
  rw [compareWords, u64_of_lt hp, hrun]

theorem compareBytesBelow_run
    (mem : Memory) {p q n fuel : Nat}
    (hp : p + n < 2 ^ 64) (hq : q + n ≤ 2 ^ 64) (hfuel : n < fuel) :
    compareBytesBelow (u64 (p + n)) ⟨p, u64 q, mem⟩ fuel =
      some (comparedBytes mem p q n) := by
  have hrun := compareUnits_run (p + n) (fun pLhs => decide (pLhs < p + n))
    comparesUnits_byte (fun pLhs hlt => by simpa using hlt) (by simp) Nat.one_pos hp
    mem n p q fuel (by omega) (by omega) hfuel
  rw [Nat.one_mul] at hrun
  rw [compareBytesBelow, u64_of_lt hp, hrun]

/-- Alignment bytes, words and remaining bytes cover the range once. -/
theorem memcmpAligned_run
    (mem : Memory) {w lhs rhs count fuel : Nat}
    (hw : 0 < w) (hcount : w ≤ count)
    (hlhs : lhs + count < 2 ^ 64) (hrhs : rhs + count ≤ 2 ^ 64) (hfuel : count < fuel) :
    memcmpAligned w lhs rhs count mem fuel = some (comparedBytes mem lhs rhs count) := by
  have hresidue := Nat.mod_lt lhs hw
  have hsplit := Nat.div_add_mod (count - lhs % w) w
  have hwords : (count - lhs % w) / w ≤ count - lhs % w := Nat.div_le_self _ _
  rw [memcmpAligned]
  generalize lhs % w = a at *
  generalize hn : (count - a) / w = n at *
  generalize hr : (count - a) % w = r at *
  have htotal : count = a + (w * n + r) := by omega
  have hrest : Compared.andThen
      (compareWords w (u64 (lhs + a + w * n)) ⟨lhs + a, u64 (rhs + a), mem⟩ fuel)
      (fun s => compareBytes (u64 (s.pLhs + r)) s fuel) =
        some (comparedBytes mem (lhs + a) (rhs + a) (w * n + r)) := by
    have hrem := compareBytes_run mem (p := lhs + a + w * n) (q := rhs + a + w * n) (n := r)
      (by omega) (by omega) (show r < fuel by omega)
    rw [compareWords_run mem hw (by omega) (by omega) (by omega)]
    exact andThen_run mem hrem
  have hfirst := compareBytes_run mem (p := lhs) (q := rhs) (n := a) (by omega)
    (by omega) (show a < fuel by omega)
  rw [u64_of_lt (show rhs < 2 ^ 64 by omega)] at hfirst
  rw [hfirst, htotal]
  exact andThen_run mem hrest

end Loops

section Result

/-- Every path computes the difference of the bytes. -/
theorem memcmp_run
    (mem : Memory) {lhs rhs count : Nat}
    (hlhs : lhs ≠ 0) (hrhs : rhs ≠ 0)
    (hlhsEnd : lhs + count < 2 ^ 64) (hrhsEnd : rhs + count ≤ 2 ^ 64) :
    Returns (memcmp lhs rhs count mem) (bytesDifference mem lhs rhs count, mem) := by
  refine ⟨count + 1, fun fuel hfuel => ?_⟩
  have hresult : (comparedBytes mem lhs rhs count).result =
      (bytesDifference mem lhs rhs count, mem) := by
    rw [comparedBytes]
    split
    · simp_all [Compared.result]
    · rfl
  rw [memcmp, if_neg (by omega)]
  split
  · rename_i hsame
    have hnone : bytesDifference mem lhs rhs count = 0 := by
      rcases hsame with rfl | rfl
      · rfl
      · exact (byteDifference_eq_zero_iff count _ _).mpr fun _ _ => rfl
    rw [hnone]
  split
  · rw [memcmpAligned_run mem (by omega) (by omega) hlhsEnd hrhsEnd hfuel, Option.map_some, hresult]
  split
  · rw [memcmpAligned_run mem (by omega) (by omega) hlhsEnd hrhsEnd hfuel, Option.map_some, hresult]
  split
  · rw [memcmpAligned_run mem (by omega) (by omega) hlhsEnd hrhsEnd hfuel, Option.map_some, hresult]
  · rename_i hpositive _ _ _
    have hrun := compareBytesBelow_run mem hlhsEnd hrhsEnd (show count < fuel from hfuel)
    rw [u64_of_lt (show rhs < 2 ^ 64 by omega)] at hrun
    rw [hrun, Option.map_some, hresult]

/-- The first bytes that differ decide, whatever the two addresses are. -/
theorem memcmp_first_difference
    (mem : Memory) (lhs rhs count : Nat)
    (hlhs : lhs ≠ 0) (hrhs : rhs ≠ 0)
    (hlhsEnd : lhs + count < 2 ^ 64) (hrhsEnd : rhs + count ≤ 2 ^ 64) :
    ∃ r : Int, Returns (memcmp lhs rhs count mem) (r, mem) ∧
      (∀ i, i < count → (∀ j, j < i → mem (lhs + j) = mem (rhs + j)) →
        mem (lhs + i) ≠ mem (rhs + i) →
        r = ((mem (lhs + i)).toNat : Int) - (mem (rhs + i)).toNat) ∧
      ((∀ i, i < count → mem (lhs + i) = mem (rhs + i)) → r = 0) ∧
      ∀ (mem' : Memory) (lhs' rhs' : Nat), lhs' ≠ 0 → rhs' ≠ 0 →
        lhs' + count < 2 ^ 64 → rhs' + count ≤ 2 ^ 64 →
        (∀ i, i < count → mem' (lhs' + i) = mem (lhs + i)) →
        (∀ i, i < count → mem' (rhs' + i) = mem (rhs + i)) →
        Returns (memcmp lhs' rhs' count mem') (r, mem') := by
  refine ⟨_, memcmp_run mem hlhs hrhs hlhsEnd hrhsEnd, ?_, ?_, ?_⟩
  · intro i hi hbefore hne
    exact byteDifference_of_first hi hbefore hne
  · exact (byteDifference_eq_zero_iff count _ _).mpr
  · intro mem' lhs' rhs' hlhs' hrhs' hlhsEnd' hrhsEnd' hl hr
    have hbytes : bytesDifference mem' lhs' rhs' count = bytesDifference mem lhs rhs count :=
      byteDifference_congr hl hr
    rw [← hbytes]
    exact memcmp_run mem' hlhs' hrhs' hlhsEnd' hrhsEnd'

/-- Two strings of 20 bytes whose addresses agree modulo 4 only. -/
theorem memcmp_first_difference_residue_four :
    ∃ r : Int, Returns (memcmp 4097 8197 20 UInt8.ofNat) (r, UInt8.ofNat) ∧
      (∀ i, i < 20 → (∀ j, j < i → UInt8.ofNat (4097 + j) = UInt8.ofNat (8197 + j)) →
        UInt8.ofNat (4097 + i) ≠ UInt8.ofNat (8197 + i) →
        r = ((UInt8.ofNat (4097 + i)).toNat : Int) - (UInt8.ofNat (8197 + i)).toNat) ∧
      ((∀ i, i < 20 → UInt8.ofNat (4097 + i) = UInt8.ofNat (8197 + i)) → r = 0) ∧
      ∀ (mem' : Memory) (lhs' rhs' : Nat), lhs' ≠ 0 → rhs' ≠ 0 →
        lhs' + 20 < 2 ^ 64 → rhs' + 20 ≤ 2 ^ 64 →
        (∀ i, i < 20 → mem' (lhs' + i) = UInt8.ofNat (4097 + i)) →
        (∀ i, i < 20 → mem' (rhs' + i) = UInt8.ofNat (8197 + i)) →
        Returns (memcmp lhs' rhs' 20 mem') (r, mem') :=
  memcmp_first_difference UInt8.ofNat 4097 8197 20 (by decide) (by decide) (by decide)
    (by decide)

end Result

end KstdlibString
end DexprOS
