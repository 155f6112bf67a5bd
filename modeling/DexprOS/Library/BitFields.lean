import Mathlib.Algebra.Group.Nat.Defs
import Mathlib.Data.List.Basic
import Mathlib.Tactic.Common

/-!
# Words assembled from bit fields

A word is or-ed together from pieces, each a value at a bit position.  Where the pieces do
not overlap, each of them is read back from the word.

Main facts:
* `extract_assemble`: a piece is read back;
* `shifted_mask_eq_place`: a shifted mask of C code places a piece of its operand.
-/

namespace DexprOS
namespace BitFields

section Pieces

variable {w : Nat}

/-- The value `v` at bit position `lo` of a word. -/
def place
    (w lo : Nat) {len : Nat} (v : BitVec len) : BitVec w :=
  v.setWidth w <<< lo

/-- A value and the position that it goes to. -/
structure Piece where
  lo : Nat
  len : Nat
  value : BitVec len

/-- The or of all the pieces, starting from zero. -/
def assemble
    (w : Nat) (pieces : List Piece) : BitVec w :=
  pieces.foldl (fun word p => word ||| place w p.lo p.value) 0#w

/-- The bits `lo` to `lo + len - 1` are outside of the piece. -/
def Piece.Avoids (p : Piece) (lo len : Nat) : Prop :=
  p.lo + p.len ≤ lo ∨ lo + len ≤ p.lo

theorem getLsbD_place
    (lo : Nat) {len : Nat} (v : BitVec len) (i : Nat) :
    (place w lo v).getLsbD i = (decide (i < w) && decide (lo ≤ i) && v.getLsbD (i - lo)) := by
  rw [place, BitVec.getLsbD_shiftLeft, BitVec.getLsbD_setWidth]
  by_cases hi : i < w
  · by_cases hlo : lo ≤ i
    · have hsub : i - lo < w := by omega
      simp [hi, hlo, hsub]
    · have hlt : i < lo := by omega
      simp [hlo, hlt]
  · simp [hi]

/-- A value that fits into the word is read back from its place. -/
theorem extract_place
    (lo : Nat) {len : Nat} (v : BitVec len)
    (hfit : lo + len ≤ w) :
    (place w lo v).extractLsb' lo len = v := by
  refine BitVec.eq_of_getLsbD_eq fun i hi => ?_
  have hlt : lo + i < w := by omega
  rw [BitVec.getLsbD_extractLsb', getLsbD_place]
  simp [hi, hlt]

/-- A word is collected from what it starts with and the bits of the pieces. -/
theorem getLsbD_foldl
    (pieces : List Piece) (start : BitVec w) (i : Nat) :
    (pieces.foldl (fun word p => word ||| place w p.lo p.value) start).getLsbD i =
      (start.getLsbD i || pieces.any fun p => (place w p.lo p.value).getLsbD i) := by
  induction pieces generalizing start with
  | nil => simp
  | cons p pieces ih =>
      rw [List.foldl_cons, ih, BitVec.getLsbD_or, List.any_cons, Bool.or_assoc]

theorem getLsbD_assemble
    (pieces : List Piece) (i : Nat) :
    (assemble w pieces).getLsbD i =
      pieces.any fun p => (place w p.lo p.value).getLsbD i := by
  rw [assemble, getLsbD_foldl]
  simp

/-- A piece has no bits where it does not lie. -/
theorem getLsbD_place_of_avoids
    {p : Piece} {lo len i : Nat}
    (h : p.Avoids lo len) (hi : i < len) :
    (place w p.lo p.value).getLsbD (lo + i) = false := by
  rw [getLsbD_place]
  rcases h with hbelow | habove
  · have hge : p.len ≤ lo + i - p.lo := by omega
    simp [BitVec.getLsbD_of_ge _ _ hge]
  · have hlt : ¬p.lo ≤ lo + i := by omega
    simp [hlt]

/-- The pieces do not overlap. -/
def Separate (pieces : List Piece) : Prop :=
  pieces.Pairwise fun p q => p.Avoids q.lo q.len

/-- A word with one piece among others that do not overlap it. -/
theorem extract_assemble_append
    {before after : List Piece} {p : Piece}
    (hbefore : ∀ q ∈ before, q.Avoids p.lo p.len) (hafter : ∀ q ∈ after, q.Avoids p.lo p.len)
    (hfit : p.lo + p.len ≤ w) :
    (assemble w (before ++ p :: after)).extractLsb' p.lo p.len = p.value := by
  refine BitVec.eq_of_getLsbD_eq fun i hi => ?_
  have hnone : ∀ {qs : List Piece}, (∀ q ∈ qs, q.Avoids p.lo p.len) →
      (qs.any fun q => (place w q.lo q.value).getLsbD (p.lo + i)) = false := by
    intro qs hqs
    rw [List.any_eq_false]
    intro q hq
    rw [getLsbD_place_of_avoids (hqs q hq) hi]
    exact Bool.false_ne_true
  have hlt : p.lo + i < w := by omega
  rw [BitVec.getLsbD_extractLsb', getLsbD_assemble, List.any_append, List.any_cons,
    hnone hbefore, hnone hafter, getLsbD_place]
  simp [hi, hlt]

/-- Each of the pieces is read back. -/
theorem extract_assemble
    {pieces : List Piece} {p : Piece}
    (hsep : Separate pieces) (hp : p ∈ pieces) (hfit : p.lo + p.len ≤ w) :
    (assemble w pieces).extractLsb' p.lo p.len = p.value := by
  obtain ⟨before, after, rfl⟩ := List.append_of_mem hp
  obtain ⟨-, hafter, hbefore⟩ := List.pairwise_append.mp hsep
  refine extract_assemble_append ?_ ?_ hfit
  · intro q hq
    exact hbefore q hq p List.mem_cons_self
  · intro q hq
    exact ((List.pairwise_cons.mp hafter).1 q hq).symm

end Pieces

section Masks

variable {v w : Nat}

/-- A shifted and masked value, shifted to its place, is a piece of the value. -/
theorem shifted_mask_eq_place
    (x : BitVec v) (s len lo : Nat) (mask : BitVec w)
    (hmask : mask = BitVec.ofNat w (2 ^ len - 1)) (hfit : s + len ≤ w) :
    ((x.setWidth w >>> s) &&& mask) <<< lo = place w lo (x.extractLsb' s len) := by
  subst hmask
  refine BitVec.eq_of_getLsbD_eq fun i hi => ?_
  rw [getLsbD_place, BitVec.getLsbD_shiftLeft, BitVec.getLsbD_and, BitVec.getLsbD_ushiftRight,
    BitVec.getLsbD_setWidth, BitVec.getLsbD_extractLsb', BitVec.getLsbD_ofNat,
    Nat.testBit_two_pow_sub_one]
  by_cases hlo : lo ≤ i
  · by_cases hlen : i - lo < len
    · have hw : s + (i - lo) < w := by omega
      have hw' : i - lo < w := by omega
      simp [hi, hlo, hlen, hw, hw']
    · simp [hlen]
  · have hlt : i < lo := by omega
    simp [hlo, hlt]

/-- The lowest bits, at position zero. -/
theorem mask_eq_place
    (x : BitVec v) (len : Nat) (mask : BitVec w)
    (hmask : mask = BitVec.ofNat w (2 ^ len - 1)) (hfit : len ≤ w) :
    x.setWidth w &&& mask = place w 0 (x.extractLsb' 0 len) := by
  have h := shifted_mask_eq_place x 0 len 0 mask hmask (by omega)
  simpa using h

/-- The lowest bits, shifted to their place. -/
theorem mask_shift_eq_place
    (x : BitVec v) (len lo : Nat) (mask : BitVec w)
    (hmask : mask = BitVec.ofNat w (2 ^ len - 1)) (hfit : len ≤ w) :
    (x.setWidth w &&& mask) <<< lo = place w lo (x.extractLsb' 0 len) := by
  have h := shifted_mask_eq_place x 0 len lo mask hmask (by omega)
  simpa using h

/-- The bits of a shifted value are those further up. -/
theorem extract_ushiftRight
    (x : BitVec w) (s lo len : Nat) :
    (x >>> s).extractLsb' lo len = x.extractLsb' (s + lo) len := by
  refine BitVec.eq_of_getLsbD_eq fun i hi => ?_
  simp [Nat.add_assoc]

end Masks

end BitFields
end DexprOS
