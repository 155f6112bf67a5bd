import DexprOS.Kernel.Memory.MemoryDef
import Mathlib.Logic.Function.Basic
import Mathlib.Tactic.Common

/-!
# The physical memory tree

Entries, levels and availability blocks of the tree, and the memory in which
they lie.  Each of the three kinds has its own array in the tree's buffer, so a
pointer to one of them is modelled as an index into its array.

Main facts:
* `block_store`, `block_memset`: writing blocks of one level leaves the blocks
  of all other levels alone;
* `sameShape_store`, `sameShape_memset`: it never changes what the levels and
  entries say.
-/

namespace DexprOS
namespace Kernel

section PhysicalMemTree

def physMemPageAvailableBit : UInt8 := 0x80
def physMemPageUnavailable : UInt8 := 0x0

def physMemBlockFullyAvailableBit : UInt8 := 0x80
def physMemBlockHalfAvailableBit : UInt8 := 0x40
def physMemBlockQuarterAvailableBit : UInt8 := 0x20
def physMemBlock_1_8_AvailableBit : UInt8 := 0x10
def physMemBlock_1_16_AvailableBit : UInt8 := 0x8
def physMemBlock_1_32_AvailableBit : UInt8 := 0x4
def physMemBlock_1_64_AvailableBit : UInt8 := 0x2
def physMemBlock_1_128_OrLessAvailableBit : UInt8 := 0x1
def physMemBlockUnavailable : UInt8 := 0x0

def sizeofPhysicalMemTreeEntry : UInt64 := 64
def sizeofPhysicalMemTreeLevel : UInt64 := 32

/-- `sizeof(uint8_t*)`, which is also the size of `inPlaceBlocks`. -/
def sizeofInPlaceBlocks : UInt64 := 8

/-- `DexprOS_PhysicalMemTreeLevel`.  The two members of the union are separate
fields: which one is used depends on `numBlocks` alone. -/
structure PhysicalMemTreeLevel where
  startMappedAddress : UInt64
  blockSize : UInt64
  numBlocks : UInt64
  pBlocks : Nat
  inPlaceBlocks : Nat → UInt8

/-- `DexprOS_PhysicalMemTreeEntry`; `none` is the pointer `NULL`. -/
structure PhysicalMemTreeEntry where
  type : PhysicalMemoryType
  flags : UInt64
  startAddress : UInt64
  endAddress : UInt64
  numPages : UInt64
  pTreeLevels : Nat
  numTreeLevels : UInt64
  pNextEntry : Option Nat

/-- `DexprOS_PhysicalMemTree`. -/
structure PhysicalMemTree where
  pFirstEntry : Option Nat

/-- The arrays of a tree's buffer. -/
structure TreeMemory where
  entries : Nat → PhysicalMemTreeEntry
  levels : Nat → PhysicalMemTreeLevel
  blocks : Nat → UInt8

/-- A `uint8_t*` into the block array or into a level's in-place blocks. -/
inductive BlockPtr where
  | outOfLine (offset : Nat)
  | inPlace (iLevel : Nat)
deriving DecidableEq, Repr

namespace TreeMemory

/-- `p[i]`. -/
def load (m : TreeMemory) (p : BlockPtr) (i : Nat) : UInt8 :=
  match p with
  | .outOfLine offset => m.blocks (offset + i)
  | .inPlace iLevel => (m.levels iLevel).inPlaceBlocks i

/-- `p[i] = value`. -/
def store (m : TreeMemory) (p : BlockPtr) (i : Nat) (value : UInt8) : TreeMemory :=
  match p with
  | .outOfLine offset =>
      { m with blocks := Function.update m.blocks (offset + i) value }
  | .inPlace iLevel =>
      { m with
        levels := Function.update m.levels iLevel
          { m.levels iLevel with
            inPlaceBlocks :=
              Function.update (m.levels iLevel).inPlaceBlocks i value } }

/-- `memset(p + first, value, count)` on blocks. -/
def memset (m : TreeMemory) (p : BlockPtr) (first : Nat) (value : UInt8)
    (count : Nat) : TreeMemory :=
  (List.range count).foldl (fun m i => m.store p (first + i) value) m

/-- The blocks of a level: out of line when they do not fit into the struct. -/
def levelBlocks (m : TreeMemory) (iLevel : Nat) : BlockPtr :=
  if sizeofInPlaceBlocks < (m.levels iLevel).numBlocks then
    .outOfLine (m.levels iLevel).pBlocks
  else
    .inPlace iLevel

/-- Block `i` of a level. -/
def block (m : TreeMemory) (iLevel i : Nat) : UInt8 :=
  m.load (m.levelBlocks iLevel) i

end TreeMemory

/-- Everything that a level says besides the values of its blocks. -/
def PhysicalMemTreeLevel.header (l : PhysicalMemTreeLevel) :
    UInt64 × UInt64 × UInt64 × Nat :=
  (l.startMappedAddress, l.blockSize, l.numBlocks, l.pBlocks)

/-- The memories differ at most in the values of blocks. -/
structure SameShape (m m' : TreeMemory) : Prop where
  entries : m'.entries = m.entries
  headers : ∀ j, (m'.levels j).header = (m.levels j).header

/-- The out-of-line blocks of the first `n` levels do not overlap. -/
def BlocksApart (n : Nat) (m : TreeMemory) : Prop :=
  ∀ j k, j < n → k < n → j ≠ k →
    sizeofInPlaceBlocks < (m.levels j).numBlocks →
    sizeofInPlaceBlocks < (m.levels k).numBlocks →
    (m.levels j).pBlocks + (m.levels j).numBlocks.toNat ≤ (m.levels k).pBlocks ∨
    (m.levels k).pBlocks + (m.levels k).numBlocks.toNat ≤ (m.levels j).pBlocks

end PhysicalMemTree

section Shape

variable {m m' m'' : TreeMemory}

theorem SameShape.refl (m : TreeMemory) : SameShape m m :=
  ⟨rfl, fun _ => rfl⟩

theorem SameShape.trans (h : SameShape m m') (h' : SameShape m' m'') :
    SameShape m m'' :=
  ⟨h'.entries.trans h.entries, fun j => (h'.headers j).trans (h.headers j)⟩

theorem SameShape.startMappedAddress (h : SameShape m m') (j : Nat) :
    (m'.levels j).startMappedAddress = (m.levels j).startMappedAddress :=
  congrArg (fun t => t.1) (h.headers j)

theorem SameShape.blockSize (h : SameShape m m') (j : Nat) :
    (m'.levels j).blockSize = (m.levels j).blockSize :=
  congrArg (fun t => t.2.1) (h.headers j)

theorem SameShape.numBlocks (h : SameShape m m') (j : Nat) :
    (m'.levels j).numBlocks = (m.levels j).numBlocks :=
  congrArg (fun t => t.2.2.1) (h.headers j)

theorem SameShape.pBlocks (h : SameShape m m') (j : Nat) :
    (m'.levels j).pBlocks = (m.levels j).pBlocks :=
  congrArg (fun t => t.2.2.2) (h.headers j)

theorem SameShape.levelBlocks (h : SameShape m m') (j : Nat) :
    m'.levelBlocks j = m.levelBlocks j := by
  rw [TreeMemory.levelBlocks, TreeMemory.levelBlocks, h.numBlocks, h.pBlocks]

theorem SameShape.blocksApart
    {n : Nat} (h : SameShape m m') (hapart : BlocksApart n m) :
    BlocksApart n m' := by
  intro j k hj hk hjk
  rw [h.numBlocks, h.numBlocks, h.pBlocks, h.pBlocks]
  exact hapart j k hj hk hjk

theorem sameShape_store
    (m : TreeMemory) (p : BlockPtr) (i : Nat) (value : UInt8) :
    SameShape m (m.store p i value) := by
  cases p with
  | outOfLine offset =>
      exact ⟨rfl, fun _ => rfl⟩
  | inPlace iLevel =>
      refine ⟨rfl, fun j => ?_⟩
      by_cases hj : j = iLevel
      · subst hj
        simp [TreeMemory.store, PhysicalMemTreeLevel.header]
      · simp [TreeMemory.store, Function.update_of_ne hj]

/-- A fold of steps that keep the shape keeps the shape. -/
theorem sameShape_foldl
    {α : Type} {step : TreeMemory → α → TreeMemory}
    (hstep : ∀ m a, SameShape m (step m a)) (l : List α) (m : TreeMemory) :
    SameShape m (l.foldl step m) := by
  induction l generalizing m with
  | nil =>
      exact SameShape.refl m
  | cons a l ih =>
      exact (hstep m a).trans (ih (step m a))

theorem sameShape_memset
    (m : TreeMemory) (p : BlockPtr) (first : Nat) (value : UInt8) (count : Nat) :
    SameShape m (m.memset p first value count) :=
  sameShape_foldl (fun m i => sameShape_store m p (first + i) value) _ m

end Shape

section Blocks

variable {n : Nat} {m : TreeMemory}

/-- One block is written, every other block of every level keeps its value. -/
theorem block_store
    (hapart : BlocksApart n m)
    {j k i l : Nat} (hj : j < n) (hk : k < n)
    (hi : i < (m.levels j).numBlocks.toNat)
    (hl : l < (m.levels k).numBlocks.toNat)
    (value : UInt8) :
    (m.store (m.levelBlocks j) i value).block k l =
      if k = j ∧ l = i then value else m.block k l := by
  rw [TreeMemory.block, (sameShape_store m _ i value).levelBlocks, TreeMemory.block]
  by_cases hjout : sizeofInPlaceBlocks < (m.levels j).numBlocks
  · have hptrj : m.levelBlocks j = .outOfLine (m.levels j).pBlocks := if_pos hjout
    by_cases hkout : sizeofInPlaceBlocks < (m.levels k).numBlocks
    · have hptrk : m.levelBlocks k = .outOfLine (m.levels k).pBlocks := if_pos hkout
      rw [hptrj, hptrk]
      simp only [TreeMemory.store, TreeMemory.load, Function.update_apply]
      by_cases hjk : k = j
      · subst hjk
        simp
      · have hne : ¬ (m.levels k).pBlocks + l = (m.levels j).pBlocks + i := by
          rcases hapart j k hj hk (Ne.symm hjk) hjout hkout with h | h <;> omega
        simp [hjk, hne]
    · have hptrk : m.levelBlocks k = .inPlace k := if_neg hkout
      have hjk : ¬ k = j := fun h => hkout (h ▸ hjout)
      rw [hptrj, hptrk]
      simp [TreeMemory.store, TreeMemory.load, hjk]
  · have hptrj : m.levelBlocks j = .inPlace j := if_neg hjout
    by_cases hkout : sizeofInPlaceBlocks < (m.levels k).numBlocks
    · have hptrk : m.levelBlocks k = .outOfLine (m.levels k).pBlocks := if_pos hkout
      have hjk : ¬ k = j := fun h => hjout (h ▸ hkout)
      rw [hptrj, hptrk]
      simp [TreeMemory.store, TreeMemory.load, hjk]
    · have hptrk : m.levelBlocks k = .inPlace k := if_neg hkout
      rw [hptrj, hptrk]
      by_cases hjk : k = j
      · subst hjk
        simp [TreeMemory.store, TreeMemory.load, Function.update_apply]
      · simp [TreeMemory.store, TreeMemory.load, hjk]

/-- A run of blocks of one level is written, everything else keeps its value. -/
theorem block_memset
    (hapart : BlocksApart n m)
    {j k first l : Nat} (hj : j < n) (hk : k < n)
    (value : UInt8) (count : Nat)
    (hcount : first + count ≤ (m.levels j).numBlocks.toNat)
    (hl : l < (m.levels k).numBlocks.toNat) :
    (m.memset (m.levelBlocks j) first value count).block k l =
      if k = j ∧ first ≤ l ∧ l < first + count then value else m.block k l := by
  induction count with
  | zero =>
      have hno : ¬ (k = j ∧ first ≤ l ∧ l < first + 0) := by omega
      rw [if_neg hno]
      rfl
  | succ count ih =>
      have hshape := sameShape_memset m (m.levelBlocks j) first value count
      have hstep : m.memset (m.levelBlocks j) first value (count + 1) =
          (m.memset (m.levelBlocks j) first value count).store
            ((m.memset (m.levelBlocks j) first value count).levelBlocks j)
            (first + count) value := by
        rw [hshape.levelBlocks, TreeMemory.memset, List.range_succ, List.foldl_append]
        rfl
      rw [hstep, block_store (hshape.blocksApart hapart) hj hk
        (by rw [hshape.numBlocks]; omega) (by rw [hshape.numBlocks]; exact hl),
        ih (by omega)]
      by_cases hjk : k = j
      · by_cases hlast : l = first + count
        · rw [if_pos ⟨hjk, hlast⟩, if_pos (by omega)]
        · rw [if_neg (by omega)]
          refine if_congr ?_ rfl rfl
          omega
      · simp [hjk]

end Blocks

end Kernel
end DexprOS
