import DexprOS.Boot.InitialPageMapSetup
import DexprOS.Library.BitMask
import DexprOS.Library.OrWords
import DexprOS.Library.RadixTree
import Mathlib.Tactic.NormNum
import Mathlib.Tactic.Positivity
import Mathlib.Tactic.Ring

/-!
# What the page tables in memory represent

The tables that the builders put into the buffer represent a set of nodes of the radix
tree over the page numbers: the tables, and the mapped pages as its leaves.

Main facts:
* `Represents.addPage`, `Represents.addTable`: entering a page, and a new table;
* `subtableOf_spec`: the table behind an entry is there afterwards, or the buffer is used
  up;
* `Prepares`: what mapping a range does to the nodes, and how such steps compose.
-/

namespace DexprOS
namespace Boot

open Radix OrWords

section Words

/-- The entry for a table or page. -/
theorem entry_word
    {a : Nat}
    (ha : a % 4096 = 0) :
    a ||| (pagePresentBit ||| pageReadWriteBit) = a + 3 := by
  obtain ⟨k, rfl⟩ := Nat.dvd_of_mod_eq_zero ha
  exact (Nat.two_pow_add_eq_or_of_lt (i := 12) (by decide) k).symm

theorem entry_present
    {a : Nat}
    (ha : a % 4096 = 0) :
    (a + 3) &&& pagePresentBit ≠ 0 := by
  rw [pagePresentBit, Nat.and_one_is_mod]
  omega

theorem address_of_entry
    {a : Nat}
    (ha : a % 4096 = 0) (hlt : a < 2 ^ 64) :
    (a + 3) &&& pageAddressMask = a := by
  have hmask := BitMask.and_high_mask (x := a + 3) (k := 12) (by omega) (by decide)
  rw [show pageAddressMask = 2 ^ 64 - 2 ^ 12 by decide, hmask]
  omega

theorem and_pageAddressMask
    {a : Nat}
    (hlt : a < 2 ^ 64) :
    a &&& pageAddressMask = a / 4096 * 4096 :=
  BitMask.and_high_mask (k := 12) hlt (by decide)

/-- The nine bits of an address that select an entry. -/
theorem entry_index
    (a shift : Nat) :
    (a >>> shift) &&& 0x1FF = a / 2 ^ shift % 512 :=
  BitMask.shiftRight_and_low_mask a shift 9

/-- The bytes that a table of level `k` manages. -/
theorem managed_bytes
    (k : Nat) :
    2 ^ (12 + 9 * k) = 4096 * 512 ^ k := by
  rw [pow_add, pow_mul]
  norm_num

theorem node_index
    (a k : Nat) :
    a / 2 ^ (12 + 9 * k) = a / 4096 / 512 ^ k := by
  rw [managed_bytes, Nat.div_div_eq_div_mul]

theorem orWord_orWord
    (entry x y : Nat) (memory : Nat → Nat) :
    orWord entry y (orWord entry x memory) =
      Function.update memory entry ((memory entry ||| x) ||| y) := by
  simp [orWord]

theorem foldl_zero_of_ne
    {table a n : Nat}
    (ha : ∀ e < n, a ≠ table + 8 * e) (memory : Nat → Nat) :
    (List.range n).foldl (fun memory i => Function.update memory (table + 8 * i) 0) memory a =
      memory a := by
  induction n with
  | zero =>
      rfl
  | succ n ih =>
      rw [List.range_succ, List.foldl_append, List.foldl_cons, List.foldl_nil,
        Function.update_of_ne (ha n (Nat.lt_succ_self n))]
      exact ih fun e he => ha e (Nat.lt_succ_of_lt he)

/-- Zeroing a table clears its 512 entries. -/
theorem zeroTable_entry
    {table e : Nat}
    (he : e < 512) (memory : Nat → Nat) :
    zeroTable table memory (table + 8 * e) = 0 := by
  have hsplit : List.range 512 = List.range (e + 1) ++ (List.range (511 - e)).map (e + 1 + ·) := by
    rw [← List.range_add]
    congr 1
    omega
  have hlast (k : Nat) (memory : Nat → Nat) (hzero : memory (table + 8 * e) = 0) :
      ((List.range k).map (e + 1 + ·)).foldl
        (fun memory i => Function.update memory (table + 8 * i) 0) memory (table + 8 * e) = 0 := by
    induction k with
    | zero =>
        exact hzero
    | succ k ih =>
        rw [List.range_succ, List.map_append, List.foldl_append]
        refine (Function.update_of_ne ?_ _ _).trans ih
        show _ ≠ table + 8 * (e + 1 + k)
        omega
  unfold zeroTable
  rw [hsplit, List.foldl_append]
  refine hlast _ _ ?_
  rw [List.range_succ, List.foldl_append]
  exact Function.update_self _ _ _

theorem zeroTable_outside
    {table a : Nat}
    (ha : a < table ∨ table + 4096 ≤ a) (memory : Nat → Nat) :
    zeroTable table memory a = memory a :=
  foldl_zero_of_ne (by omega) memory

end Words

section Pages

/-- The pages that a range of addresses touches. -/
def pagesOf (startAddress endAddress : Nat) : Finset Nat :=
  if startAddress < endAddress then
    Finset.Ico (startAddress / 4096) ((endAddress + 4095) / 4096)
  else ∅

theorem mem_pagesOf
    {a b p : Nat} :
    p ∈ pagesOf a b ↔ a < b ∧ p * 4096 < b ∧ a < (p + 1) * 4096 := by
  unfold pagesOf
  split
  · rw [Finset.mem_Ico]
    omega
  · simp only [Finset.notMem_empty, false_iff]
    omega

end Pages

section Indices

/-- The index of the table of level `k` for an address.  The bits above those that select an
entry of the root play no part. -/
def nodeIndex (top k a : Nat) : Nat :=
  a / 2 ^ (12 + 9 * k) % 512 ^ (top - k)

theorem pow_split
    {top k : Nat}
    (hk : k + 1 ≤ top) :
    512 ^ (top - k) = 512 * 512 ^ (top - (k + 1)) := by
  rw [← pow_succ']
  congr 1
  omega

/-- The index of the table above. -/
theorem nodeIndex_succ
    {top k : Nat}
    (hk : k + 1 ≤ top) (a : Nat) :
    nodeIndex top (k + 1) a = nodeIndex top k a / 512 := by
  rw [nodeIndex, nodeIndex, pow_split hk, Nat.mod_mul_right_div_self, Nat.div_div_eq_div_mul,
    show 12 + 9 * (k + 1) = 12 + 9 * k + 9 by ring, pow_add]
  rfl

/-- The entry of the table above. -/
theorem nodeIndex_mod
    {top k : Nat}
    (hk : k + 1 ≤ top) (a : Nat) :
    nodeIndex top k a % 512 = a / 2 ^ (12 + 9 * k) % 512 := by
  rw [nodeIndex, pow_split hk, Nat.mod_mul_right_mod]

theorem nodeIndex_top
    (top a : Nat) :
    nodeIndex top top a = 0 := by
  rw [nodeIndex, Nat.sub_self, pow_zero, Nat.mod_one]

/-- The leaf of a page, seen from a table above it. -/
theorem leaf_div
    {top k : Nat}
    (hk : k ≤ top) (p : Nat) :
    p % 512 ^ top / 512 ^ k = p / 512 ^ k % 512 ^ (top - k) := by
  rw [show 512 ^ top = 512 ^ k * 512 ^ (top - k) by rw [← pow_add, Nat.add_sub_cancel' hk],
    Nat.mod_mul_right_div_self]

end Indices

section Represents

/-- Where the tables are put, and what the memory holds before. -/
structure TableBuffer where
  top : Nat
  buffer : Nat
  bufferEnd : Nat
  initial : Nat → Nat

variable (b : TableBuffer)

/-- The tables in memory represent `nodes`.  The leaves are the entered pages, up to the bits
that play no part; the other nodes are tables.  `addr` gives the address of a table, and for a
leaf the word that collects the addresses of its pages. -/
structure Represents (nodes : Finset (Nat × Nat)) (pages : Finset Nat)
    (addr : Nat → Nat → Nat) (s : TableSpace) : Prop where
  buffer_aligned : b.buffer % 4096 = 0
  end_le : b.bufferEnd ≤ 2 ^ 64
  level_le : ∀ k i, (k, i) ∈ nodes → k ≤ b.top
  closed : ∀ k i, (k, i) ∈ nodes → k < b.top → (k + 1, i / 512) ∈ nodes
  leaf_iff : ∀ i, (0, i) ∈ nodes ↔ ∃ p ∈ pages, p % 512 ^ b.top = i
  words : Collects (· % 512 ^ b.top) (· * 4096) pages (addr 0)
  page_lt : ∀ p ∈ pages, p * 4096 < 2 ^ 64
  aligned : ∀ k i, (k + 1, i) ∈ nodes → addr (k + 1) i % 4096 = 0
  inside : ∀ k i, (k + 1, i) ∈ nodes →
    b.buffer ≤ addr (k + 1) i ∧ addr (k + 1) i + 4096 ≤ s.next
  distinct : ∀ k i k' i', (k + 1, i) ∈ nodes → (k' + 1, i') ∈ nodes →
    addr (k + 1) i = addr (k' + 1) i' → k = k' ∧ i = i'
  entries : ∀ k i, (k + 1, i) ∈ nodes → ∀ e < 512,
    s.memory (addr (k + 1) i + 8 * e) =
      if (k, i * 512 + e) ∈ nodes then addr k (i * 512 + e) + 3 else 0
  next_eq : s.next = b.buffer + 4096 * (innerNodes nodes).card
  next_le : s.next ≤ b.bufferEnd
  frame : ∀ a, a < b.buffer ∨ s.next ≤ a → s.memory a = b.initial a

variable {b} {nodes : Finset (Nat × Nat)} {pages : Finset Nat} {addr : Nat → Nat → Nat}
variable {s : TableSpace}

/-- Entries of tables are different words unless they are the same entry. -/
theorem Represents.entry_inj
    (hs : Represents b nodes pages addr s) {k i k' i' e e' : Nat}
    (hn : (k + 1, i) ∈ nodes) (hn' : (k' + 1, i') ∈ nodes) (he : e < 512) (he' : e' < 512)
    (heq : addr (k + 1) i + 8 * e = addr (k' + 1) i' + 8 * e') :
    k = k' ∧ i = i' ∧ e = e' := by
  have ha := hs.aligned k i hn
  have ha' := hs.aligned k' i' hn'
  have haddr : addr (k + 1) i = addr (k' + 1) i' := by omega
  obtain ⟨rfl, rfl⟩ := hs.distinct k i k' i' hn hn' haddr
  exact ⟨rfl, rfl, by omega⟩

/-- The parent's entry for a node. -/
theorem Represents.entry_of
    (hs : Represents b nodes pages addr s) {k i : Nat}
    (hn : (k + 1, i / 512) ∈ nodes) :
    s.memory (addr (k + 1) (i / 512) + 8 * (i % 512)) =
      if (k, i) ∈ nodes then addr k i + 3 else 0 := by
  have hentry := hs.entries k (i / 512) hn (i % 512) (Nat.mod_lt _ (by decide))
  rw [Nat.div_add_mod' i 512] at hentry
  exact hentry

/-- The words of leaves have no bits below those of a page's address. -/
theorem Represents.word_aligned
    (hs : Represents b nodes pages addr s) (i : Nat) :
    addr 0 i % 4096 = 0 :=
  hs.words.mod_eq_zero (n := 12) (fun p _ => Nat.mul_mod_left p 4096) i

theorem Represents.word_lt
    (hs : Represents b nodes pages addr s) (i : Nat) :
    addr 0 i < 2 ^ 64 :=
  hs.words.lt hs.page_lt i

/-- The addresses of the nodes after one of them is placed. -/
def placeNode (addr : Nat → Nat → Nat) (k i a : Nat) : Nat → Nat → Nat :=
  fun k' i' => if (k', i') = (k, i) then a else addr k' i'

@[simp] theorem placeNode_self (addr : Nat → Nat → Nat) (k i a : Nat) :
    placeNode addr k i a k i = a :=
  if_pos rfl

theorem placeNode_of_ne {k i k' i' : Nat}
    (hne : (k', i') ≠ (k, i)) (addr : Nat → Nat → Nat) (a : Nat) :
    placeNode addr k i a k' i' = addr k' i' :=
  if_neg hne

theorem placeNode_of_level_ne {k k' : Nat}
    (hne : k' ≠ k) (addr : Nat → Nat → Nat) (i a : Nat) :
    placeNode addr k i a k' = addr k' :=
  funext fun _ => placeNode_of_ne (fun heq => hne (Prod.mk.inj heq).1) addr a

theorem placeNode_level (addr : Nat → Nat → Nat) (k i a : Nat) :
    placeNode addr k i a k = Function.update (addr k) i a := by
  funext i'
  by_cases hi : i' = i
  · subst hi
    rw [placeNode_self, Function.update_self]
  · rw [Function.update_of_ne hi, placeNode_of_ne (fun heq => hi (Prod.mk.inj heq).2)]

/-- A node below a table is not above the top, and its parent is there. -/
theorem Represents.level_le_insert
    (hs : Represents b nodes pages addr s) {k i : Nat} (hparent : (k + 1, i / 512) ∈ nodes)
    (k' i' : Nat) (hn : (k', i') ∈ insert (k, i) nodes) :
    k' ≤ b.top := by
  rw [Finset.mem_insert, Prod.mk.injEq] at hn
  obtain ⟨rfl, -⟩ | hn := hn
  · exact (Nat.le_succ _).trans (hs.level_le _ _ hparent)
  · exact hs.level_le k' i' hn

theorem Represents.closed_insert
    (hs : Represents b nodes pages addr s) {k i : Nat} (hparent : (k + 1, i / 512) ∈ nodes)
    (k' i' : Nat) (hn : (k', i') ∈ insert (k, i) nodes) (hk : k' < b.top) :
    (k' + 1, i' / 512) ∈ insert (k, i) nodes := by
  rw [Finset.mem_insert, Prod.mk.injEq] at hn
  obtain ⟨rfl, rfl⟩ | hn := hn
  · exact Finset.mem_insert_of_mem hparent
  · exact Finset.mem_insert_of_mem (hs.closed k' i' hn hk)

/-- The entries of the tables that were there, after a node is linked from its parent. -/
theorem Represents.linked_entry
    (hs : Represents b nodes pages addr s) {k i : Nat} (hparent : (k + 1, i / 512) ∈ nodes)
    {k' i' e : Nat} (hn : (k' + 1, i') ∈ nodes) (he : e < 512) (word : Nat)
    {memory : Nat → Nat}
    (hmemory : memory (addr (k' + 1) i' + 8 * e) = s.memory (addr (k' + 1) i' + 8 * e)) :
    Function.update memory (addr (k + 1) (i / 512) + 8 * (i % 512)) (word + 3)
        (addr (k' + 1) i' + 8 * e) =
      if (k', i' * 512 + e) ∈ insert (k, i) nodes then
        placeNode addr k i word k' (i' * 512 + e) + 3
      else 0 := by
  have hmod : i % 512 < 512 := Nat.mod_lt _ (by decide)
  by_cases heq : addr (k' + 1) i' + 8 * e = addr (k + 1) (i / 512) + 8 * (i % 512)
  · obtain ⟨rfl, rfl, rfl⟩ := hs.entry_inj hn hparent he hmod heq
    rw [Function.update_self, Nat.div_add_mod' i 512, if_pos (Finset.mem_insert_self _ _),
      placeNode_self]
  · have hother : (k', i' * 512 + e) ≠ (k, i) := by
      intro hsame
      obtain ⟨rfl, rfl⟩ := Prod.mk.injEq _ _ _ _ ▸ hsame
      refine heq ?_
      rw [show (i' * 512 + e) / 512 = i' by omega, show (i' * 512 + e) % 512 = e by omega]
    rw [Function.update_of_ne heq, hmemory, hs.entries k' i' hn e he, placeNode_of_ne hother]
    exact if_congr (by simp [hother]) rfl rfl

/-- Entering a page: its address is or-ed into the word of its leaf. -/
theorem Represents.addPage
    (hs : Represents b nodes pages addr s) {p i : Nat}
    (hi : p % 512 ^ b.top = i) (hp : p * 4096 < 2 ^ 64) (hparent : (1, i / 512) ∈ nodes) :
    Represents b (insert (0, i) nodes) (insert p pages)
      (placeNode addr 0 i (addr 0 i ||| p * 4096)) { s with
        memory := Function.update s.memory (addr 1 (i / 512) + 8 * (i % 512))
          ((addr 0 i ||| p * 4096) + 3) } := by
  have hmem {k j : Nat} : (k + 1, j) ∈ insert (0, i) nodes ↔ (k + 1, j) ∈ nodes := by simp
  have htable (k : Nat) (a : Nat) : placeNode addr 0 i a (k + 1) = addr (k + 1) :=
    placeNode_of_level_ne (Nat.succ_ne_zero k) addr i a
  refine ⟨hs.buffer_aligned, hs.end_le, hs.level_le_insert hparent, hs.closed_insert hparent,
    ?_, ?_, ?_, ?_, ?_, ?_, ?_, ?_, hs.next_le, ?_⟩
  · intro j
    rw [Finset.mem_insert, Finset.exists_mem_insert, hs.leaf_iff, hi]
    simp [eq_comm]
  · rw [placeNode_level]
    subst hi
    exact hs.words.insert
  · intro q hq
    obtain rfl | hq := Finset.mem_insert.mp hq
    · exact hp
    · exact hs.page_lt q hq
  · intro k j hn
    rw [htable]
    exact hs.aligned k j (hmem.mp hn)
  · intro k j hn
    rw [htable]
    exact hs.inside k j (hmem.mp hn)
  · intro k j k' j' hn hn'
    rw [htable, htable]
    exact hs.distinct k j k' j' (hmem.mp hn) (hmem.mp hn')
  · intro k j hn e he
    rw [htable]
    exact hs.linked_entry hparent (hmem.mp hn) he _ rfl
  · have hinner : innerNodes (insert (0, i) nodes) = innerNodes nodes := by
      unfold innerNodes
      rw [Finset.filter_insert, if_neg (Nat.lt_irrefl 0)]
    rw [hinner]
    exact hs.next_eq
  · intro a ha
    have hin : b.buffer ≤ addr 1 (i / 512) ∧ addr 1 (i / 512) + 4096 ≤ s.next :=
      hs.inside 0 (i / 512) hparent
    dsimp only at ha ⊢
    rw [Function.update_of_ne (by omega)]
    exact hs.frame a ha

theorem Represents.next_aligned
    (hs : Represents b nodes pages addr s) :
    s.next % 4096 = 0 := by
  have halign := hs.buffer_aligned
  rw [hs.next_eq]
  omega

theorem Represents.buffer_le_next
    (hs : Represents b nodes pages addr s) :
    b.buffer ≤ s.next := by
  rw [hs.next_eq]
  exact Nat.le_add_right _ _

/-- A new table at the next free address, linked from its parent. -/
theorem Represents.addTable
    (hs : Represents b nodes pages addr s) {k i : Nat}
    (hnew : (k + 1, i) ∉ nodes) (hparent : (k + 2, i / 512) ∈ nodes)
    (hroom : s.next + 4096 ≤ b.bufferEnd) :
    Represents b (insert (k + 1, i) nodes) pages (placeNode addr (k + 1) i s.next)
      { memory := Function.update (zeroTable s.next s.memory)
          (addr (k + 2) (i / 512) + 8 * (i % 512)) (s.next + 3)
        next := s.next + 4096 } := by
  have hparentIn : b.buffer ≤ addr (k + 2) (i / 512) ∧
      addr (k + 2) (i / 512) + 4096 ≤ s.next := hs.inside (k + 1) (i / 512) hparent
  have hbuffer := hs.buffer_le_next
  have htop : k + 1 < b.top := hs.level_le _ _ hparent
  have hne {k' i' : Nat} (hn : (k', i') ∈ nodes) : (k', i') ≠ (k + 1, i) :=
    fun heq => hnew (heq ▸ hn)
  -- the new table has no entries yet, since its children would need it
  have hchild (e : Nat) (he : e < 512) : (k, i * 512 + e) ∉ insert (k + 1, i) nodes := by
    rw [Finset.mem_insert, Prod.mk.injEq]
    rintro (⟨hk, -⟩ | hn)
    · omega
    · have hclosed := hs.closed k _ hn (by omega)
      rw [show (i * 512 + e) / 512 = i by omega] at hclosed
      exact hnew hclosed
  refine ⟨hs.buffer_aligned, hs.end_le, hs.level_le_insert hparent, hs.closed_insert hparent,
    ?_, ?_, hs.page_lt, ?_, ?_, ?_, ?_, ?_, hroom, ?_⟩
  · intro j
    rw [← hs.leaf_iff]
    simp
  · rw [placeNode_of_level_ne (Nat.succ_ne_zero k).symm]
    exact hs.words
  · intro k' i' hn
    rw [Finset.mem_insert] at hn
    obtain heq | hn := hn
    · obtain ⟨rfl, rfl⟩ : k' = k ∧ i' = i := by simpa using heq
      rw [placeNode_self]
      exact hs.next_aligned
    · rw [placeNode_of_ne (hne hn)]
      exact hs.aligned k' i' hn
  · intro k' i' hn
    rw [Finset.mem_insert] at hn
    obtain heq | hn := hn
    · obtain ⟨rfl, rfl⟩ : k' = k ∧ i' = i := by simpa using heq
      rw [placeNode_self]
      exact ⟨hbuffer, le_rfl⟩
    · rw [placeNode_of_ne (hne hn)]
      have hin := hs.inside k' i' hn
      exact ⟨hin.1, hin.2.trans (Nat.le_add_right _ _)⟩
  · intro k₁ i₁ k₂ i₂ hn₁ hn₂ heq
    rw [Finset.mem_insert] at hn₁ hn₂
    obtain h₁ | hn₁ := hn₁ <;> obtain h₂ | hn₂ := hn₂
    · simp only [Prod.mk.injEq] at h₁ h₂
      omega
    · obtain ⟨rfl, rfl⟩ : k₁ = k ∧ i₁ = i := by simpa using h₁
      have hin := hs.inside k₂ i₂ hn₂
      rw [placeNode_self, placeNode_of_ne (hne hn₂)] at heq
      omega
    · obtain ⟨rfl, rfl⟩ : k₂ = k ∧ i₂ = i := by simpa using h₂
      have hin := hs.inside k₁ i₁ hn₁
      rw [placeNode_self, placeNode_of_ne (hne hn₁)] at heq
      omega
    · rw [placeNode_of_ne (hne hn₁), placeNode_of_ne (hne hn₂)] at heq
      exact hs.distinct k₁ i₁ k₂ i₂ hn₁ hn₂ heq
  · intro k' i' hn e he
    rw [Finset.mem_insert] at hn
    dsimp only
    obtain heq | hn := hn
    · obtain ⟨rfl, rfl⟩ : k' = k ∧ i' = i := by simpa using heq
      rw [placeNode_self, Function.update_of_ne (by omega), zeroTable_entry he,
        if_neg (hchild e he)]
    · have hin := hs.inside k' i' hn
      rw [placeNode_of_ne (hne hn)]
      exact hs.linked_entry hparent hn he _ (zeroTable_outside (by omega) s.memory)
  · have hinner : innerNodes (insert (k + 1, i) nodes) = insert (k + 1, i) (innerNodes nodes) := by
      unfold innerNodes
      rw [Finset.filter_insert, if_pos (Nat.succ_pos k)]
    have hnotin : (k + 1, i) ∉ innerNodes nodes := fun hn => hnew (mem_innerNodes.mp hn).1
    rw [hinner, Finset.card_insert_of_notMem hnotin, hs.next_eq]
    ring
  · intro a ha
    dsimp only at ha ⊢
    rw [Function.update_of_ne (by omega), zeroTable_outside (by omega)]
    exact hs.frame a (by omega)

end Represents

section Steps

variable {b : TableBuffer} {nodes nodes' need need' : Finset (Nat × Nat)}
variable {pages P P' : Finset Nat} {addr addr' addr'' : Nat → Nat → Nat} {s : TableSpace}

/-- The tables keep their addresses. -/
def Agree (nodes : Finset (Nat × Nat)) (addr addr' : Nat → Nat → Nat) : Prop :=
  ∀ k i, (k + 1, i) ∈ nodes → addr' (k + 1) i = addr (k + 1) i

theorem Agree.refl (nodes : Finset (Nat × Nat)) (addr : Nat → Nat → Nat) :
    Agree nodes addr addr :=
  fun _ _ _ => rfl

theorem Agree.trans
    (h : Agree nodes addr addr') (h' : Agree nodes' addr' addr'') (hsub : nodes ⊆ nodes') :
    Agree nodes addr addr'' :=
  fun k i hn => (h' k i (hsub hn)).trans (h k i hn)

/-- What mapping the pages `P` does: the nodes they need are there afterwards, or the buffer
is used up before one of the tables among them. -/
inductive Prepares (b : TableBuffer) (need : Finset (Nat × Nat)) (P : Finset Nat)
    (nodes : Finset (Nat × Nat)) (pages : Finset Nat) (addr : Nat → Nat → Nat) :
    Bool × TableSpace → Prop
  | fits {s : TableSpace} (addr' : Nat → Nat → Nat)
      (represents : Represents b (nodes ∪ need) (pages ∪ P) addr' s)
      (agree : Agree nodes addr addr') :
      Prepares b need P nodes pages addr (true, s)
  | full {s : TableSpace} (nodes' : Finset (Nat × Nat)) (pages' : Finset Nat)
      (addr' : Nat → Nat → Nat)
      (represents : Represents b nodes' pages' addr' s)
      (subset : nodes ⊆ nodes') (subset_need : nodes' ⊆ nodes ∪ need)
      (missing : ∃ n ∈ innerNodes need, n ∉ nodes')
      (noRoom : b.bufferEnd < s.next + 4096) :
      Prepares b need P nodes pages addr (false, s)

/-- Nothing to map. -/
theorem Prepares.nothing
    (hs : Represents b nodes pages addr s) :
    Prepares b ∅ ∅ nodes pages addr (true, s) :=
  .fits addr (by rwa [Finset.union_empty, Finset.union_empty]) (Agree.refl _ _)

/-- What is needed after a part that fits. -/
theorem Prepares.after {r : Bool × TableSpace}
    (hagree : Agree nodes addr addr')
    (h : Prepares b need' P' (nodes ∪ need) (pages ∪ P) addr' r) :
    Prepares b (need ∪ need') (P ∪ P') nodes pages addr r := by
  cases h with
  | fits addr'' represents agree =>
      refine .fits addr'' ?_ (hagree.trans agree Finset.subset_union_left)
      rwa [← Finset.union_assoc, ← Finset.union_assoc]
  | full nodes' pages' addr'' represents subset subset_need missing noRoom =>
      obtain ⟨n, hn, hnot⟩ := missing
      refine .full nodes' pages' addr'' represents (Finset.subset_union_left.trans subset) ?_
        ⟨n, innerNodes_mono Finset.subset_union_right hn, hnot⟩ noRoom
      rwa [← Finset.union_assoc]

/-- One part after another. -/
theorem Prepares.bind {r : Bool × TableSpace} {f : TableSpace → Bool × TableSpace}
    (hf : ∀ addr' s', Represents b (nodes ∪ need) (pages ∪ P) addr' s' →
      Agree nodes addr addr' →
      Prepares b need' P' (nodes ∪ need) (pages ∪ P) addr' (f s')) :
    Prepares b need P nodes pages addr r →
    Prepares b (need ∪ need') (P ∪ P') nodes pages addr
      (match r with
      | (false, s) => (false, s)
      | (true, s) => f s) := by
  intro h
  cases h with
  | fits addr' represents agree =>
      exact .after agree (hf addr' _ represents agree)
  | full nodes' pages' addr' represents subset subset_need missing noRoom =>
      obtain ⟨n, hn, hnot⟩ := missing
      refine .full nodes' pages' addr' represents subset ?_
        ⟨n, innerNodes_mono Finset.subset_union_left hn, hnot⟩ noRoom
      rw [← Finset.union_assoc]
      exact subset_need.trans Finset.subset_union_left

/-- The table behind an entry, from the buffer on first use. -/
theorem subtableOf_spec
    (hs : Represents b nodes pages addr s) {k a i upperTable : Nat}
    (hi : nodeIndex b.top (k + 1) a = i)
    (hparent : (k + 2, i / 512) ∈ nodes) (hupper : addr (k + 2) (i / 512) = upperTable) :
    (∃ s', subtableOf (12 + 9 * (k + 1)) a upperTable b.bufferEnd s = (none, s') ∧ s' = s ∧
        (k + 1, i) ∉ nodes ∧ b.bufferEnd < s.next + 4096) ∨
      ∃ s' addr', subtableOf (12 + 9 * (k + 1)) a upperTable b.bufferEnd s =
          (some (addr' (k + 1) i), s') ∧
        Represents b (insert (k + 1, i) nodes) pages addr' s' ∧ Agree nodes addr addr' := by
  have hentry := hs.entry_of hparent
  have hindex := nodeIndex_mod (hs.level_le _ _ hparent) a
  subst hupper
  unfold subtableOf
  rw [entry_index, ← hindex, hi]
  dsimp only
  by_cases hn : (k + 1, i) ∈ nodes
  · have haligned := hs.aligned k i hn
    have hin := hs.inside k i hn
    have hend := hs.end_le
    have hnext := hs.next_le
    rw [if_pos hn] at hentry
    rw [hentry, if_neg (entry_present haligned), address_of_entry haligned (by omega)]
    exact .inr ⟨s, addr, rfl, by rwa [Finset.insert_eq_self.mpr hn], Agree.refl _ _⟩
  · rw [if_neg hn] at hentry
    rw [hentry, Nat.zero_and, if_pos rfl]
    split
    · rename_i hfull
      exact .inl ⟨s, rfl, rfl, hn, hfull⟩
    · rename_i hroom
      have hroom : s.next + 4096 ≤ b.bufferEnd := by omega
      have hend := hs.end_le
      have hin : addr (k + 2) (i / 512) + 4096 ≤ s.next := (hs.inside (k + 1) (i / 512) hparent).2
      have hmod : i % 512 < 512 := Nat.mod_lt _ (by decide)
      refine .inr ⟨_, placeNode addr (k + 1) i s.next, ?_, hs.addTable hn hparent hroom, ?_⟩
      · rw [placeNode_self, orWord_orWord, zeroTable_outside (by omega), hentry, Nat.zero_or,
          and_pageAddressMask (by omega),
          Nat.div_mul_cancel (Nat.dvd_of_mod_eq_zero hs.next_aligned),
          entry_word hs.next_aligned]
      · intro k' i' hn'
        exact placeNode_of_ne (fun heq => hn (heq ▸ hn')) _ _

/-- The two writes to a page's entry. -/
theorem Represents.page_entry
    (hs : Represents b nodes pages addr s) {i : Nat}
    (hparent : (1, i / 512) ∈ nodes) (p : Nat) :
    (s.memory (addr 1 (i / 512) + 8 * (i % 512)) ||| p * 4096) |||
        (pagePresentBit ||| pageReadWriteBit) = (addr 0 i ||| p * 4096) + 3 := by
  have hword := hs.word_aligned i
  have haligned : (addr 0 i ||| p * 4096) % 4096 = 0 := by
    have hmod : (addr 0 i ||| p * 4096) % 2 ^ 12 = _ := Nat.or_mod_two_pow
    norm_num only at hmod
    rwa [hword, Nat.mul_mod_left] at hmod
  rw [hs.entry_of hparent]
  split
  · rw [← entry_word hword, Nat.or_right_comm (addr 0 i) _ (p * 4096),
      Nat.or_assoc (addr 0 i ||| p * 4096), Nat.or_self, entry_word haligned]
  · rename_i hnot
    have hzero : addr 0 i = 0 := by
      refine hs.words.eq_zero fun p hp hkey => hnot ?_
      exact (hs.leaf_iff i).mpr ⟨p, hp, hkey⟩
    rw [hzero] at haligned ⊢
    exact entry_word haligned

/-- The leaves of some pages. -/
def leavesOf (top : Nat) (P : Finset Nat) : Finset Nat :=
  P.image (· % 512 ^ top)

theorem leavesOf_union (top : Nat) (P P' : Finset Nat) :
    leavesOf top (P ∪ P') = leavesOf top P ∪ leavesOf top P' :=
  Finset.image_union _ _

/-- Pages that the root can tell apart. -/
theorem leavesOf_eq
    {top : Nat} {P : Finset Nat}
    (hP : ∀ p ∈ P, p < 512 ^ top) :
    leavesOf top P = P := by
  rw [leavesOf, Finset.image_congr fun p hp => Nat.mod_eq_of_lt (hP p hp)]
  exact Finset.image_id

/-- The loop over the pages below one table of the lowest level. -/
theorem fillPages_represents {index endAddress : Nat}
    (hend : endAddress ≤ (index + 1) * 2 ^ 21) (hword : endAddress ≤ 2 ^ 64)
    (p : Nat) (hp : index * 512 ≤ p)
    (nodes : Finset (Nat × Nat)) (pages : Finset Nat) (addr : Nat → Nat → Nat) (s : TableSpace)
    (hs : Represents b nodes pages addr s)
    (hparent : (1, index % 512 ^ (b.top - 1)) ∈ nodes) :
    ∃ addr', Agree nodes addr addr' ∧
      Represents b
        (nodes ∪ cover 512 1 (leavesOf b.top (Finset.Ico p ((endAddress + 4095) / 4096))))
        (pages ∪ Finset.Ico p ((endAddress + 4095) / 4096)) addr'
        { s with
          memory := fillPages (addr 1 (index % 512 ^ (b.top - 1))) endAddress (p * 4096)
            s.memory } := by
  rw [fillPages]
  split
  · rename_i hlt
    have htop : 1 ≤ b.top := hs.level_le _ _ hparent
    have hindex : p / 512 = index := by omega
    have hdiv : p % 512 ^ b.top / 512 = index % 512 ^ (b.top - 1) := by
      rw [← hindex]
      exact leaf_div htop p
    have hentry : ((p * 4096) >>> 12) &&& 0x1FF = p % 512 ^ b.top % 512 := by
      rw [entry_index, show (2 : Nat) ^ 12 = 4096 by norm_num,
        Nat.mul_div_cancel p (by decide), Nat.mod_mod_of_dvd]
      exact dvd_pow_self 512 (by omega)
    have hpages : Finset.Ico p ((endAddress + 4095) / 4096) =
        insert p (Finset.Ico (p + 1) ((endAddress + 4095) / 4096)) := by
      ext j
      rw [Finset.mem_insert, Finset.mem_Ico, Finset.mem_Ico]
      omega
    have hcover (Q : Finset Nat) : cover 512 1 (leavesOf b.top (insert p Q)) =
        insert (0, p % 512 ^ b.top) (cover 512 1 (leavesOf b.top Q)) := by
      ext ⟨k, j⟩
      simp only [leavesOf, Finset.image_insert, Finset.mem_insert, mem_cover_one, Prod.mk.injEq]
      tauto
    rw [← hdiv] at hparent ⊢
    have hstep := hs.addPage rfl (hlt.trans_le hword) hparent
    dsimp only
    rw [hentry, initialPageSize, ← Nat.succ_mul, orWord_orWord, hs.page_entry hparent, hpages,
      hcover, Finset.union_insert, ← Finset.insert_union, Finset.union_insert,
      ← Finset.insert_union]
    have hkeep (k i : Nat) : placeNode addr 0 (p % 512 ^ b.top)
        (addr 0 (p % 512 ^ b.top) ||| p * 4096) (k + 1) i = addr (k + 1) i :=
      placeNode_of_ne (by simp) _ _
    obtain ⟨addr', hagree, hrest⟩ := fillPages_represents hend hword (p + 1) (by omega) _ _ _ _
      hstep (by rw [← hdiv]; exact Finset.mem_insert_of_mem hparent)
    rw [← hdiv, hkeep] at hrest
    exact ⟨addr', fun k i hn => (hagree k i (Finset.mem_insert_of_mem hn)).trans (hkeep k i),
      hrest⟩
  · refine ⟨addr, Agree.refl _ _, ?_⟩
    rw [Finset.Ico_eq_empty (by omega)]
    simpa [leavesOf] using hs
termination_by endAddress - p * 4096

/-- Mapping a range, with the nodes that its pages need up to a level. -/
def PreparesRange (b : TableBuffer) (levels startAddress endAddress : Nat)
    (nodes : Finset (Nat × Nat)) (pages : Finset Nat) (addr : Nat → Nat → Nat)
    (r : Bool × TableSpace) : Prop :=
  Prepares b (cover 512 levels (leavesOf b.top (pagesOf startAddress endAddress)))
    (pagesOf startAddress endAddress) nodes pages addr r

/-- A function that prepares the table of one level below a given one, for the part of a
range that the table manages. -/
def PreparesParts (b : TableBuffer) (k : Nat)
    (prepare : Nat → Nat → Nat → Nat → TableSpace → Bool × TableSpace) : Prop :=
  ∀ (nodes : Finset (Nat × Nat)) (pages : Finset Nat) (addr : Nat → Nat → Nat) (s : TableSpace)
    (upperTable startAddress endAddress : Nat),
    Represents b nodes pages addr s →
    (k + 2, nodeIndex b.top (k + 2) startAddress) ∈ nodes →
    addr (k + 2) (nodeIndex b.top (k + 2) startAddress) = upperTable →
    startAddress < endAddress → endAddress ≤ 2 ^ 64 →
    endAddress ≤ (startAddress / 2 ^ (12 + 9 * (k + 1)) + 1) * 2 ^ (12 + 9 * (k + 1)) →
    PreparesRange b (k + 2) startAddress endAddress nodes pages addr
      (prepare b.bufferEnd upperTable startAddress endAddress s)

/-- The pages of a part lie below one table. -/
theorem page_index_of_part {k startAddress endAddress p : Nat}
    (hend : endAddress ≤ (startAddress / 2 ^ (12 + 9 * k) + 1) * 2 ^ (12 + 9 * k))
    (hp : p ∈ pagesOf startAddress endAddress) :
    p / 512 ^ k = startAddress / 2 ^ (12 + 9 * k) := by
  obtain ⟨hlt, hpend, hpstart⟩ := mem_pagesOf.mp hp
  have hle : startAddress / 4096 ≤ p := by omega
  rw [managed_bytes] at hend ⊢
  refine le_antisymm ?_ ?_
  · refine Nat.le_of_lt_succ ((Nat.div_lt_iff_lt_mul (by positivity)).mpr ?_)
    have hpage : p * 4096 < (startAddress / (4096 * 512 ^ k) + 1) * 512 ^ k * 4096 := by
      calc p * 4096 < endAddress := hpend
        _ ≤ _ := hend
        _ = _ := by ring
    exact Nat.lt_of_mul_lt_mul_right hpage
  · rw [← Nat.div_div_eq_div_mul]
    exact Nat.div_le_div_right hle

/-- The table of a part, and then what the part needs below it. -/
theorem subtable_then {k startAddress endAddress upperTable : Nat}
    {f : Nat → TableSpace → Bool × TableSpace}
    (hs : Represents b nodes pages addr s)
    (hparent : (k + 2, nodeIndex b.top (k + 2) startAddress) ∈ nodes)
    (hupper : addr (k + 2) (nodeIndex b.top (k + 2) startAddress) = upperTable)
    (hlt : startAddress < endAddress)
    (hend : endAddress ≤
      (startAddress / 2 ^ (12 + 9 * (k + 1)) + 1) * 2 ^ (12 + 9 * (k + 1)))
    (hf : ∀ nodes pages addr s, Represents b nodes pages addr s →
      (k + 1, nodeIndex b.top (k + 1) startAddress) ∈ nodes →
      PreparesRange b (k + 1) startAddress endAddress nodes pages addr
        (f (addr (k + 1) (nodeIndex b.top (k + 1) startAddress)) s)) :
    PreparesRange b (k + 2) startAddress endAddress nodes pages addr
      (match subtableOf (12 + 9 * (k + 1)) startAddress upperTable b.bufferEnd s with
      | (none, s) => (false, s)
      | (some table, s) => f table s) := by
  have htop : k + 2 ≤ b.top := hs.level_le _ _ hparent
  have hne : (leavesOf b.top (pagesOf startAddress endAddress)).Nonempty :=
    Finset.Nonempty.image ⟨startAddress / 4096, mem_pagesOf.mpr (by omega)⟩ _
  have hindex : ∀ i ∈ leavesOf b.top (pagesOf startAddress endAddress),
      i / 512 ^ (k + 1) = nodeIndex b.top (k + 1) startAddress := by
    intro i hi
    obtain ⟨p, hp, rfl⟩ := Finset.mem_image.mp hi
    rw [leaf_div (by omega), page_index_of_part hend hp]
    rfl
  have hcover : cover 512 (k + 2) (leavesOf b.top (pagesOf startAddress endAddress)) = _ :=
    cover_succ hne hindex
  rw [nodeIndex_succ htop] at hparent hupper
  rw [PreparesRange, hcover]
  obtain ⟨s', hcall, rfl, hnot, hfull⟩ | ⟨s', addr', hcall, hs', hagree⟩ :=
    subtableOf_spec hs rfl hparent hupper
  · rw [hcall]
    refine .full nodes pages addr hs (Finset.Subset.refl _) Finset.subset_union_left
      ⟨_, mem_innerNodes.mpr ⟨Finset.mem_insert_self _ _, Nat.succ_pos k⟩, hnot⟩ hfull
  · rw [hcall]
    dsimp only
    have hrest := hf _ pages addr' s' hs' (Finset.mem_insert_self _ _)
    rw [PreparesRange, Finset.insert_eq, Finset.union_comm, ← Finset.union_empty pages] at hrest
    have hafter := Prepares.after hagree hrest
    rwa [Finset.empty_union, ← Finset.insert_eq] at hafter

end Steps

end Boot
end DexprOS
