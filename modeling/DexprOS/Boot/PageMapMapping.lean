import DexprOS.Boot.PageMapTables
import Mathlib.Tactic.Positivity

/-!
# Mapping ranges

The loops over subtables reach every page of a range, whatever table boundaries it crosses.

Main facts:
* `prepareLevel1Table_prepares`, `prepareTable_prepares`: the tables of one level;
* `mapSubtables_prepares`: a range below one table;
* `mapRanges_prepares`: the ranges of a memory map;
* `setupPageMap_prepares`: what a setup function leaves;
* `setupPageMap_consumes`: it succeeds as soon as its buffer holds the tables of the ranges,
  and takes exactly these.
-/

namespace DexprOS
namespace Boot

open Radix OrWords

section Parts

variable {b : TableBuffer} {nodes : Finset (Nat × Nat)} {pages : Finset Nat}
variable {addr : Nat → Nat → Nat} {s : TableSpace} {k : Nat}

theorem prepareLevel1Table_prepares :
    PreparesParts b 0 prepareLevel1Table := by
  intro nodes pages addr s upperTable startAddress endAddress hs hparent hupper hlt hword hend
  refine subtable_then hs hparent hupper hlt hend (f := fun level1Table s => (true, { s with
    memory := fillPages level1Table endAddress (startAddress &&& pageAddressMask) s.memory })) ?_
  intro nodes pages addr s hs hn
  have hpages : pagesOf startAddress endAddress =
      Finset.Ico (startAddress / 4096) ((endAddress + 4095) / 4096) :=
    if_pos hlt
  have hfirst : startAddress / 2 ^ (12 + 9 * (0 + 1)) * 512 ≤ startAddress / 4096 := by
    norm_num
    omega
  obtain ⟨addr', hagree, hfilled⟩ :=
    fillPages_represents hend hword _ hfirst _ _ _ _ hs hn
  rw [and_pageAddressMask (by omega), PreparesRange, hpages]
  exact .fits addr' hfilled hagree

/-- The end of the first part of a range. -/
theorem next_part_start
    {a M : Nat}
    (hM : 0 < M) :
    a < (a / M + 1) * M := by
  rw [Nat.add_mul, Nat.one_mul]
  exact Nat.lt_div_mul_add hM

/-- A range splits into its first part and the rest. -/
theorem pagesOf_split
    {startAddress endAddress cut : Nat}
    (hcut : cut % 4096 = 0) (hlt : startAddress < cut) :
    pagesOf startAddress endAddress =
      pagesOf startAddress (min cut endAddress) ∪ pagesOf cut endAddress := by
  ext p
  rw [Finset.mem_union, mem_pagesOf, mem_pagesOf, mem_pagesOf]
  omega

/-- One range after another. -/
theorem PreparesRange.bind {levels start₁ end₁ start₂ end₂ start end' : Nat}
    {r : Bool × TableSpace} {f : TableSpace → Bool × TableSpace}
    (hsplit : pagesOf start end' = pagesOf start₁ end₁ ∪ pagesOf start₂ end₂)
    (hf : ∀ nodes' pages' addr' s', Represents b nodes' pages' addr' s' → nodes ⊆ nodes' →
      Agree nodes addr addr' →
      PreparesRange b levels start₂ end₂ nodes' pages' addr' (f s')) :
    PreparesRange b levels start₁ end₁ nodes pages addr r →
    PreparesRange b levels start end' nodes pages addr
      (match r with
      | (false, s) => (false, s)
      | (true, s) => f s) := by
  unfold PreparesRange
  rw [hsplit, leavesOf_union, cover_union]
  exact Prepares.bind fun addr' s' hs' hagree =>
    hf _ _ addr' s' hs' Finset.subset_union_left hagree

/-- The loop over the parts of a range below one table. -/
theorem forSubtables_prepares {table i endAddress : Nat}
    {prepare : Nat → Nat → Nat → Nat → TableSpace → Bool × TableSpace}
    (hprepare : PreparesParts b k prepare) (hword : endAddress ≤ 2 ^ 64)
    (subStart subEnd : Nat) (nodes : Finset (Nat × Nat)) (pages : Finset Nat)
    (addr : Nat → Nat → Nat) (s : TableSpace)
    (hsubEnd : subStart < endAddress →
      subEnd = min ((subStart / 2 ^ (12 + 9 * (k + 1)) + 1) * 2 ^ (12 + 9 * (k + 1))) endAddress)
    (hindex : ∀ a, subStart ≤ a → a < endAddress → nodeIndex b.top (k + 2) a = i)
    (hs : Represents b nodes pages addr s) (hn : (k + 2, i) ∈ nodes)
    (htable : addr (k + 2) i = table) :
    PreparesRange b (k + 2) subStart endAddress nodes pages addr
      (forSubtables (12 + 9 * (k + 1)) endAddress (prepare b.bufferEnd table) subStart subEnd
        s) := by
  induction hleft : endAddress - subStart using Nat.strong_induction_on
    generalizing subStart subEnd nodes pages addr s with
  | _ left ih =>
  rw [forSubtables]
  split
  · rename_i hlt
    have hsubEnd := hsubEnd hlt
    set M := 2 ^ (12 + 9 * (k + 1)) with hM
    have hpos : 0 < M := Nat.two_pow_pos _
    have hnext := next_part_start (a := subStart) hpos
    have halign : (subStart / M + 1) * M % 4096 = 0 := by
      rw [hM, managed_bytes, Nat.mul_left_comm]
      exact Nat.mul_mod_right _ _
    have hi := hindex subStart le_rfl hlt
    have hpart : PreparesRange b (k + 2) subStart subEnd nodes pages addr
        (prepare b.bufferEnd table subStart subEnd s) := by
      refine hprepare nodes pages addr s table subStart subEnd hs ?_ ?_ ?_ ?_ ?_
      · rwa [hi]
      · rwa [hi]
      · omega
      · omega
      · exact hsubEnd.trans_le (min_le_left _ _)
    refine PreparesRange.bind (hsubEnd ▸ pagesOf_split halign hnext) ?_ hpart
    intro nodes' pages' addr' s' hs' hsub hagree
    refine ih _ ?_ _ _ _ _ addr' s' ?_ ?_ hs' (hsub hn) ((hagree _ _ hn).trans htable) rfl
    · omega
    · intro hlt'
      rw [hsubEnd, min_eq_left hlt'.le]
    · intro a ha
      exact hindex a (hnext.le.trans ha)
  · rename_i hge
    have hpages : pagesOf subStart endAddress = ∅ := if_neg hge
    rw [PreparesRange, hpages]
    exact .nothing hs

/-- A range below one table. -/
theorem mapSubtables_prepares {table i startAddress endAddress : Nat}
    {prepare : Nat → Nat → Nat → Nat → TableSpace → Bool × TableSpace}
    (hprepare : PreparesParts b k prepare) (hword : endAddress ≤ 2 ^ 64)
    (hindex : ∀ a, startAddress ≤ a → a < endAddress → nodeIndex b.top (k + 2) a = i)
    (hs : Represents b nodes pages addr s) (hn : (k + 2, i) ∈ nodes)
    (htable : addr (k + 2) i = table) :
    PreparesRange b (k + 2) startAddress endAddress nodes pages addr
      (mapSubtables (12 + 9 * (k + 1)) (prepare b.bufferEnd table) startAddress endAddress s) :=
  forSubtables_prepares hprepare hword _ _ nodes pages addr s
    (fun _ => by rw [Nat.add_mul, Nat.one_mul]) hindex hs hn htable

/-- One level above. -/
theorem prepareTable_prepares
    {prepare : Nat → Nat → Nat → Nat → TableSpace → Bool × TableSpace}
    (hprepare : PreparesParts b k prepare) :
    PreparesParts b (k + 1)
      (prepareTable (12 + 9 * (k + 2)) (12 + 9 * (k + 1)) prepare) := by
  intro nodes pages addr s upperTable startAddress endAddress hs hparent hupper hlt hword hend
  refine subtable_then hs hparent hupper hlt hend (f := fun table s =>
    mapSubtables (12 + 9 * (k + 1)) (prepare b.bufferEnd table) startAddress endAddress s) ?_
  intro nodes pages addr s hs hn
  refine mapSubtables_prepares hprepare hword ?_ hs hn rfl
  intro a ha hlt'
  have hdiv : a / 2 ^ (12 + 9 * (k + 2)) = startAddress / 2 ^ (12 + 9 * (k + 2)) :=
    Nat.div_eq_of_lt_le ((Nat.div_mul_le_self _ _).trans ha) (hlt'.trans_le hend)
  rw [nodeIndex, hdiv]
  rfl

theorem prepareLevel2Table_prepares :
    PreparesParts b 1 prepareLevel2Table :=
  prepareTable_prepares prepareLevel1Table_prepares

theorem prepareLevel3Table_prepares :
    PreparesParts b 2 prepareLevel3Table :=
  prepareTable_prepares prepareLevel2Table_prepares

theorem prepareLevel4Table_prepares :
    PreparesParts b 3 prepareLevel4Table :=
  prepareTable_prepares prepareLevel3Table_prepares

end Parts

section Ranges

variable {b : TableBuffer} {nodes : Finset (Nat × Nat)} {pages : Finset Nat}
variable {addr : Nat → Nat → Nat} {s : TableSpace}

/-- A function that maps a range below a root table of level `levels`. -/
def MapsRanges (levels : Nat)
    (mapMemoryRange : Nat → Nat → Nat → Nat → TableSpace → Bool × TableSpace) : Prop :=
  ∀ (b : TableBuffer) (nodes : Finset (Nat × Nat)) (pages : Finset Nat)
    (addr : Nat → Nat → Nat) (s : TableSpace) (startAddress endAddress : Nat),
    b.top = levels → endAddress ≤ 2 ^ 64 →
    Represents b nodes pages addr s → (levels, 0) ∈ nodes →
    PreparesRange b levels startAddress endAddress nodes pages addr
      (mapMemoryRange b.bufferEnd (addr levels 0) startAddress endAddress s)

theorem mapMemoryRangeInLevel4Table_maps :
    MapsRanges 4 mapMemoryRangeInLevel4Table := by
  intro b nodes pages addr s startAddress endAddress htop hend hs hn
  refine mapSubtables_prepares prepareLevel3Table_prepares hend (fun a _ _ => ?_) hs hn rfl
  rw [htop]
  exact nodeIndex_top 4 a

theorem mapMemoryRangeInLevel5Table_maps :
    MapsRanges 5 mapMemoryRangeInLevel5Table := by
  intro b nodes pages addr s startAddress endAddress htop hend hs hn
  refine mapSubtables_prepares prepareLevel4Table_prepares hend (fun a _ _ => ?_) hs hn rfl
  rw [htop]
  exact nodeIndex_top 5 a

/-- The pages that some ranges touch. -/
def pagesOfRanges (ranges : List (Nat × Nat)) : Finset Nat :=
  ranges.toFinset.biUnion fun range => pagesOf range.1 range.2

theorem mem_pagesOfRanges
    {ranges : List (Nat × Nat)} {p : Nat} :
    p ∈ pagesOfRanges ranges ↔ ∃ range ∈ ranges, p ∈ pagesOf range.1 range.2 := by
  simp [pagesOfRanges]

/-- The ranges of a memory map, one after another. -/
theorem mapRanges_prepares
    {mapMemoryRange : Nat → Nat → Nat → Nat → TableSpace → Bool × TableSpace}
    (hmaps : MapsRanges b.top mapMemoryRange)
    {ranges : List (Nat × Nat)} {root : Nat}
    (hend : ∀ range ∈ ranges, range.2 ≤ 2 ^ 64)
    (hs : Represents b nodes pages addr s) (hn : (b.top, 0) ∈ nodes)
    (hroot : addr b.top 0 = root) (htop : 0 < b.top) :
    Prepares b (cover 512 b.top (leavesOf b.top (pagesOfRanges ranges))) (pagesOfRanges ranges)
      nodes pages addr (mapRanges (mapMemoryRange b.bufferEnd root) ranges s) := by
  induction ranges generalizing nodes pages addr s with
  | nil =>
      exact .nothing hs
  | cons range ranges ih =>
      have hpages : pagesOfRanges (range :: ranges) =
          pagesOf range.1 range.2 ∪ pagesOfRanges ranges := by
        unfold pagesOfRanges
        rw [List.toFinset_cons, Finset.biUnion_insert]
      rw [hpages, leavesOf_union, cover_union]
      subst hroot
      have hfirst := hmaps b nodes pages addr s range.1 range.2 rfl
        (hend _ (List.mem_cons_self ..)) hs hn
      refine Prepares.bind (fun addr' s' hs' hagree => ?_) hfirst
      obtain ⟨top, htop⟩ := Nat.exists_eq_add_of_lt htop
      refine ih (fun range hr => hend range (List.mem_cons_of_mem _ hr)) hs'
        (Finset.mem_union_left _ hn) ?_
      rw [Nat.zero_add] at htop
      rw [htop] at hn ⊢
      exact hagree _ _ hn

end Ranges

section Setup

/-- The buffer of a setup function. -/
def setupBuffer (levels pageMapBuffer pageMapBufferSize : Nat) (memory : Nat → Nat) :
    TableBuffer where
  top := levels
  buffer := pageMapBuffer
  bufferEnd := pageMapBuffer + 8 * (pageMapBufferSize / 8)
  initial := memory

/-- The addresses while the root is the only table. -/
def rootAddr (root : Nat) : Nat → Nat → Nat
  | 0, _ => 0
  | _ + 1, _ => root

/-- The root table alone. -/
theorem root_represents
    {levels buffer size : Nat} (hlevels : 0 < levels)
    (halign : buffer % 4096 = 0) (hroom : 4096 ≤ size) (hword : buffer + size ≤ 2 ^ 64)
    (memory : Nat → Nat) :
    Represents (setupBuffer levels buffer size memory) {(levels, 0)} ∅ (rootAddr buffer)
      ⟨zeroTable buffer memory, buffer + 8 * 512⟩ := by
  have hinner : innerNodes {(levels, 0)} = {(levels, 0)} := by
    unfold innerNodes
    rw [Finset.filter_singleton, if_pos hlevels]
  constructor
  · exact halign
  · dsimp only [setupBuffer]
    omega
  · intro k i hn
    rw [Finset.mem_singleton, Prod.mk.injEq] at hn
    exact hn.1.le
  · intro k i hn hk
    rw [Finset.mem_singleton, Prod.mk.injEq] at hn
    exact absurd hn.1 hk.ne
  · intro i
    simp [hlevels.ne]
  · exact collects_empty
  · intro p hp
    exact absurd hp (Finset.notMem_empty p)
  · intro k i hn
    exact halign
  · intro k i hn
    exact ⟨le_rfl, le_rfl⟩
  · intro k i k' i' hn hn' _
    simp only [Finset.mem_singleton, Prod.mk.injEq] at hn hn'
    omega
  · intro k i hn e he
    rw [if_neg]
    · dsimp only [rootAddr]
      exact zeroTable_entry he memory
    · simp only [Finset.mem_singleton, Prod.mk.injEq] at hn ⊢
      omega
  · rw [hinner, Finset.card_singleton]
    rfl
  · dsimp only [setupBuffer]
    omega
  · intro a ha
    dsimp only [setupBuffer] at ha ⊢
    exact zeroTable_outside ha memory

/-- What a setup function leaves. -/
theorem setupPageMap_prepares {levels : Nat}
    {mapMemoryRange : Nat → Nat → Nat → Nat → TableSpace → Bool × TableSpace}
    (hmaps : MapsRanges (levels + 1) mapMemoryRange)
    {ranges : List (Nat × Nat)} {buffer size : Nat}
    (hend : ∀ range ∈ ranges, range.2 ≤ 2 ^ 64)
    (halign : buffer % 4096 = 0) (hroom : 4096 ≤ size) (hword : buffer + size ≤ 2 ^ 64)
    (memory : Nat → Nat) :
    ∃ result : Bool × TableSpace,
      setupPageMap mapMemoryRange ranges buffer size memory =
        (if result.1 then buffer else 0, result.2) ∧
      Prepares (setupBuffer (levels + 1) buffer size memory)
        (cover 512 (levels + 1) (leavesOf (levels + 1) (pagesOfRanges ranges)))
        (pagesOfRanges ranges) {(levels + 1, 0)} ∅ (rootAddr buffer) result := by
  have hroot := root_represents (Nat.succ_pos levels) halign hroom hword memory
  have hmapped := mapRanges_prepares hmaps hend hroot (Finset.mem_singleton_self _)
    (show rootAddr buffer (levels + 1) 0 = buffer from rfl) (Nat.succ_pos levels)
  refine ⟨_, ?_, hmapped⟩
  rw [setupPageMap, initialPageSize, singlePageMapTableSize, if_neg (not_not.mpr halign),
    if_neg (Nat.not_lt.mpr hroom)]
  have hpointer (result : Bool × TableSpace) :
      (match result with
        | (false, s) => (0, s)
        | (true, s) => (buffer, s)) = (if result.1 then buffer else 0, result.2) := by
    obtain ⟨_ | _, s⟩ := result
    · rfl
    · rfl
  exact hpointer _

/-- A buffer that is not page aligned, or too small for the root. -/
theorem setupPageMap_unusable {buffer size : Nat}
    (h : buffer % 4096 ≠ 0 ∨ size < 4096)
    (mapMemoryRange : Nat → Nat → Nat → Nat → TableSpace → Bool × TableSpace)
    (ranges : List (Nat × Nat)) (memory : Nat → Nat) :
    setupPageMap mapMemoryRange ranges buffer size memory = (0, ⟨memory, buffer⟩) := by
  rw [setupPageMap, initialPageSize, singlePageMapTableSize]
  by_cases halign : buffer % 4096 = 0
  · rw [if_neg (not_not.mpr halign), if_pos (h.resolve_left (not_not.mpr halign))]
  · rw [if_pos halign]

end Setup

section Room

/-- The tables that some pages need, with the root. -/
def tablesNeeded (levels : Nat) (pages : Finset Nat) : Nat :=
  ((List.range' 1 (levels - 1)).map fun k => (pages.image (· / 512 ^ k)).card).sum + 1

/-- The tables that some ranges need. -/
def tablesForRanges (levels : Nat) (ranges : List (Nat × Nat)) : Nat :=
  tablesNeeded levels (leavesOf levels (pagesOfRanges ranges))

theorem card_tables
    {levels : Nat}
    (hlevels : 0 < levels) (pages : Finset Nat) :
    (innerNodes ({(levels, 0)} ∪ cover 512 levels pages)).card = tablesNeeded levels pages := by
  have hroot : innerNodes {(levels, 0)} = {(levels, 0)} := by
    unfold innerNodes
    rw [Finset.filter_singleton, if_pos hlevels]
  have hnot : (levels, 0) ∉ innerNodes (cover 512 levels pages) := by
    rw [mem_innerNodes, mem_cover]
    rintro ⟨⟨hlt, -⟩, -⟩
    exact absurd hlt (lt_irrefl _)
  rw [innerNodes_union, hroot, Finset.singleton_union, Finset.card_insert_of_notMem hnot,
    card_innerNodes_cover]
  rfl

variable {levels : Nat}
variable {mapMemoryRange : Nat → Nat → Nat → Nat → TableSpace → Bool × TableSpace}
variable {ranges : List (Nat × Nat)} {buffer size : Nat}

/-- A setup function succeeds exactly when its buffer holds the tables that the ranges
need, and then takes that many. -/
theorem setupPageMap_consumes
    (hmaps : MapsRanges (levels + 1) mapMemoryRange)
    (hend : ∀ range ∈ ranges, range.2 ≤ 2 ^ 64)
    (halign : buffer % 4096 = 0) (hword : buffer + size ≤ 2 ^ 64) (memory : Nat → Nat) :
    (4096 * tablesForRanges (levels + 1) ranges ≤ size ∧
      (setupPageMap mapMemoryRange ranges buffer size memory).1 = buffer ∧
      (setupPageMap mapMemoryRange ranges buffer size memory).2.next =
        buffer + 4096 * tablesForRanges (levels + 1) ranges) ∨
    (size < 4096 * tablesForRanges (levels + 1) ranges ∧
      (setupPageMap mapMemoryRange ranges buffer size memory).1 = 0) := by
  by_cases hroom : size < 4096
  · rw [setupPageMap_unusable (.inr hroom)]
    refine .inr ⟨?_, rfl⟩
    unfold tablesForRanges tablesNeeded
    omega
  · obtain ⟨result, hresult, hprepares⟩ := setupPageMap_prepares hmaps hend halign
      (by omega) hword memory
    have hcard : (innerNodes ({(levels + 1, 0)} ∪
        cover 512 (levels + 1) (leavesOf (levels + 1) (pagesOfRanges ranges)))).card =
          tablesForRanges (levels + 1) ranges :=
      card_tables (Nat.succ_pos levels) _
    rw [hresult]
    cases hprepares with
    | fits addr represents agree =>
        have hnext := represents.next_eq
        have hle := represents.next_le
        rw [hcard] at hnext
        dsimp only [setupBuffer] at hnext hle
        exact .inl ⟨by omega, rfl, hnext⟩
    | full nodes pages addr represents subset subset_need missing noRoom =>
        obtain ⟨n, hn, hnot⟩ := missing
        have hlt : (innerNodes nodes).card < tablesForRanges (levels + 1) ranges := by
          rw [← hcard]
          refine Finset.card_lt_card ⟨innerNodes_mono subset_need, fun hsub => ?_⟩
          have hmem := hsub (innerNodes_mono Finset.subset_union_right hn)
          exact hnot (mem_innerNodes.mp hmem).1
        have hnext := represents.next_eq
        dsimp only [setupBuffer] at hnext noRoom
        exact .inr ⟨by omega, rfl⟩

end Room

end Boot
end DexprOS
