import DexprOS.Kernel.KstdlibAccesses
import DexprOS.Kernel.KstdlibMemcmp

/-!
# Kernel string.c: alignment of the word accesses

`memset`, the forward paths of `memcpy` and `memcmp` start with as many bytes as the address is
above a multiple of the width of their words, where the bytes up to the next multiple would
align it.  This module adds the accesses of `memcmp` and says for all three when the words are
aligned nevertheless.

Main facts:
* `compareUnits_adds`, `memcmp_adds`: the accesses of a loop and of `memcmp`;
* `memset_aligned_iff`, `memcpy_aligned_iff`, `memcmp_aligned_iff`: aligned runs.
-/

namespace DexprOS
namespace KstdlibString

open Fuel ByteCopy ByteWords AccessLog

section Compare

/-- Two loads of one width. -/
theorem adds_loads
    (w p q : Nat) (log : AccessLog) :
    Adds {(w, p), (w, q)} log ⟨log.mem, (w, q) :: (w, p) :: log.accesses⟩ where
  kept := fun x hx => List.mem_cons_of_mem _ (List.mem_cons_of_mem _ hx)
  added := by
    rintro x (rfl | rfl)
    · exact List.mem_cons_of_mem _ List.mem_cons_self
    · exact List.mem_cons_self
  only := by
    intro x hx
    rcases List.mem_cons.mp hx with hq | hx
    · exact Or.inr (Or.inl (Or.inr hq))
    rcases List.mem_cons.mp hx with hp | hlog
    · exact Or.inr (Or.inl (Or.inl hp))
    · exact Or.inl hlog

/-- The outcome of comparing: bytes are not changed, the pointers have moved by `n` bytes
where no difference was found, and the accesses are added. -/
structure Outcome (made : Set (Nat × Nat)) (n : Nat) (s : CompareState AccessLog)
    (c : Compared AccessLog) : Prop where
  adds : Adds made s.mem c.result.2
  content : c.result.2.mem = s.mem.mem
  pointers : ∀ s', c = .equal s' → s'.pLhs = u64 (s.pLhs + n) ∧ s'.pRhs = u64 (s.pRhs + n)

/-- Both pointers of a state are addresses. -/
def InRange (s : CompareState AccessLog) : Prop :=
  s.pLhs < 2 ^ 64 ∧ s.pRhs < 2 ^ 64

theorem compareByte_eq
    (s : CompareState AccessLog) :
    compareByte s =
      if s.mem.mem s.pLhs = s.mem.mem s.pRhs then
        .equal { s with
          mem := ⟨s.mem.mem, (1, s.pRhs) :: (1, s.pLhs) :: s.mem.accesses⟩ }
      else
        .differ ((s.mem.mem s.pLhs).toNat - (s.mem.mem s.pRhs).toNat)
          ⟨s.mem.mem, (1, s.pRhs) :: (1, s.pLhs) :: s.mem.accesses⟩ := by
  simp only [compareByte, load_eq, wordAt_one, ne_eq, UInt8.toNat_inj]
  exact ite_not _ _ _

/-- A comparison of two bytes loads both. -/
theorem compareByte_outcome
    {s : CompareState AccessLog}
    (hs : InRange s) :
    Outcome {(1, s.pLhs), (1, s.pRhs)} 0 s (compareByte s) := by
  have hloads := adds_loads 1 s.pLhs s.pRhs s.mem
  rw [compareByte_eq]
  split
  · refine ⟨hloads, rfl, ?_⟩
    rintro s' ⟨⟩
    rw [Nat.add_zero, Nat.add_zero, u64_of_lt hs.1, u64_of_lt hs.2]
    exact ⟨rfl, rfl⟩
  · refine ⟨hloads, rfl, ?_⟩
    rintro s' ⟨⟩

/-- The bytes of two words are compared by loads of bytes. -/
theorem compareBytesOfWord_outcome
    (n : Nat) :
    ∀ {s : CompareState AccessLog}, InRange s → Outcome ∅ n s (compareBytesOfWord n s) := by
  induction n with
  | zero =>
      intro s hs
      refine ⟨adds_refl s.mem, rfl, ?_⟩
      rintro s' ⟨⟩
      rw [Nat.add_zero, Nat.add_zero, u64_of_lt hs.1, u64_of_lt hs.2]
      exact ⟨rfl, rfl⟩
  | succ n ih =>
      intro s hs
      have hbyte := compareByte_outcome hs
      have hadds : Adds ∅ s.mem (compareByte s).result.2 := by
        refine hbyte.adds.of_bytes ?_
        rintro x (rfl | rfl) <;> rfl
      rw [compareBytesOfWord]
      cases hfirst : compareByte s with
      | differ difference mem =>
          rw [hfirst] at hadds hbyte
          refine ⟨hadds, hbyte.content, ?_⟩
          rintro s' ⟨⟩
      | equal s₁ =>
          rw [hfirst] at hadds hbyte
          obtain ⟨hl, hr⟩ := hbyte.pointers s₁ rfl
          have hnext := ih (s := ⟨u64 (s₁.pLhs + 1), u64 (s₁.pRhs + 1), s₁.mem⟩)
            ⟨Nat.mod_lt _ (by omega), Nat.mod_lt _ (by omega)⟩
          have hboth := hadds.trans hnext.adds
          rw [Set.empty_union] at hboth
          refine ⟨hboth, hnext.content.trans hbyte.content, fun s' hs' => ?_⟩
          obtain ⟨hl', hr'⟩ := hnext.pointers s' hs'
          rw [hl, Nat.add_zero] at hl'
          rw [hr, Nat.add_zero] at hr'
          simp only [u64_u64_add, Nat.add_assoc, Nat.add_comm 1 n] at hl' hr'
          exact ⟨hl', hr'⟩

/-- A comparison of two words loads both, and perhaps their bytes. -/
theorem compareWord_outcome
    (w : Nat) {s : CompareState AccessLog}
    (hs : InRange s) :
    Outcome {(w, s.pLhs), (w, s.pRhs)} 0 s (compareWord w s) := by
  have hloads := adds_loads w s.pLhs s.pRhs s.mem
  have hstay : s.pLhs = u64 (s.pLhs + 0) ∧ s.pRhs = u64 (s.pRhs + 0) := by
    rw [Nat.add_zero, Nat.add_zero, u64_of_lt hs.1, u64_of_lt hs.2]
    exact ⟨rfl, rfl⟩
  simp only [compareWord, load_eq]
  split
  · have hbytes := compareBytesOfWord_outcome w
      (s := { s with mem := ⟨s.mem.mem, (w, s.pRhs) :: (w, s.pLhs) :: s.mem.accesses⟩ }) hs
    have hadds := hloads.trans hbytes.adds
    rw [Set.union_empty] at hadds
    split
    · rename_i difference mem hdiffer
      rw [hdiffer] at hadds hbytes
      refine ⟨hadds, hbytes.content, ?_⟩
      rintro s' ⟨⟩
    · rename_i s₁ hequal
      rw [hequal] at hadds hbytes
      refine ⟨hadds, hbytes.content, ?_⟩
      rintro s' ⟨⟩
      exact hstay
  · refine ⟨hloads, rfl, ?_⟩
    rintro s' ⟨⟩
    exact hstay

/-- The outcome of a loop over `n` units, which compares the first ones up to a difference. -/
structure LoopOutcome (w n : Nat) (made : Set (Nat × Nat)) (s : CompareState AccessLog)
    (c : Compared AccessLog) : Prop extends Outcome made (w * n) s c where
  units : made ⊆ copiedUnits w n s.pLhs s.pRhs
  first : 0 < n → (w, s.pLhs) ∈ made

section Units

variable {w n : Nat} {s s₁ : CompareState AccessLog} {made : Set (Nat × Nat)}

/-- Comparing without moving on leaves the pointers. -/
theorem Outcome.pointers_eq
    (h : Outcome made 0 s (.equal s₁)) (hs : InRange s) :
    s₁.pLhs = s.pLhs ∧ s₁.pRhs = s.pRhs := by
  obtain ⟨hl, hr⟩ := h.pointers s₁ rfl
  rw [Nat.add_zero, u64_of_lt hs.1] at hl
  rw [Nat.add_zero, u64_of_lt hs.2] at hr
  exact ⟨hl, hr⟩

/-- A loop over no units. -/
theorem loopOutcome_none
    (hs : InRange s) :
    LoopOutcome w 0 ∅ s (.equal s) := by
  refine ⟨⟨adds_refl s.mem, rfl, ?_⟩, Set.empty_subset _, ?_⟩
  · rintro s' ⟨⟩
    rw [Nat.mul_zero, Nat.add_zero, Nat.add_zero, u64_of_lt hs.1, u64_of_lt hs.2]
    exact ⟨rfl, rfl⟩
  · exact fun h => absurd h (Nat.lt_irrefl 0)

/-- A difference in the first units ends the loop. -/
theorem loopOutcome_differ
    {difference : Int} {mem : AccessLog} (hs : InRange s)
    (h : Outcome {(w, s.pLhs), (w, s.pRhs)} 0 s (.differ difference mem)) :
    LoopOutcome w (n + 1) {(w, s.pLhs), (w, s.pRhs)} s (.differ difference mem) := by
  refine ⟨⟨h.adds, h.content, ?_⟩, ?_, ?_⟩
  · rintro s' ⟨⟩
  · rw [copiedUnits_succ hs.1 hs.2]
    exact Set.subset_union_left
  · exact fun _ => Or.inl rfl

/-- Behind equal units the loop goes on. -/
theorem LoopOutcome.cons
    {c : Compared AccessLog}
    (h : LoopOutcome w n made ⟨u64 (s.pLhs + w), u64 (s.pRhs + w), s₁.mem⟩ c)
    (hs : InRange s) (hunit : Outcome {(w, s.pLhs), (w, s.pRhs)} 0 s (.equal s₁)) :
    LoopOutcome w (n + 1) ({(w, s.pLhs), (w, s.pRhs)} ∪ made) s c := by
  refine ⟨⟨hunit.adds.trans h.adds, h.content.trans hunit.content, ?_⟩, ?_, ?_⟩
  · intro s' hs'
    obtain ⟨hl, hr⟩ := h.pointers s' hs'
    have hlength : w + w * n = w * (n + 1) := by
      rw [Nat.mul_succ, Nat.add_comm]
    simp only [u64_u64_add, Nat.add_assoc, hlength] at hl hr
    exact ⟨hl, hr⟩
  · rw [copiedUnits_succ hs.1 hs.2]
    exact Set.union_subset_union_right _ h.units
  · exact fun _ => Or.inl (Or.inl rfl)

end Units

/-- A loop of `memcmp` ends, also when its pointers wrap. -/
theorem compareUnits_adds
    {w : Nat} (goesOn : Nat → Bool) {body : CompareState AccessLog → Compared AccessLog}
    (hbody : ∀ s, InRange s → Outcome {(w, s.pLhs), (w, s.pRhs)} 0 s (body s)) (n : Nat) :
    ∀ {s : CompareState AccessLog}, InRange s →
      (∀ i, i < n → goesOn (u64 (s.pLhs + w * i)) = true) →
      goesOn (u64 (s.pLhs + w * n)) = false →
      ∃ c made, LoopOutcome w n made s c ∧
        ∀ fuel, n < fuel → forever (comparePass w goesOn body) fuel s = some c := by
  induction n with
  | zero =>
      intro s hs _ hstop
      refine ⟨.equal s, ∅, loopOutcome_none hs, fun fuel hfuel => ?_⟩
      obtain ⟨m, rfl⟩ := Nat.exists_eq_add_of_lt hfuel
      rw [Nat.mul_zero, Nat.add_zero, u64_of_lt hs.1] at hstop
      apply forever_leave
      rw [comparePass, if_neg (by simp [hstop])]
  | succ n ih =>
      intro s hs hgo hstop
      have hgoes : goesOn s.pLhs = true := by
        have h := hgo 0 (Nat.succ_pos n)
        rwa [Nat.mul_zero, Nat.add_zero, u64_of_lt hs.1] at h
      have hunit := hbody s hs
      cases hfirst : body s with
      | differ difference mem =>
          rw [hfirst] at hunit
          refine ⟨.differ difference mem, _, loopOutcome_differ hs hunit, fun fuel hfuel => ?_⟩
          obtain ⟨m, rfl⟩ := Nat.exists_eq_add_of_lt hfuel
          apply forever_leave
          rw [comparePass, if_pos hgoes, hfirst]
      | equal s₁ =>
          rw [hfirst] at hunit
          obtain ⟨hl, hr⟩ := hunit.pointers_eq hs
          have hpass : comparePass w goesOn body s =
              .again ⟨u64 (s.pLhs + w), u64 (s.pRhs + w), s₁.mem⟩ := by
            rw [comparePass, if_pos hgoes, hfirst, ← hl, ← hr]
          obtain ⟨c, made, hrest, hrun⟩ := ih
            (s := ⟨u64 (s.pLhs + w), u64 (s.pRhs + w), s₁.mem⟩)
            ⟨Nat.mod_lt _ (by omega), Nat.mod_lt _ (by omega)⟩
            (by
              intro i hi
              rw [u64_unit_succ]
              exact hgo (i + 1) (by omega))
            (by rw [u64_unit_succ]; exact hstop)
          refine ⟨c, _, hrest.cons hs hunit, fun fuel hfuel => ?_⟩
          obtain ⟨m, rfl⟩ := Nat.exists_eq_add_of_lt hfuel
          rw [forever_again hpass]
          exact hrun (n + 1 + m) (by omega)

/-- An end pointer behind `n` units is reached after all of them. -/
theorem ne_end
    {w n i p : Nat}
    (hw : 0 < w) (hlength : w * n < 2 ^ 64) (hi : i < n) :
    (u64 (p + w * i) != u64 (p + w * n)) = true := by
  obtain ⟨k, rfl⟩ := Nat.exists_eq_add_of_lt hi
  have hpositive : 0 < w * (k + 1) := Nat.mul_pos hw (Nat.succ_pos k)
  rw [Nat.add_assoc, Nat.mul_add] at hlength ⊢
  rw [bne_iff_ne]
  unfold u64
  omega

/-- A loop over words up to an end pointer. -/
theorem compareWords_adds
    {w n : Nat} {s : CompareState AccessLog}
    (hw : 0 < w) (hs : InRange s) (hlength : w * n < 2 ^ 64) :
    ∃ c made, LoopOutcome w n made s c ∧
      ∀ fuel, n < fuel → compareWords w (u64 (s.pLhs + w * n)) s fuel = some c :=
  compareUnits_adds _ (fun _ => compareWord_outcome w) n hs
    (fun _ hi => ne_end hw hlength hi) (by simp)

/-- A loop over bytes up to an end pointer. -/
theorem compareBytes_adds
    {n : Nat} {s : CompareState AccessLog}
    (hs : InRange s) (hlength : n < 2 ^ 64) :
    ∃ c, Outcome ∅ n s c ∧
      ∀ fuel, n < fuel → compareBytes (u64 (s.pLhs + n)) s fuel = some c := by
  obtain ⟨c, made, hloop, hrun⟩ := compareUnits_adds (w := 1)
    (fun pLhs => pLhs != u64 (s.pLhs + 1 * n)) (fun _ => compareByte_outcome) n hs
    (fun _ hi => ne_end Nat.one_pos (by omega) hi) (by simp)
  have hbytes := hloop.adds.of_bytes fun x hx => copiedUnits_bytes x (hloop.units hx)
  have hpointers := hloop.pointers
  rw [Nat.one_mul] at hpointers hrun
  exact ⟨c, ⟨hbytes, hloop.content, hpointers⟩, hrun⟩

/-- The bytes at two addresses are equal, `n` of them. -/
def SameBytes (mem : Memory) (p q n : Nat) : Prop :=
  ∀ i, i < n → mem (u64 (p + i)) = mem (u64 (q + i))

theorem u64_succ_add
    (p i : Nat) :
    u64 (u64 (p + 1) + i) = u64 (p + (i + 1)) := by
  rw [u64_u64_add, Nat.add_assoc, Nat.add_comm 1 i]

/-- The first bytes, and those behind them. -/
theorem sameBytes_succ
    {mem : Memory} {p q n : Nat}
    (hp : p < 2 ^ 64) (hq : q < 2 ^ 64) :
    SameBytes mem p q (n + 1) ↔
      mem p = mem q ∧ SameBytes mem (u64 (p + 1)) (u64 (q + 1)) n := by
  simp only [SameBytes, u64_succ_add]
  have hzero : mem (u64 (p + 0)) = mem (u64 (q + 0)) ↔ mem p = mem q := by
    rw [Nat.add_zero, Nat.add_zero, u64_of_lt hp, u64_of_lt hq]
  constructor
  · intro h
    exact ⟨hzero.mp (h 0 (Nat.succ_pos n)), fun i hi => h (i + 1) (by omega)⟩
  · rintro ⟨hfirst, hrest⟩ i hi
    cases i with
    | zero => exact hzero.mpr hfirst
    | succ i => exact hrest i (by omega)

/-- The loop over bytes finds no difference exactly when they are equal. -/
theorem compareBytes_equal_iff
    (n : Nat) :
    ∀ {s : CompareState AccessLog} {fuel : Nat}, InRange s → n < 2 ^ 64 → n < fuel →
      ((∃ s', compareBytes (u64 (s.pLhs + n)) s fuel = some (.equal s')) ↔
        SameBytes s.mem.mem s.pLhs s.pRhs n) := by
  induction n with
  | zero =>
      intro s fuel hs _ hfuel
      obtain ⟨m, rfl⟩ := Nat.exists_eq_add_of_lt hfuel
      have hleave : compareBytes (u64 (s.pLhs + 0)) s (0 + m + 1) = some (.equal s) := by
        apply forever_leave
        rw [comparePass, if_neg (by simp [u64_of_lt hs.1])]
      rw [hleave]
      exact ⟨fun _ i hi => absurd hi (Nat.not_lt_zero i), fun _ => ⟨s, rfl⟩⟩
  | succ n ih =>
      intro s fuel hs hlength hfuel
      obtain ⟨m, rfl⟩ := Nat.exists_eq_add_of_lt hfuel
      have hgo : (s.pLhs != u64 (s.pLhs + (n + 1))) = true := by
        have h := ne_end (w := 1) (p := s.pLhs) Nat.one_pos (by omega) (Nat.succ_pos n)
        rwa [Nat.mul_zero, Nat.add_zero, u64_of_lt hs.1, Nat.one_mul] at h
      rw [sameBytes_succ hs.1 hs.2, compareBytes]
      by_cases hbyte : s.mem.mem s.pLhs = s.mem.mem s.pRhs
      · have hpass : comparePass 1 (fun pLhs => pLhs != u64 (s.pLhs + (n + 1))) compareByte s =
            .again ⟨u64 (s.pLhs + 1), u64 (s.pRhs + 1),
              ⟨s.mem.mem, (1, s.pRhs) :: (1, s.pLhs) :: s.mem.accesses⟩⟩ := by
          rw [comparePass, if_pos hgo, compareByte_eq, if_pos hbyte]
        rw [forever_again hpass]
        have hrest := @ih ⟨u64 (s.pLhs + 1), u64 (s.pRhs + 1),
            ⟨s.mem.mem, (1, s.pRhs) :: (1, s.pLhs) :: s.mem.accesses⟩⟩ (n + 1 + m)
          ⟨Nat.mod_lt _ (by omega), Nat.mod_lt _ (by omega)⟩ (by omega) (by omega)
        rw [compareBytes, u64_succ_add] at hrest
        rw [hrest]
        exact (and_iff_right hbyte).symm
      · rw [forever_leave (by rw [comparePass, if_pos hgo, compareByte_eq, if_neg hbyte])]
        simp [hbyte]

/-- The accesses of a path of `memcmp`: words of the path, the first of them if there is any
and the bytes of the prologue are equal, and none if these differ. -/
structure PathOutcome (mem : Memory) (w lhs rhs count : Nat) (made : Set (Nat × Nat)) :
    Prop where
  units : made ⊆ copiedUnits w ((count - lhs % w) / w) (u64 (lhs + lhs % w))
    (u64 (rhs + lhs % w))
  first : SameBytes mem lhs rhs (lhs % w) → 0 < (count - lhs % w) / w →
    (w, u64 (lhs + lhs % w)) ∈ made
  none : ¬SameBytes mem lhs rhs (lhs % w) → made = ∅

/-- A block that has returned ends the path. -/
theorem andThen_differ
    {first : Option (Compared AccessLog)} {next : CompareState AccessLog → _}
    {difference : Int} {log : AccessLog}
    (h : first = some (.differ difference log)) :
    Compared.andThen first next = some (.differ difference log) := by
  rw [h]
  rfl

theorem andThen_equal
    {first : Option (Compared AccessLog)} {next : CompareState AccessLog → _}
    {s : CompareState AccessLog}
    (h : first = some (.equal s)) :
    Compared.andThen first next = next s := by
  rw [h]
  rfl

/-- A path of `memcmp` with words of `w` bytes ends. -/
theorem memcmpAligned_adds
    {w lhs rhs count : Nat} (log : AccessLog)
    (hw : 0 < w) (hlhs : lhs < 2 ^ 64) (hrhs : rhs < 2 ^ 64) (hcount : w ≤ count)
    (hcountEnd : count < 2 ^ 64) :
    ∃ c made, Returns (memcmpAligned w lhs rhs count log) c ∧
      Adds made log c.result.2 ∧ PathOutcome log.mem w lhs rhs count made := by
  have hwrap : ∀ a, u64 a < 2 ^ 64 := fun a => Nat.mod_lt a (by omega)
  have hmod : lhs % w < w := Nat.mod_lt lhs hw
  have hsplit := Nat.div_add_mod (count - lhs % w) w
  have hquot : (count - lhs % w) / w ≤ count - lhs % w := Nat.div_le_self _ _
  have hrange : InRange ⟨lhs, rhs, log⟩ := ⟨hlhs, hrhs⟩
  obtain ⟨c₁, h₁, hrun₁⟩ := compareBytes_adds (n := lhs % w) hrange (by omega)
  have hsame := compareBytes_equal_iff (lhs % w) (s := ⟨lhs, rhs, log⟩) hrange (by omega)
    (Nat.lt_succ_self (lhs % w))
  rw [hrun₁ _ (Nat.lt_succ_self _)] at hsame
  cases c₁ with
  | differ difference log₁ =>
      refine ⟨_, ∅, ⟨count + 1, fun fuel hfuel => ?_⟩, h₁.adds, Set.empty_subset _, ?_, ?_⟩
      · rw [memcmpAligned]
        exact andThen_differ (hrun₁ fuel (by omega))
      · intro hequal
        obtain ⟨s', hs'⟩ := hsame.mpr hequal
        cases hs'
      · exact fun _ => rfl
  | equal s₁ =>
      have hequal := hsame.mp ⟨s₁, rfl⟩
      obtain ⟨hl₁, hr₁⟩ := h₁.pointers s₁ rfl
      obtain ⟨c₂, made, h₂, hrun₂⟩ := compareWords_adds (n := (count - lhs % w) / w) (s := s₁) hw
        ⟨hl₁ ▸ hwrap _, hr₁ ▸ hwrap _⟩ (by omega)
      have hadds₂ := h₁.adds.trans h₂.adds
      rw [Set.empty_union] at hadds₂
      have hpath : PathOutcome log.mem w lhs rhs count made := by
        refine ⟨?_, fun _ hpositive => ?_, fun hdiffer => absurd hequal hdiffer⟩
        · have hunits := h₂.units
          rwa [hl₁, hr₁] at hunits
        · have hfirst := h₂.first hpositive
          rwa [hl₁] at hfirst
      cases c₂ with
      | differ difference log₂ =>
          refine ⟨_, made, ⟨count + 1, fun fuel hfuel => ?_⟩, hadds₂, hpath⟩
          rw [memcmpAligned]
          refine (andThen_equal (hrun₁ fuel (by omega))).trans ?_
          exact andThen_differ (hrun₂ fuel (by omega))
      | equal s₂ =>
          obtain ⟨hl₂, hr₂⟩ := h₂.pointers s₂ rfl
          obtain ⟨c₃, h₃, hrun₃⟩ := compareBytes_adds (n := (count - lhs % w) % w) (s := s₂)
            ⟨hl₂ ▸ hwrap _, hr₂ ▸ hwrap _⟩ (by omega)
          have hadds₃ := hadds₂.trans h₃.adds
          rw [Set.union_empty] at hadds₃
          refine ⟨c₃, made, ⟨count + 1, fun fuel hfuel => ?_⟩, hadds₃, hpath⟩
          rw [memcmpAligned]
          refine (andThen_equal (hrun₁ fuel (by omega))).trans ?_
          refine (andThen_equal (hrun₂ fuel (by omega))).trans ?_
          exact hrun₃ fuel (by omega)

/-- The loop over single bytes ends; it makes no pass when its end wraps. -/
theorem compareBytesBelow_adds
    {count : Nat} {s : CompareState AccessLog}
    (hs : InRange s) (hcount : count < 2 ^ 64) :
    ∃ c, Adds ∅ s.mem c.result.2 ∧ ∀ fuel, count < fuel →
      compareBytesBelow (u64 (s.pLhs + count)) s fuel = some c := by
  have hl := hs.1
  obtain ⟨n, hn, hgo, hstop⟩ : ∃ n, n ≤ count ∧
      (∀ i, i < n → u64 (s.pLhs + 1 * i) < u64 (s.pLhs + count)) ∧
      ¬u64 (s.pLhs + 1 * n) < u64 (s.pLhs + count) := by
    by_cases hend : s.pLhs + count < 2 ^ 64
    · refine ⟨count, Nat.le_refl count, fun i hi => ?_, ?_⟩ <;>
        · unfold u64
          omega
    · refine ⟨0, Nat.zero_le count, fun i hi => absurd hi (Nat.not_lt_zero i), ?_⟩
      unfold u64
      omega
  obtain ⟨c, made, hloop, hrun⟩ := compareUnits_adds (w := 1)
    (fun pLhs => decide (pLhs < u64 (s.pLhs + count))) (fun _ => compareByte_outcome) n hs
    (fun i hi => by simpa using hgo i hi) (by simpa using hstop)
  have hbytes := hloop.adds.of_bytes fun x hx => copiedUnits_bytes x (hloop.units hx)
  exact ⟨c, hbytes, fun fuel hfuel => hrun fuel (by omega)⟩

/-- `memcmp` ends, with the accesses of the path for its width. -/
theorem memcmp_adds
    {lhs rhs count : Nat} (log : AccessLog)
    (hnull : ¬(lhs = 0 ∨ rhs = 0)) (hnone : ¬(count = 0 ∨ lhs = rhs))
    (hlhs : lhs < 2 ^ 64) (hrhs : rhs < 2 ^ 64) (hcount : count < 2 ^ 64) :
    ∃ r made, Returns (memcmp lhs rhs count log) r ∧ Adds made log r.2 ∧
      (fastPathWidth lhs rhs count ≠ 1 →
        PathOutcome log.mem (fastPathWidth lhs rhs count) lhs rhs count made) ∧
      (fastPathWidth lhs rhs count = 1 → made = ∅) := by
  -- a path with words of `w` bytes
  have hpath : ∀ w, 1 < w → w ≤ count → fastPathWidth lhs rhs count = w →
      (∀ fuel, memcmp lhs rhs count log fuel =
        (memcmpAligned w lhs rhs count log fuel).map Compared.result) →
      ∃ r made, Returns (memcmp lhs rhs count log) r ∧ Adds made log r.2 ∧
        (fastPathWidth lhs rhs count ≠ 1 →
          PathOutcome log.mem (fastPathWidth lhs rhs count) lhs rhs count made) ∧
        (fastPathWidth lhs rhs count = 1 → made = ∅) := by
    rintro w hw hle rfl hsame
    obtain ⟨c, made, hrun, hadds, houtcome⟩ := memcmpAligned_adds log (by omega) hlhs hrhs hle
      hcount
    refine ⟨c.result, made, (hrun.map Compared.result).congr hsame, hadds, fun _ => houtcome,
      fun hone => ?_⟩
    omega
  by_cases h8 : lhs % 8 = rhs % 8 ∧ count ≥ 8
  · refine hpath 8 (by omega) h8.2 ?_ fun fuel => ?_
    · rw [fastPathWidth, if_pos h8]
    · rw [memcmp, if_neg hnull, if_neg hnone, if_pos h8]
  by_cases h4 : lhs % 4 = rhs % 4 ∧ count ≥ 4
  · refine hpath 4 (by omega) h4.2 ?_ fun fuel => ?_
    · rw [fastPathWidth, if_neg h8, if_pos h4]
    · rw [memcmp, if_neg hnull, if_neg hnone, if_neg h8, if_pos h4]
  by_cases h2 : lhs % 2 = rhs % 2 ∧ count ≥ 2
  · refine hpath 2 (by omega) h2.2 ?_ fun fuel => ?_
    · rw [fastPathWidth, if_neg h8, if_neg h4, if_pos h2]
    · rw [memcmp, if_neg hnull, if_neg hnone, if_neg h8, if_neg h4, if_pos h2]
  · -- single bytes
    have hwidth : fastPathWidth lhs rhs count = 1 := by
      rw [fastPathWidth, if_neg h8, if_neg h4, if_neg h2]
    obtain ⟨c, hadds, hrun⟩ := compareBytesBelow_adds (s := ⟨lhs, rhs, log⟩) ⟨hlhs, hrhs⟩ hcount
    refine ⟨c.result, ∅, ⟨count + 1, fun fuel hfuel => ?_⟩, hadds, ?_, fun _ => rfl⟩
    · rw [memcmp, if_neg hnull, if_neg hnone, if_neg h8, if_neg h4, if_neg h2,
        hrun fuel hfuel, Option.map_some]
    · exact fun hne => absurd hwidth hne

/-- The accesses of a path are aligned when there are none, or its prologue ends at a
multiple of its width. -/
theorem PathOutcome.aligned_iff
    {mem : Memory} {w lhs rhs count : Nat} {made : Set (Nat × Nat)}
    (h : PathOutcome mem w lhs rhs count made)
    (hw : w = 8 ∨ w = 4 ∨ w = 2 ∨ w = 1) (hresidue : rhs % w = lhs % w) :
    (∀ x ∈ made, x.2 % x.1 = 0) ↔
      ¬SameBytes mem lhs rhs (lhs % w) ∨ WordsAligned w lhs count := by
  have hrhs : u64 (rhs + lhs % w) % w = u64 (lhs + lhs % w) % w := by
    rw [prologue_mod lhs hw, ← hresidue, prologue_mod rhs hw]
  have hall := copiedUnits_aligned_iff (n := (count - lhs % w) / w) hw hrhs
  rw [prologue_mod lhs hw] at hall
  constructor
  · intro haligned
    by_cases hsame : SameBytes mem lhs rhs (lhs % w)
    · rcases Nat.eq_zero_or_pos ((count - lhs % w) / w) with hzero | hpositive
      · exact Or.inr (Or.inl hzero)
      · have hfirst := haligned _ (h.first hsame hpositive)
        rw [prologue_mod lhs hw] at hfirst
        exact Or.inr (Or.inr hfirst)
    · exact Or.inl hsame
  · rintro (hdiffer | hwords) x hx
    · rw [h.none hdiffer] at hx
      exact absurd hx (Set.notMem_empty x)
    · exact hall.mpr hwords x (h.units hx)

end Compare

section Aligned

variable {α : Type}

/-- The run ends, and all the accesses that it has made are aligned. -/
def AlignedRun (f : Nat → Option (α × AccessLog)) : Prop :=
  ∃ r, Returns f r ∧ r.2.Aligned

theorem alignedRun_iff
    {f : Nat → Option (α × AccessLog)} {r : α × AccessLog}
    (hrun : Returns f r) :
    AlignedRun f ↔ r.2.Aligned := by
  constructor
  · rintro ⟨r', hrun', haligned⟩
    rwa [hrun.unique hrun']
  · exact fun haligned => ⟨r, hrun, haligned⟩

/-- A function that returns at once makes no access. -/
theorem alignedRun_of_fresh
    {f : Nat → Option (α × AccessLog)} (a : α) (mem : Memory)
    (h : ∀ fuel, f (fuel + 1) = some (a, fresh mem)) :
    AlignedRun f := by
  refine ⟨(a, fresh mem), ⟨1, fun fuel hfuel => ?_⟩, fun x hx => ?_⟩
  · obtain ⟨m, rfl⟩ := Nat.exists_eq_add_of_le' hfuel
    exact h m
  · exact absurd hx List.not_mem_nil

theorem memset_aligned_iff
    {dest count : Nat} (ch : Int32) (mem : Memory)
    (hdest : dest < 2 ^ 64) (hcount : count < 2 ^ 64) :
    AlignedRun (memset dest ch count (fresh mem)) ↔
      dest = 0 ∨ count < dest % 8 + 8 ∨
        2 ^ 64 ≤ dest + dest % 8 + 8 * ((count - dest % 8) / 8) ∨ dest % 4 = 0 := by
  by_cases hnone : count = 0 ∨ dest = 0
  · refine iff_of_true (alignedRun_of_fresh dest mem fun fuel => ?_) (by omega)
    rw [memset, if_pos hnone]
  · obtain ⟨log', hrun, hadds⟩ := memset_adds ch (fresh mem) (fun h => hnone (Or.inr h))
      (fun h => hnone (Or.inl h)) hdest hcount
    rw [alignedRun_iff hrun, hadds.aligned_iff, memsetWords_aligned_iff]
    exact (or_iff_right fun h => hnone (Or.inr h)).symm

theorem memcpy_aligned_iff
    {dest src count : Nat} (mem : Memory)
    (hdest : dest < 2 ^ 64) (hsrc : src < 2 ^ 64) (hcount : count < 2 ^ 64) :
    (¬OverlapsFromBelow dest src count → AlignedRun (memcpy dest src count (fresh mem))) ↔
      OverlapsFromBelow dest src count ∨ dest = 0 ∨ src = 0 ∨ count = 0 ∨ src = dest ∨
        WordsAligned (fastPathWidth dest src count) dest count := by
  rw [← or_iff_not_imp_left]
  refine or_congr_right' fun hguard => ?_
  by_cases hnone : dest = 0 ∨ src = 0 ∨ count = 0
  · refine iff_of_true (alignedRun_of_fresh dest mem fun fuel => ?_) ?_
    · rw [memcpy, if_pos hnone]
    · rcases hnone with h | h | h <;> simp [h]
  by_cases hsame : src = dest
  · refine iff_of_true (alignedRun_of_fresh dest mem fun fuel => ?_) (by simp [hsame])
    rw [memcpy, if_neg hnone, if_pos hsame]
  · obtain ⟨log', hrun, hadds⟩ := memcpyForwards_adds (fresh mem) hdest hsrc hcount
    have hmemcpy : Returns (memcpy dest src count (fresh mem)) (dest, log') := by
      refine (returns_iff_of_succ fun fuel => ?_).mpr hrun
      rw [memcpy, if_neg hnone, if_neg hsame, if_neg hguard]
    rw [not_or, not_or] at hnone
    rw [alignedRun_iff hmemcpy, hadds.aligned_iff, pathUnits_aligned_iff]
    simp [hnone, hsame]

theorem memcmp_aligned_iff
    {lhs rhs count : Nat} (mem : Memory)
    (hlhs : lhs < 2 ^ 64) (hrhs : rhs < 2 ^ 64) (hcount : count < 2 ^ 64) :
    AlignedRun (memcmp lhs rhs count (fresh mem)) ↔
      lhs = 0 ∨ rhs = 0 ∨ count = 0 ∨ lhs = rhs ∨
        ¬SameBytes mem lhs rhs (lhs % fastPathWidth lhs rhs count) ∨
        WordsAligned (fastPathWidth lhs rhs count) lhs count := by
  by_cases hnull : lhs = 0 ∨ rhs = 0
  · refine iff_of_true (alignedRun_of_fresh 0 mem fun fuel => ?_) ?_
    · rw [memcmp, if_pos hnull]
    · rcases hnull with h | h <;> simp [h]
  by_cases hnone : count = 0 ∨ lhs = rhs
  · refine iff_of_true (alignedRun_of_fresh 0 mem fun fuel => ?_) ?_
    · rw [memcmp, if_neg hnull, if_pos hnone]
    · rcases hnone with h | h <;> simp [h]
  · obtain ⟨r, made, hrun, hadds, hwords, hbytes⟩ := memcmp_adds (fresh mem) hnull hnone hlhs
      hrhs hcount
    obtain ⟨hw, hresidue⟩ := fastPathWidth_cases lhs rhs count
    rw [alignedRun_iff hrun, hadds.aligned_iff]
    have hpath : (∀ x ∈ made, x.2 % x.1 = 0) ↔
        ¬SameBytes mem lhs rhs (lhs % fastPathWidth lhs rhs count) ∨
          WordsAligned (fastPathWidth lhs rhs count) lhs count := by
      by_cases hone : fastPathWidth lhs rhs count = 1
      · refine iff_of_true ?_ (Or.inr (Or.inr ?_))
        · rw [hbytes hone]
          exact fun x hx => absurd hx (Set.notMem_empty x)
        · rw [hone, Nat.mod_one]
      · exact (hwords hone).aligned_iff hw hresidue
    rw [not_or] at hnull hnone
    rw [hpath]
    simp [hnull, hnone]

/-- Exactly when the word accesses of `memset` and of the forward paths of `memcpy` and
`memcmp` are aligned: there are none, or the prologue is as long as the way to the next
multiple of the width. -/
theorem accesses_aligned_iff
    (dest src lhs rhs count : UInt64) (ch : Int32) (mem : Memory) :
    (AlignedRun (memset dest.toNat ch count.toNat (fresh mem)) ↔
      dest.toNat = 0 ∨ count.toNat < dest.toNat % 8 + 8 ∨
        2 ^ 64 ≤ dest.toNat + dest.toNat % 8 + 8 * ((count.toNat - dest.toNat % 8) / 8) ∨
        dest.toNat % 4 = 0) ∧
    ((¬OverlapsFromBelow dest.toNat src.toNat count.toNat →
        AlignedRun (memcpy dest.toNat src.toNat count.toNat (fresh mem))) ↔
      OverlapsFromBelow dest.toNat src.toNat count.toNat ∨ dest.toNat = 0 ∨ src.toNat = 0 ∨
        count.toNat = 0 ∨ src.toNat = dest.toNat ∨
        WordsAligned (fastPathWidth dest.toNat src.toNat count.toNat) dest.toNat
          count.toNat) ∧
    (AlignedRun (memcmp lhs.toNat rhs.toNat count.toNat (fresh mem)) ↔
      lhs.toNat = 0 ∨ rhs.toNat = 0 ∨ count.toNat = 0 ∨ lhs.toNat = rhs.toNat ∨
        ¬SameBytes mem lhs.toNat rhs.toNat
          (lhs.toNat % fastPathWidth lhs.toNat rhs.toNat count.toNat) ∨
        WordsAligned (fastPathWidth lhs.toNat rhs.toNat count.toNat) lhs.toNat
          count.toNat) :=
  ⟨memset_aligned_iff ch mem dest.toNat_lt count.toNat_lt,
    memcpy_aligned_iff mem dest.toNat_lt src.toNat_lt count.toNat_lt,
    memcmp_aligned_iff mem lhs.toNat_lt rhs.toNat_lt count.toNat_lt⟩

/-- From address 4097 on, 17 bytes are set with a 64-bit store at 4098, and copied or compared
with 64-bit accesses at 4098 and 8194. -/
theorem accesses_not_aligned :
    ¬AlignedRun (memset 4097 0 17 (fresh fun _ => 0)) ∧
      ¬AlignedRun (memcpy 4097 8193 17 (fresh fun _ => 0)) ∧
      ¬AlignedRun (memcmp 4097 8193 17 (fresh fun _ => 0)) := by
  refine ⟨?_, ?_, ?_⟩
  · rw [memset_aligned_iff 0 _ (by decide) (by decide)]
    omega
  · intro haligned
    have h := (@memcpy_aligned_iff 4097 8193 17 (fun _ => 0) (by decide) (by decide)
      (by decide)).mp fun _ => haligned
    simp [OverlapsFromBelow, WordsAligned, fastPathWidth, u64] at h
  · rw [memcmp_aligned_iff _ (by decide) (by decide) (by decide)]
    simp [SameBytes, WordsAligned, fastPathWidth]

end Aligned

end KstdlibString
end DexprOS
