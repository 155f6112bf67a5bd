import DexprOS.Kernel.Efi.InitialMemMapCreation
import DexprOS.Library.FiniteWalk

/-!
# Termination of the iteration over the UEFI memory map

The outer loop of the iteration moves from a descriptor to the lowest one that
starts at or above the present one's end, and that end is computed with 64 bits.
On which maps it comes to an end is therefore a question about this walk.

Main facts:
* `iterBody_tracks`: one pass of the loop is one step of the walk;
* `ends_iff_progresses`: the walk ends when the map `Progresses`;
* `createInitialMemMapFromEfi_terminates_iff`: so does everything built on it.
-/

namespace DexprOS
namespace Kernel

open Efi Fuel LowestFirst FiniteWalk Relation

universe u

section Walk

/-- End of a descriptor as 64-bit arithmetic computes it. -/
def wrappedEnd (d : EfiMemoryDescriptor) : UInt64 :=
  d.physicalStart + d.numberOfPages * efiPageSize

/-- The descriptor that the iteration handles after `d`. -/
def nextDescriptor (map : List EfiMemoryDescriptor) (d : EfiMemoryDescriptor) :
    Option EfiMemoryDescriptor :=
  lowestFrom EfiMemoryDescriptor.start (wrappedEnd d).toNat map

/-- Descriptor `d` lies on the walk from the lowest descriptor. -/
def Visited (map : List EfiMemoryDescriptor) (d : EfiMemoryDescriptor) : Prop :=
  ∃ first, lowestFrom EfiMemoryDescriptor.start 0 map = some first ∧
    ReflTransGen (Follows (nextDescriptor map)) first d

/-- No visited descriptor is empty, and none that wraps leads back to itself. -/
def Progresses (map : List EfiMemoryDescriptor) : Prop :=
  ∀ d, Visited map d →
    wrappedEnd d ≠ d.physicalStart ∧
    (wrappedEnd d < d.physicalStart →
      ¬ TransGen (Follows (nextDescriptor map)) d d)

/-- Converting the number of pages keeps the wrapped size. -/
theorem toEntry_wrappedSize (d : EfiMemoryDescriptor) :
    (toEntry d).numPhysicalPages * physicalPageSize =
      d.numberOfPages * efiPageSize := by
  rw [← UInt64.toNat_inj, toEntry]
  dsimp only
  rw [UInt64.toNat_mul, UInt64.toNat_div, UInt64.toNat_mul,
    show physicalPageSize.toNat = 4096 from rfl, show efiPageSize.toNat = 4096 from rfl]
  omega

variable {σ : Type u} {map : List EfiMemoryDescriptor}
  {pFunc : InitialMemMapEntry → σ → σ} {s : IterState σ} {d : EfiMemoryDescriptor}

/-- The iteration has come to the end of descriptor `d`. -/
def Tracks (s : IterState σ) (d : EfiMemoryDescriptor) : Prop :=
  s.rangeEnd = wrappedEnd d

/-- A pass that finds descriptor `d` comes to its end. -/
theorem iterBody_tracks
    (h : lowestFrom EfiMemoryDescriptor.start s.rangeEnd.toNat map = some d) :
    ∃ s', iterBody map pFunc s = .again s' ∧ Tracks s' d := by
  refine ⟨_, iterBody_again h, ?_⟩
  have hsize := toEntry_wrappedSize d
  split_ifs with hjoin
  · have haddr := hjoin.1.1
    rw [Tracks, IterState.rangeEnd, wrappedEnd]
    simp only [prolong]
    rw [UInt64.add_mul, ← UInt64.add_assoc, ← haddr, hsize]
    rfl
  · rw [Tracks, IterState.rangeEnd, wrappedEnd]
    simp only
    rw [hsize]
    rfl

/-- The loop returns exactly when the walk from the present descriptor ends. -/
theorem forever_iterBody_returns_iff (hs : Tracks s d) :
    (∃ result, Returns (fun fuel => forever (iterBody map pFunc) fuel s) result) ↔
      Ends (nextDescriptor map) d := by
  refine returns_iff_ends ?_ ?_ hs
  · intro s x hx hnone
    rw [nextDescriptor, ← hx] at hnone
    exact ⟨_, iterBody_leave hnone⟩
  · intro s x y hx hsome
    rw [nextDescriptor, ← hx] at hsome
    exact iterBody_tracks hsome

/-- The iteration returns exactly when the walk from the lowest descriptor ends. -/
theorem iterEfiMemMapAsInitMap_returns_iff
    (map : List EfiMemoryDescriptor)
    (pFunc : InitialMemMapEntry → σ → σ) (pUserData : σ) :
    (∃ result, Returns (iterEfiMemMapAsInitMap map pFunc pUserData) result) ↔
      ∀ first, lowestFrom EfiMemoryDescriptor.start 0 map = some first →
        Ends (nextDescriptor map) first := by
  have hzero : (IterState.rangeEnd ⟨unsetEntry, false, pUserData⟩).toNat = 0 :=
    rangeEnd_unset false pUserData
  cases hfirst : lowestFrom EfiMemoryDescriptor.start 0 map with
  | none =>
      rw [← hzero] at hfirst
      simp only [reduceCtorEq, false_implies, implies_true, iff_true]
      exact ⟨_, forever_returns (forever_leave (iterBody_leave hfirst) 0)⟩
  | some first =>
      rw [← hzero] at hfirst
      have hpass : ∃ s', iterBody map pFunc ⟨unsetEntry, false, pUserData⟩ =
          .again s' ∧ Tracks s' first := iterBody_tracks hfirst
      obtain ⟨s', hbody, hs'⟩ := hpass
      simp only [Option.some.injEq, forall_eq']
      rw [← forever_iterBody_returns_iff hs']
      exact exists_congr (fun result =>
        returns_iff_of_succ (fun fuel => forever_again hbody fuel))

end Walk

section Progress

variable {map : List EfiMemoryDescriptor} {d : EfiMemoryDescriptor}

/-- A visited descriptor was picked from some address up to its start. -/
theorem Visited.picked (h : Visited map d) :
    ∃ m, m ≤ d.start ∧ lowestFrom EfiMemoryDescriptor.start m map = some d := by
  obtain ⟨first, hfirst, hreach⟩ := h
  rcases ReflTransGen.cases_tail hreach with rfl | ⟨c, -, hstep⟩
  · exact ⟨0, Nat.zero_le _, hfirst⟩
  · exact ⟨_, (lowestFrom_spec _ hstep).2.1, hstep⟩

/-- A visited empty descriptor is picked again and again. -/
theorem Visited.follows_self
    (h : Visited map d) (hempty : wrappedEnd d = d.physicalStart) :
    Follows (nextDescriptor map) d d := by
  obtain ⟨m, hm, hpick⟩ := h.picked
  rw [Follows, nextDescriptor, hempty]
  exact lowestFrom_of_le _ hpick hm (Nat.le_refl _)

/-- A descriptor whose end lies above its start is followed by a higher one. -/
theorem start_lt_of_nextDescriptor
    {c : EfiMemoryDescriptor}
    (h : nextDescriptor map d = some c)
    (hgrows : ¬ wrappedEnd d ≤ d.physicalStart) :
    d.start < c.start := by
  have hle := (lowestFrom_spec _ h).2.1
  have hlt : d.start < (wrappedEnd d).toNat := UInt64.not_le.mp hgrows
  omega

/-- The walk from the lowest descriptor ends exactly when the map progresses. -/
theorem ends_iff_progresses (map : List EfiMemoryDescriptor) :
    (∀ first, lowestFrom EfiMemoryDescriptor.start 0 map = some first →
      Ends (nextDescriptor map) first) ↔ Progresses map := by
  have hwalk : ∀ first, Ends (nextDescriptor map) first ↔
      ∀ d, ReflTransGen (Follows (nextDescriptor map)) first d →
        wrappedEnd d ≤ d.physicalStart →
        ¬ TransGen (Follows (nextDescriptor map)) d d :=
    fun first => ends_iff_no_retreating_cycle
      (fun x y h => (lowestFrom_spec _ h).1)
      (fun x y h hgrows => start_lt_of_nextDescriptor h hgrows) first
  constructor
  · rintro h d ⟨first, hfirst, hreach⟩
    have hcycle := (hwalk first).mp (h first hfirst) d hreach
    refine ⟨fun hempty => ?_, fun hwraps => hcycle (UInt64.le_of_lt hwraps)⟩
    have hself : Follows (nextDescriptor map) d d :=
      Visited.follows_self ⟨first, hfirst, hreach⟩ hempty
    exact hcycle (by rw [hempty]; exact UInt64.le_refl _) (TransGen.single hself)
  · intro h first hfirst
    refine (hwalk first).mpr (fun d hreach hle => ?_)
    obtain ⟨hempty, hwraps⟩ := h d ⟨first, hfirst, hreach⟩
    exact hwraps (UInt64.lt_of_le_of_ne hle hempty)

end Progress

section Termination

variable {map : List EfiMemoryDescriptor}

theorem iterEfiMemMapAsInitMap_returns_iff_progresses
    {σ : Type u} (map : List EfiMemoryDescriptor)
    (pFunc : InitialMemMapEntry → σ → σ) (pUserData : σ) :
    (∃ result, Returns (iterEfiMemMapAsInitMap map pFunc pUserData) result) ↔
      Progresses map :=
  (iterEfiMemMapAsInitMap_returns_iff map pFunc pUserData).trans
    (ends_iff_progresses map)

/-- Creating the map runs the iteration at least once and at most twice. -/
theorem createInitialMemMapFromEfi_returns_iff_progresses
    (map : List EfiMemoryDescriptor)
    (content : Nat → InitialMemMapEntry) (memMap : InitialMemMap) :
    (∃ result, Returns (createInitialMemMapFromEfi map content memMap) result) ↔
      Progresses map := by
  constructor
  · rintro ⟨result, n, hn⟩
    have hrun := hn n (Nat.le_refl n)
    obtain ⟨memory, halloc, -⟩ := Option.bind_eq_some_iff.mp hrun
    obtain ⟨allocStruct, hiter, -⟩ := Option.map_eq_some_iff.mp halloc
    exact (iterEfiMemMapAsInitMap_returns_iff_progresses map _ _).mp
      ⟨allocStruct, forever_returns hiter⟩
  · intro hmap
    obtain ⟨allocStruct, halloc⟩ :=
      (iterEfiMemMapAsInitMap_returns_iff_progresses map initMemMapAllocCallback
        ⟨0, 0, 0, 0⟩).mpr hmap
    have halloc := halloc.map chooseInitMemMapMemory
    cases hmemory : chooseInitMemMapMemory allocStruct with
    | none =>
        rw [hmemory] at halloc
        exact ⟨_, halloc.bind (returns_pure _)⟩
    | some memory =>
        rw [hmemory] at halloc
        obtain ⟨created, hcreate⟩ :=
          (iterEfiMemMapAsInitMap_returns_iff_progresses map fillInitMemMapEntry
            { memMap := ⟨memory.virtAddress, 0, content⟩
              availableSize := memory.size
              initMapPhysAddress := memory.physAddress
              initMapVirtAddress := memory.virtAddress
              numInitMapPages :=
                (memory.size + physicalPageSize - 1) / physicalPageSize
              success := true }).mpr hmap
        exact ⟨_, halloc.bind (hcreate.map (fun s => (s.success, s.memMap)))⟩

/-- The iteration and the creation of the map terminate exactly on the maps that
progress. -/
theorem createInitialMemMapFromEfi_terminates_iff (map : List EfiMemoryDescriptor) :
    (∀ (σ : Type u) (pFunc : InitialMemMapEntry → σ → σ) (pUserData : σ),
      (∃ result, Returns (iterEfiMemMapAsInitMap map pFunc pUserData) result) ↔
        Progresses map) ∧
    (∀ (content : Nat → InitialMemMapEntry) (memMap : InitialMemMap),
      (∃ result, Returns (createInitialMemMapFromEfi map content memMap) result) ↔
        Progresses map) :=
  ⟨fun _ pFunc pUserData =>
      iterEfiMemMapAsInitMap_returns_iff_progresses map pFunc pUserData,
    createInitialMemMapFromEfi_returns_iff_progresses map⟩

/-- A single descriptor that is followed by itself keeps the iteration going. -/
theorem not_progresses_of_follows_self
    {d : EfiMemoryDescriptor}
    (hfirst : lowestFrom EfiMemoryDescriptor.start 0 map = some d)
    (hself : nextDescriptor map d = some d) :
    ¬ Progresses map := by
  intro h
  exact Ends.not_cycle ((ends_iff_progresses map).mpr h d hfirst)
    (TransGen.single hself)

/-- An empty descriptor hangs the creation of the map, and so does a descriptor
for the last page of the address space. -/
theorem createInitialMemMapFromEfi_hangs :
    (∀ content memMap, ¬ ∃ result, Returns
      (createInitialMemMapFromEfi [⟨.conventionalMemory, 4096, 0, 0⟩] content memMap)
        result) ∧
    (∀ content memMap, ¬ ∃ result, Returns
      (createInitialMemMapFromEfi [⟨.conventionalMemory, 0xFFFFFFFFFFFFF000, 1, 0⟩]
        content memMap) result) := by
  constructor
  · intro content memMap hreturns
    exact not_progresses_of_follows_self rfl rfl
      ((createInitialMemMapFromEfi_returns_iff_progresses _ content memMap).mp hreturns)
  · intro content memMap hreturns
    exact not_progresses_of_follows_self rfl rfl
      ((createInitialMemMapFromEfi_returns_iff_progresses _ content memMap).mp hreturns)

end Termination

end Kernel
end DexprOS
