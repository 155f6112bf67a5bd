import DexprOS.Library.LittleEndian
import Mathlib.Algebra.Group.Nat.Defs
import Mathlib.Data.List.Basic

/-!
# Straight-line code and the stack

Code of a 64-bit processor that saves registers on the stack, calls functions and restores the
registers, with interrupts that are delivered on the stack and returns from them.  The memory
is made of bytes, and addresses wrap around.

Nothing is known of a called function but what is assumed of it; its return address lies below
the stack pointer that it is called with.

Main facts:
* `load_store`, `words_eq_iff`: words in the memory of bytes;
* `words_pushAll`, `mem_pushAll_of_outside`: what a list of pushes leaves;
* `runCode_pushes`, `runCode_pops`: saving and restoring registers;
* `iretq_of_words`: the return to what is on the stack.
-/

namespace DexprOS
namespace StackCode

open LittleEndian

section Memory

abbrev Word := BitVec 64

abbrev Memory := Word → BitVec 8

/-- The word from an address on, lowest byte first. -/
def load (m : Memory) (a : Word) : Word :=
  readBytes (fun i => m (a + BitVec.ofNat 64 i)) 0 8

def store (m : Memory) (a w : Word) : Memory :=
  fun x => if (x - a).toNat < 8 then w.extractLsb' (8 * (x - a).toNat) 8 else m x

/-- The words from an address on. -/
def words (m : Memory) (a : Word) : Nat → List Word
  | 0 => []
  | n + 1 => load m a :: words m (a + 8) n

variable {m m' : Memory} {a b w : Word} {n : Nat}

theorem load_congr
    (h : ∀ i < 8, m (a + BitVec.ofNat 64 i) = m' (a + BitVec.ofNat 64 i)) :
    load m a = load m' a := by
  refine BitVec.eq_of_getLsbD_eq fun i hi => ?_
  rw [load, load, getLsbD_readBytes _ _ hi, getLsbD_readBytes _ _ hi, h _ (by omega)]

/-- Equal words have equal bytes. -/
theorem load_eq_iff :
    load m a = load m' a ↔
      ∀ i < 8, m (a + BitVec.ofNat 64 i) = m' (a + BitVec.ofNat 64 i) := by
  refine ⟨fun h i hi => BitVec.eq_of_getLsbD_eq fun j hj => ?_, load_congr⟩
  have hbit := congrArg (fun w : Word => w.getLsbD (8 * i + j)) h
  rw [load, load, getLsbD_readBytes _ _ (by omega), getLsbD_readBytes _ _ (by omega)] at hbit
  have hbyte : 0 + (8 * i + j) / 8 = i := by omega
  have hoffset : (8 * i + j) % 8 = j := by omega
  rwa [hbyte, hoffset] at hbit

theorem load_store
    (m : Memory) (a w : Word) :
    load (store m a w) a = w := by
  refine BitVec.eq_of_getLsbD_eq fun i hi => ?_
  have hoffset : (a + BitVec.ofNat 64 (0 + i / 8) - a).toNat = i / 8 := by
    bv_omega
  rw [load, getLsbD_readBytes _ _ hi, store, hoffset, if_pos (by omega),
    BitVec.getLsbD_extractLsb']
  have hbit : 8 * (i / 8) + i % 8 = i := by omega
  simp [hbit, Nat.mod_lt]

theorem words_congr
    (h : ∀ i < 8 * n, m (a + BitVec.ofNat 64 i) = m' (a + BitVec.ofNat 64 i)) :
    words m a n = words m' a n := by
  induction n generalizing a with
  | zero => rfl
  | succ n ih =>
      rw [words, words, load_congr fun i hi => h i (by omega)]
      refine congrArg (load m' a :: ·) (ih fun i hi => ?_)
      have hadd : a + 8 + BitVec.ofNat 64 i = a + BitVec.ofNat 64 (i + 8) := by
        bv_omega
      rw [hadd]
      exact h (i + 8) (by omega)

theorem words_eq_iff :
    words m a n = words m' a n ↔
      ∀ i < 8 * n, m (a + BitVec.ofNat 64 i) = m' (a + BitVec.ofNat 64 i) := by
  refine ⟨fun h => ?_, words_congr⟩
  induction n generalizing a with
  | zero => exact fun i hi => absurd hi (by omega)
  | succ n ih =>
      rw [words, words, List.cons.injEq] at h
      intro i hi
      by_cases hfirst : i < 8
      · exact load_eq_iff.mp h.1 i hfirst
      · have hadd : a + 8 + BitVec.ofNat 64 (i - 8) = a + BitVec.ofNat 64 i := by
          bv_omega
        have hrest := ih h.2 (i - 8) (by omega)
        rwa [hadd] at hrest

theorem words_append
    (m : Memory) (a : Word) (n k : Nat) :
    words m a (n + k) = words m a n ++ words m (a + BitVec.ofNat 64 (8 * n)) k := by
  induction n generalizing a with
  | zero => simp [words]
  | succ n ih =>
      have hadd : a + 8 + BitVec.ofNat 64 (8 * n) = a + BitVec.ofNat 64 (8 * (n + 1)) := by
        bv_omega
      rw [Nat.succ_add_eq_add_succ, Nat.add_succ, words, words, ih, hadd]
      rfl

/-- The `i`-th word. -/
theorem getElem?_words
    {i : Nat} (hi : i < n) :
    (words m a n)[i]? = some (load m (a + BitVec.ofNat 64 (8 * i))) := by
  induction n generalizing a i with
  | zero => omega
  | succ n ih =>
      cases i with
      | zero => simp [words]
      | succ i =>
          have hadd : a + 8 + BitVec.ofNat 64 (8 * i) = a + BitVec.ofNat 64 (8 * (i + 1)) := by
            bv_omega
          rw [words, List.getElem?_cons_succ, ih (by omega), hadd]

@[simp]
theorem length_words
    (m : Memory) (a : Word) (n : Nat) :
    (words m a n).length = n := by
  induction n generalizing a with
  | zero => rfl
  | succ n ih => rw [words, List.length_cons, ih]

end Memory

section Machine

/-- General registers, of which the stack pointer is told apart, and the registers that an
interrupt saves.  Straight-line code does not keep `rip` up to date. -/
structure Machine (R : Type) where
  reg : R → Word
  sp : Word
  rip : Word
  rflags : Word
  cs : BitVec 16
  ss : BitVec 16
  mem : Memory

variable {R : Type}

def pushWord (s : Machine R) (w : Word) : Machine R :=
  { s with sp := s.sp - 8, mem := store s.mem (s.sp - 8) w }

def pushAll (ws : List Word) (s : Machine R) : Machine R :=
  ws.foldl pushWord s

variable (ws : List Word) (s : Machine R)

@[simp]
theorem pushAll_nil :
    pushAll [] s = s :=
  rfl

@[simp]
theorem pushAll_cons
    (w : Word) :
    pushAll (w :: ws) s = pushAll ws (pushWord s w) :=
  rfl

/-- Pushing moves the stack pointer and writes to the memory. -/
theorem pushAll_eq :
    pushAll ws s =
      { s with sp := (pushAll ws s).sp, mem := (pushAll ws s).mem } := by
  induction ws generalizing s with
  | nil => rfl
  | cons w ws ih =>
      rw [pushAll_cons, ih]
      rfl

theorem pushAll_append
    (ws' : List Word) :
    pushAll (ws ++ ws') s = pushAll ws' (pushAll ws s) :=
  List.foldl_append

theorem sp_pushAll :
    (pushAll ws s).sp = s.sp - BitVec.ofNat 64 (8 * ws.length) := by
  induction ws generalizing s with
  | nil => simp
  | cons w ws ih =>
      rw [pushAll_cons, ih, pushWord, List.length_cons]
      bv_omega

/-- Bytes that are not in the pushed words are kept. -/
theorem mem_pushAll_of_outside
    (hlength : 8 * ws.length < 2 ^ 64) {x : Word}
    (hx : 8 * ws.length ≤ (x - (pushAll ws s).sp).toNat) :
    (pushAll ws s).mem x = s.mem x := by
  induction ws generalizing s with
  | nil => rfl
  | cons w ws ih =>
      rw [sp_pushAll] at hx
      simp only [List.length_cons] at hx hlength
      rw [pushAll_cons, ih]
      · simp only [pushWord, store]
        rw [if_neg (by bv_omega)]
      · omega
      · rw [sp_pushAll, pushWord]
        bv_omega

/-- The words on the stack after a push. -/
theorem words_pushWord
    {n : Nat} (hn : 8 * (n + 1) < 2 ^ 64) (w : Word) :
    words (pushWord s w).mem (pushWord s w).sp (n + 1) = w :: words s.mem s.sp n := by
  rw [words, pushWord, load_store, BitVec.sub_add_cancel]
  refine congrArg (w :: ·) (words_congr fun i hi => ?_)
  simp only [store]
  rw [if_neg (by bv_omega)]

theorem words_pushAll
    {n : Nat} (hn : 8 * (ws.length + n) < 2 ^ 64) :
    words (pushAll ws s).mem (pushAll ws s).sp (ws.length + n) =
      ws.reverse ++ words s.mem s.sp n := by
  induction ws generalizing s n with
  | nil => simp
  | cons w ws ih =>
      simp only [List.length_cons] at hn
      have hcount : (w :: ws).length + n = ws.length + (n + 1) := by
        rw [List.length_cons]
        omega
      rw [pushAll_cons, hcount, ih (pushWord s w) (by omega), words_pushWord s (by omega)]
      simp

end Machine

section Code

variable {R : Type}

/-- The return from an interrupt. -/
def iretq (s : Machine R) : Machine R :=
  { s with
    rip := load s.mem s.sp
    cs := (load s.mem (s.sp + 8)).setWidth 16
    rflags := load s.mem (s.sp + 16)
    sp := load s.mem (s.sp + 24)
    ss := (load s.mem (s.sp + 32)).setWidth 16 }

theorem iretq_of_words
    (s : Machine R)
    {rip rflags sp : Word} {cs ss : BitVec 16}
    (hwords : words s.mem s.sp 5 = [rip, cs.setWidth 64, rflags, sp, ss.setWidth 64]) :
    iretq s = { s with rip := rip, cs := cs, rflags := rflags, sp := sp, ss := ss } := by
  have hword {i : Nat} (hi : i < 5) :
      some (load s.mem (s.sp + BitVec.ofNat 64 (8 * i))) =
        [rip, cs.setWidth 64, rflags, sp, ss.setWidth 64][i]? := by
    rw [← hwords, getElem?_words hi]
  have hrip : load s.mem s.sp = rip := by simpa using hword (i := 0) (by omega)
  have hcs : load s.mem (s.sp + 8) = cs.setWidth 64 := by simpa using hword (i := 1) (by omega)
  have hrflags : load s.mem (s.sp + 16) = rflags := by simpa using hword (i := 2) (by omega)
  have hsp : load s.mem (s.sp + 24) = sp := by simpa using hword (i := 3) (by omega)
  have hss : load s.mem (s.sp + 32) = ss.setWidth 64 := by simpa using hword (i := 4) (by omega)
  rw [iretq, hrip, hcs, hrflags, hsp, hss]
  simp

/-- Instructions on the stack.  `H` names the called functions. -/
inductive Instr (R H : Type) where
  | push (r : R)
  | pop (r : R)
  | loadSp (offset : Nat) (r : R)
  | addSp (count : Nat)
  | call (h : H)
  | iretq
deriving DecidableEq, Repr

variable {H : Type} [DecidableEq R] (callee : H → Machine R → Option (Machine R))

/-- A function gives the state behind its return, or `none` if it never returns. -/
def Instr.run : Instr R H → Machine R → Option (Machine R)
  | push r, s => some (pushWord s (s.reg r))
  | pop r, s => some { s with reg := Function.update s.reg r (load s.mem s.sp), sp := s.sp + 8 }
  | loadSp offset r, s =>
      some { s with reg := Function.update s.reg r (load s.mem (s.sp + BitVec.ofNat 64 offset)) }
  | addSp count, s => some { s with sp := s.sp + BitVec.ofNat 64 count }
  | call h, s => callee h s
  | iretq, s => some (StackCode.iretq s)

def runCode : List (Instr R H) → Machine R → Option (Machine R)
  | [], s => some s
  | i :: code, s => (i.run callee s).bind (runCode code)

variable {callee} (s : Machine R)

theorem runCode_append
    (code code' : List (Instr R H)) :
    runCode callee (code ++ code') s = (runCode callee code s).bind (runCode callee code') := by
  induction code generalizing s with
  | nil => rfl
  | cons i code ih =>
      rw [List.cons_append, runCode, runCode, Option.bind_assoc]
      exact congrArg _ (funext ih)

/-- Saving registers pushes their values. -/
theorem runCode_pushes
    (rs : List R) :
    runCode callee (rs.map .push) s = some (pushAll (rs.map s.reg) s) := by
  induction rs generalizing s with
  | nil => rfl
  | cons r rs ih =>
      rw [List.map_cons, runCode, Instr.run, Option.bind_some, ih]
      rfl

/-- Restoring registers gives them what is on the stack. -/
theorem runCode_pops
    (rs : List R) {v : R → Word} (hwords : words s.mem s.sp rs.length = rs.map v) :
    runCode callee (rs.map .pop) s =
      some { s with
        reg := fun r => if r ∈ rs then v r else s.reg r
        sp := s.sp + BitVec.ofNat 64 (8 * rs.length) } := by
  induction rs generalizing s with
  | nil => simp [runCode]
  | cons r rs ih =>
      rw [List.length_cons, words, List.map_cons, List.cons.injEq] at hwords
      obtain ⟨hfirst, hrest⟩ := hwords
      rw [List.map_cons, runCode, Instr.run, Option.bind_some, ih _ hrest, hfirst]
      have hsp : s.sp + 8 + BitVec.ofNat 64 (8 * rs.length) =
          s.sp + BitVec.ofNat 64 (8 * (r :: rs).length) := by
        rw [List.length_cons]
        bv_omega
      have hreg : (fun q => if q ∈ rs then v q else Function.update s.reg r (v r) q) =
          fun q => if q ∈ r :: rs then v q else s.reg q := by
        funext q
        by_cases hq : q = r
        · subst hq
          simp
        · simp [hq]
      simp only [hsp, hreg]

end Code

section Delivery

variable {R : Type}

/-- What an interrupt saves, from the stack pointer on: an error code for some of them, and
what the processor will return to. -/
def savedContext (errorCode : Option Word) (s : Machine R) : List Word :=
  errorCode.toList ++ [s.rip, s.cs.setWidth 64, s.rflags, s.sp, s.ss.setWidth 64]

/-- The processor aligns the stack, saves the context and goes on at the address and in the
segment of the gate. -/
def deliver (target : Word) (selector : BitVec 16) (flags : Word) (errorCode : Option Word)
    (s : Machine R) : Machine R :=
  pushAll (savedContext errorCode s).reverse
    { s with
      sp := s.sp &&& ~~~15#64
      rip := target
      cs := selector
      rflags := flags }

variable (target : Word) (selector : BitVec 16) (flags : Word) (errorCode : Option Word)
variable (s : Machine R) (rs : List R)

theorem reg_deliver :
    (deliver target selector flags errorCode s).reg = s.reg := by
  rw [deliver, pushAll_eq]

/-- The machine that an interrupted program's registers have been saved in. -/
def saved : Machine R :=
  pushAll (rs.map s.reg) (deliver target selector flags errorCode s)

theorem saved_eq :
    saved target selector flags errorCode s rs =
      pushAll ((savedContext errorCode s).reverse ++ rs.map s.reg)
        { s with
          sp := s.sp &&& ~~~15#64
          rip := target
          cs := selector
          rflags := flags } := by
  rw [saved, deliver, pushAll_append]

theorem reg_saved :
    (saved target selector flags errorCode s rs).reg = s.reg := by
  rw [saved_eq, pushAll_eq]

/-- How far the stack pointer is moved. -/
theorem sp_saved :
    (saved target selector flags errorCode s rs).sp =
      (s.sp &&& ~~~15#64) -
        BitVec.ofNat 64 (8 * (rs.length + (savedContext errorCode s).length)) := by
  rw [saved_eq, sp_pushAll]
  simp only [List.length_append, List.length_reverse, List.length_map, Nat.add_comm]

theorem length_savedContext :
    (savedContext errorCode s).length = 5 + errorCode.toList.length := by
  simp [savedContext, Nat.add_comm]

/-- The saved registers and the context are on the stack. -/
theorem words_saved
    (hlength : rs.length < 2 ^ 32) :
    words (saved target selector flags errorCode s rs).mem
        (saved target selector flags errorCode s rs).sp
        (rs.length + (savedContext errorCode s).length) =
      rs.reverse.map s.reg ++ savedContext errorCode s := by
  have hcontext : (savedContext errorCode s).length ≤ 6 := by
    cases errorCode <;> simp [savedContext]
  have hwords := words_pushAll ((savedContext errorCode s).reverse ++ rs.map s.reg)
    { s with
      sp := s.sp &&& ~~~15#64
      rip := target
      cs := selector
      rflags := flags } (n := 0)
    (by
      simp only [List.length_append, List.length_reverse, List.length_map]
      omega)
  simp only [List.length_append, List.length_reverse, List.length_map, Nat.add_zero,
    List.reverse_append, List.reverse_reverse, words, List.append_nil] at hwords
  rw [saved_eq, Nat.add_comm, hwords, List.map_reverse]

/-- Nothing else is written. -/
theorem mem_saved_of_outside
    {x : Word}
    (hx : 8 * (rs.length + (savedContext errorCode s).length) ≤
      (x - (saved target selector flags errorCode s rs).sp).toNat) :
    (saved target selector flags errorCode s rs).mem x = s.mem x := by
  have hcontext : (savedContext errorCode s).length ≤ 6 := by
    cases errorCode <;> simp [savedContext]
  rw [saved_eq] at hx ⊢
  refine mem_pushAll_of_outside _ _ ?_ ?_
  · simp only [List.length_append, List.length_reverse, List.length_map]
    omega
  · simp only [List.length_append, List.length_reverse, List.length_map]
    rwa [Nat.add_comm rs.length] at hx

end Delivery

end StackCode
end DexprOS
