import DexprOS.Kernel.X8664.IdtCreator
import DexprOS.Library.BitMask
import DexprOS.Library.StackCode

/-!
# The interrupt service routines

The routines of `Interrupts.S`, which save the registers that a function need not keep, call a
function of `InterruptHandlers.c` and return to the interrupted program.  An interrupt goes
through the descriptor table that `DexprOS_SetupIDT` leaves.

Main facts:
* `code_cases`: a routine takes an error code off the stack exactly if the processor pushes one;
* `run_code`: what a routine does to the interrupted program;
* `interrupt_restores`: which registers every interrupt restores, and when the others;
* `interrupts_transparent`: programs do not notice interrupts, wherever they come.
-/

namespace DexprOS
namespace Interrupts

open Idt StackCode

section Routines

/-- The general registers, without the stack pointer. -/
inductive Reg where
  | rax
  | rcx
  | rdx
  | rbx
  | rbp
  | rsi
  | rdi
  | r8
  | r9
  | r10
  | r11
  | r12
  | r13
  | r14
  | r15
deriving DecidableEq, Repr

/-- The functions of `InterruptHandlers.c`, `DexprOS_HandleInterrupt_*`. -/
inductive Handler where
  | divisionError
  | debug
  | nmi
  | breakpoint
  | overflow
  | boundRangeExceeded
  | invalidOpcode
  | deviceNotAvaible
  | doubleFault
  | invalidTSS
  | segmentNotPresent
  | stackSegmentFault
  | generalProtectionFault
  | pageFault
  | x87FloatingPointException
  | alignmentCheck
  | machineCheck
  | isaPIT
  | isaKeyboard
  | isaCOM2
  | isaCOM1
  | isaLPT2
  | isaFloppyDisk
  | isaLPT1Spurious
  | isaCMOSClock
  | isaPeripherals0
  | isaPeripherals1
  | isaPeripherals2
  | isaPS2Mouse
  | isaFPU
  | isaPrimaryATAHardDisk
  | isaSecondaryATAHardDisk
  | stub
deriving DecidableEq, Repr

abbrev Code := List (Instr Reg Handler)

/-- "The caller-saved variables", in the order in which they are pushed. -/
def callerSaved : List Reg := [.rax, .rcx, .rdx, .r8, .r9, .r10, .r11]

/-- Code between the pushes and the pops. -/
def savingRegisters (code : Code) : Code :=
  callerSaved.map .push ++ code ++ callerSaved.reverse.map .pop

/-- The routines of interrupts without an error code. -/
def callHandler (h : Handler) : Code :=
  savingRegisters [.call h] ++ [.iretq]

/-- The routines of interrupts with an error code, which they pass to the function. -/
def callHandlerWithErrorCode (h : Handler) : Code :=
  savingRegisters [.loadSp 56 .rcx, .call h] ++ [.addSp 8, .iretq]

/-- `DexprOS_ISR_DoubleFault` does not pass the error code, which is always zero. -/
def isrDoubleFault : Code :=
  savingRegisters [.call .doubleFault] ++ [.addSp 8, .iretq]

/-- `DexprOS_ISR_ISA_Stub` -/
def isrISAStub : Code :=
  [.iretq]

/-- The code behind each of the labels `DexprOS_ISR_*`. -/
def isrCode : ISR → Code
  | .divisionError => callHandler .divisionError
  | .debug => callHandler .debug
  | .nmi => callHandler .nmi
  | .breakpoint => callHandler .breakpoint
  | .overflow => callHandler .overflow
  | .boundRangeExceeded => callHandler .boundRangeExceeded
  | .invalidOpcode => callHandler .invalidOpcode
  | .deviceNotAvaible => callHandler .deviceNotAvaible
  | .doubleFault => isrDoubleFault
  | .invalidTSS => callHandlerWithErrorCode .invalidTSS
  | .segmentNotPresent => callHandlerWithErrorCode .segmentNotPresent
  | .stackSegmentFault => callHandlerWithErrorCode .stackSegmentFault
  | .generalProtectionFault => callHandlerWithErrorCode .generalProtectionFault
  | .pageFault => callHandlerWithErrorCode .pageFault
  | .x87FloatingPointException => callHandler .x87FloatingPointException
  | .alignmentCheck => callHandlerWithErrorCode .alignmentCheck
  | .machineCheck => callHandler .machineCheck
  | .simdException => callHandler .stub
  | .virtualizationException => callHandler .stub
  | .controlProtectionException => callHandlerWithErrorCode .stub
  | .hypervisorInjectionException => callHandler .stub
  | .vmmCommunicationException => callHandlerWithErrorCode .stub
  | .securityException => callHandlerWithErrorCode .stub
  | .isaPIT => callHandler .isaPIT
  | .isaKeyboard => callHandler .isaKeyboard
  | .isaStub => isrISAStub
  | .isaCOM2 => callHandler .isaCOM2
  | .isaCOM1 => callHandler .isaCOM1
  | .isaLPT2 => callHandler .isaLPT2
  | .isaFloppyDisk => callHandler .isaFloppyDisk
  | .isaLPT1Spurious => callHandler .isaLPT1Spurious
  | .isaCMOSClock => callHandler .isaCMOSClock
  | .isaPeripherals0 => callHandler .isaPeripherals0
  | .isaPeripherals1 => callHandler .isaPeripherals1
  | .isaPeripherals2 => callHandler .isaPeripherals2
  | .isaPS2Mouse => callHandler .isaPS2Mouse
  | .isaFPU => callHandler .isaFPU
  | .isaPrimaryATAHardDisk => callHandler .isaPrimaryATAHardDisk
  | .isaSecondaryATAHardDisk => callHandler .isaSecondaryATAHardDisk

/-- Vectors for which the processor pushes an error code. -/
def pushesErrorCode (vector : Nat) : Bool :=
  vector ∈ [8, 10, 11, 12, 13, 14, 17, 21, 29, 30]

/-- A routine takes an error code off the stack exactly if the processor pushes one. -/
theorem code_cases
    {vector : Nat} {routine : ISR} (hroutine : routineOf vector = some routine) :
    (routine = .isaStub ∧ vector = 34) ∧ pushesErrorCode vector = false ∨
      (∃ h, isrCode routine = callHandler h) ∧ pushesErrorCode vector = false ∨
      (isrCode routine = isrDoubleFault ∧ vector = 8 ∨
          ∃ h, isrCode routine = callHandlerWithErrorCode h) ∧
        pushesErrorCode vector = true := by
  have hlt : vector < 48 := by
    by_contra hge
    rw [routineOf_eq_none (by omega)] at hroutine
    cases hroutine
  interval_cases vector <;> cases hroutine <;> first
    | exact Or.inl ⟨⟨rfl, rfl⟩, rfl⟩
    | exact Or.inr (Or.inl ⟨⟨_, rfl⟩, rfl⟩)
    | exact Or.inr (Or.inr ⟨Or.inl ⟨rfl, rfl⟩, rfl⟩)
    | exact Or.inr (Or.inr ⟨Or.inr ⟨_, rfl⟩, rfl⟩)

end Routines

section Run

abbrev Cpu := Machine Reg

variable (callee : Handler → Cpu → Option Cpu)

/-- What the calling convention asks of a function that is called in one state and returns in
another one: the registers that the caller does not save and the stack pointer come back, and
the frame of the caller is left alone.  The first 32 bytes at the stack pointer belong to the
function. -/
structure KeepsFrame (u v : Cpu) : Prop where
  reg : ∀ r, r ∉ callerSaved → v.reg r = u.reg r
  sp : v.sp = u.sp
  frame : ∀ k, 32 ≤ k → k < 104 →
    v.mem (u.sp + BitVec.ofNat 64 k) = u.mem (u.sp + BitVec.ofNat 64 k)

/-- The functions keep to the convention when they are called with one of these stack
pointers. -/
def KeepsConvention (stack : Word → Prop) : Prop :=
  ∀ h u v, stack u.sp → callee h u = some v → KeepsFrame u v

/-- The word on the stack that a register is restored from. -/
def savedWord (t : Cpu) (r : Reg) : Word :=
  load t.mem (t.sp + BitVec.ofNat 64 (8 * callerSaved.reverse.idxOf r))

/-- The interrupted program goes on in its own context, with the registers that are on the
stack. -/
def resumed (s t : Cpu) : Cpu :=
  { s with
    reg := fun r => if r ∈ callerSaved then savedWord t r else s.reg r
    mem := t.mem }

theorem reg_resumed
    (s t : Cpu) (r : Reg) :
    (resumed s t).reg r = if r ∈ callerSaved then savedWord t r else s.reg r :=
  rfl

theorem words_restored
    (t : Cpu) :
    words t.mem t.sp callerSaved.reverse.length = callerSaved.reverse.map (savedWord t) := by
  refine List.ext_getElem? fun i => ?_
  rw [List.getElem?_map]
  by_cases hi : i < callerSaved.reverse.length
  · have hnodup : callerSaved.reverse.Nodup := by decide
    rw [getElem?_words hi, List.getElem?_eq_getElem hi, Option.map_some, savedWord,
      List.Nodup.idxOf_getElem hnodup]
  · rw [List.getElem?_eq_none (by simpa using hi), List.getElem?_eq_none (by simpa using hi),
      Option.map_none]

variable {callee}
variable {target : Word} {selector : BitVec 16} {flags : Word} {errorCode : Option Word}
variable {s t u : Cpu} {stack : Word → Prop}

/-- The machine is that in which the routine has saved the registers, up to the registers. -/
def Entered (target : Word) (selector : BitVec 16) (flags : Word) (errorCode : Option Word)
    (s u : Cpu) : Prop :=
  u.sp = (saved target selector flags errorCode s callerSaved).sp ∧
    u.mem = (saved target selector flags errorCode s callerSaved).mem

/-- The stack pointer that a function is called with. -/
def entrySp (errorCode : Option Word) (sp : Word) : Word :=
  (sp &&& ~~~15#64) - BitVec.ofNat 64 (96 + 8 * errorCode.toList.length)

theorem sp_saved_callerSaved
    (target : Word) (selector : BitVec 16) (flags : Word) (errorCode : Option Word) (s : Cpu) :
    (saved target selector flags errorCode s callerSaved).sp = entrySp errorCode s.sp := by
  have hcount : 8 * (callerSaved.length + (savedContext errorCode s).length) =
      96 + 8 * errorCode.toList.length := by
    rw [length_savedContext]
    simp only [callerSaved, List.length_cons, List.length_nil]
    omega
  rw [sp_saved, hcount, entrySp]

/-- The words that a function must leave alone. -/
theorem words_of_call
    (hc : KeepsFrame u t) (hu : Entered target selector flags errorCode s u) :
    words t.mem (t.sp + 56) (savedContext errorCode s).length = savedContext errorCode s := by
  have hcontext : (savedContext errorCode s).length ≤ 6 := by
    cases errorCode <;> simp [savedContext]
  have hwords := words_saved target selector flags errorCode s callerSaved (by decide)
  rw [← hu.1, ← hu.2, words_append] at hwords
  have hlast := List.append_inj_right hwords (by simp)
  rw [hc.sp]
  refine (words_congr fun k hk => ?_).trans hlast
  have hadd : u.sp + 56 + BitVec.ofNat 64 k = u.sp + BitVec.ofNat 64 (56 + k) := by
    bv_omega
  rw [hadd]
  exact hc.frame (56 + k) (by omega) (by omega)

/-- Behind the call the registers are restored, the error code is dropped, and the interrupted
program goes on. -/
theorem runCode_behind_call
    (hc : KeepsFrame u t) (hu : Entered target selector flags errorCode s u)
    (hreg : ∀ r, r ∉ callerSaved → u.reg r = s.reg r) {rest : Code}
    (hrest : ∀ w : Cpu, runCode callee rest w =
      some (iretq { w with sp := w.sp + BitVec.ofNat 64 (8 * errorCode.toList.length) })) :
    runCode callee (callerSaved.reverse.map .pop ++ rest) t = some (resumed s t) := by
  have hwords := words_of_call hc hu
  have hpopped : t.sp + BitVec.ofNat 64 (8 * callerSaved.reverse.length) = t.sp + 56 := rfl
  rw [runCode_append, runCode_pops t callerSaved.reverse (words_restored t), Option.bind_some,
    hrest, hpopped]
  refine congrArg some ?_
  have hcontext : words t.mem (t.sp + 56 + BitVec.ofNat 64 (8 * errorCode.toList.length)) 5 =
      [s.rip, s.cs.setWidth 64, s.rflags, s.sp, s.ss.setWidth 64] := by
    rw [length_savedContext, Nat.add_comm, words_append] at hwords
    exact List.append_inj_right hwords (length_words _ _ _)
  have hregs : (fun r => if r ∈ callerSaved.reverse then savedWord t r else t.reg r) =
      fun r => if r ∈ callerSaved then savedWord t r else s.reg r := by
    funext r
    by_cases hr : r ∈ callerSaved
    · rw [if_pos hr, if_pos (List.mem_reverse.mpr hr)]
    · rw [if_neg hr, if_neg (by rwa [List.mem_reverse]), hc.reg r hr, hreg r hr]
  rw [hregs]
  exact iretq_of_words _ hcontext

theorem runCode_savingRegisters
    (target : Word) (selector : BitVec 16) (flags : Word) (errorCode : Option Word) (s : Cpu)
    (code rest : Code) :
    runCode callee (savingRegisters code ++ rest) (deliver target selector flags errorCode s) =
      (runCode callee code (saved target selector flags errorCode s callerSaved)).bind
        (runCode callee (callerSaved.reverse.map .pop ++ rest)) := by
  rw [savingRegisters, List.append_assoc, List.append_assoc, runCode_append, runCode_pushes,
    Option.bind_some, reg_deliver, ← saved, runCode_append]

theorem runCode_call
    (h : Handler) (u : Cpu) :
    runCode callee [.call h] u = callee h u := by
  rw [runCode, Instr.run]
  cases callee h u <;> rfl

theorem run_callHandler
    (hc : KeepsConvention callee stack) (target : Word) (selector : BitVec 16) (flags : Word)
    (h : Handler) (s : Cpu)
    (hstack : stack (saved target selector flags none s callerSaved).sp) :
    runCode callee (callHandler h) (deliver target selector flags none s) =
      (callee h (saved target selector flags none s callerSaved)).map (resumed s) := by
  have hreg := reg_saved target selector flags none s callerSaved
  have hentered : Entered target selector flags none s
      (saved target selector flags none s callerSaved) := ⟨rfl, rfl⟩
  rw [callHandler, runCode_savingRegisters, runCode_call]
  cases hcall : callee h (saved target selector flags none s callerSaved) with
  | none => rfl
  | some t =>
      have hbehind : runCode callee (callerSaved.reverse.map .pop ++ [.iretq]) t =
          some (resumed s t) :=
        runCode_behind_call (hc _ _ _ hstack hcall) hentered (fun r _ => congrFun hreg r)
          fun w => by simp [runCode, Instr.run]
      rw [Option.bind_some, hbehind, Option.map_some]

/-- The error code lies behind the seven saved registers. -/
theorem load_errorCode
    (target : Word) (selector : BitVec 16) (flags errorCode : Word) (s : Cpu) :
    load (saved target selector flags (some errorCode) s callerSaved).mem
      ((saved target selector flags (some errorCode) s callerSaved).sp + BitVec.ofNat 64 56) =
        errorCode := by
  have hwords := words_saved target selector flags (some errorCode) s callerSaved (by decide)
  have hsixth : 7 < callerSaved.length + (savedContext (some errorCode) s).length := by
    simp [callerSaved, savedContext]
  have hword := getElem?_words (m := (saved target selector flags (some errorCode) s
    callerSaved).mem) (a := (saved target selector flags (some errorCode) s callerSaved).sp) hsixth
  rw [hwords] at hword
  exact (Option.some.inj hword).symm

theorem run_callHandlerWithErrorCode
    (hc : KeepsConvention callee stack) (target : Word) (selector : BitVec 16)
    (flags errorCode : Word) (h : Handler) (s : Cpu)
    (hstack : stack (saved target selector flags (some errorCode) s callerSaved).sp) :
    let u := saved target selector flags (some errorCode) s callerSaved
    runCode callee (callHandlerWithErrorCode h)
        (deliver target selector flags (some errorCode) s) =
      (callee h { u with reg := Function.update u.reg .rcx errorCode }).map (resumed s) := by
  intro u
  have hreg : u.reg = s.reg := reg_saved target selector flags (some errorCode) s callerSaved
  have hentered : Entered target selector flags (some errorCode) s
      { u with reg := Function.update u.reg .rcx errorCode } := ⟨rfl, rfl⟩
  have hkept : ∀ r, r ∉ callerSaved → Function.update u.reg .rcx errorCode r = s.reg r := by
    intro r hr
    have hne : r ≠ .rcx := by
      rintro rfl
      exact hr (by decide)
    rw [Function.update_of_ne hne, hreg]
  have hcode : runCode callee [.loadSp 56 .rcx, .call h] u =
      callee h { u with reg := Function.update u.reg .rcx errorCode } := by
    rw [runCode, Instr.run, Option.bind_some, load_errorCode, runCode_call]
  rw [callHandlerWithErrorCode, runCode_savingRegisters, hcode]
  cases hcall : callee h { u with reg := Function.update u.reg .rcx errorCode } with
  | none => rfl
  | some t =>
      have hframe : KeepsFrame { u with reg := Function.update u.reg .rcx errorCode } t :=
        hc _ _ _ hstack hcall
      have hbehind : runCode callee (callerSaved.reverse.map .pop ++ [.addSp 8, .iretq]) t =
          some (resumed s t) :=
        runCode_behind_call hframe hentered hkept
          fun w => by simp [runCode, Instr.run]
      rw [Option.bind_some, hbehind, Option.map_some]

theorem run_isrDoubleFault
    (hc : KeepsConvention callee stack) (target : Word) (selector : BitVec 16)
    (flags errorCode : Word) (s : Cpu)
    (hstack : stack (saved target selector flags (some errorCode) s callerSaved).sp) :
    runCode callee isrDoubleFault (deliver target selector flags (some errorCode) s) =
      (callee .doubleFault (saved target selector flags (some errorCode) s callerSaved)).map
        (resumed s) := by
  have hreg := reg_saved target selector flags (some errorCode) s callerSaved
  have hentered : Entered target selector flags (some errorCode) s
      (saved target selector flags (some errorCode) s callerSaved) := ⟨rfl, rfl⟩
  rw [isrDoubleFault, runCode_savingRegisters, runCode_call]
  cases hcall : callee .doubleFault
      (saved target selector flags (some errorCode) s callerSaved) with
  | none => rfl
  | some t =>
      have hbehind : runCode callee (callerSaved.reverse.map .pop ++ [.addSp 8, .iretq]) t =
          some (resumed s t) :=
        runCode_behind_call (hc _ _ _ hstack hcall) hentered (fun r _ => congrFun hreg r)
          fun w => by simp [runCode, Instr.run]
      rw [Option.bind_some, hbehind, Option.map_some]

/-- The routine that only returns. -/
theorem run_isrISAStub
    (target : Word) (selector : BitVec 16) (flags : Word) (s : Cpu) :
    runCode callee isrISAStub (deliver target selector flags none s) =
      some { s with mem := (deliver target selector flags none s).mem } := by
  have hwords := words_saved target selector flags none s [] (by decide)
  have hreg := reg_deliver target selector flags none s
  rw [isrISAStub, runCode, Instr.run, Option.bind_some, runCode]
  refine congrArg some ((iretq_of_words (deliver target selector flags none s) hwords).trans ?_)
  rw [hreg]

/-- What the registers were is on the stack when the function is called. -/
theorem savedWord_entered
    (hu : Entered target selector flags errorCode s u) {r : Reg} (hr : r ∈ callerSaved) :
    savedWord u r = s.reg r := by
  have hwords := words_saved target selector flags errorCode s callerSaved (by decide)
  rw [← hu.1, ← hu.2, words_append] at hwords
  have hfirst := List.append_inj_left hwords (by simp)
  have hrestored := words_restored u
  rw [List.length_reverse, hfirst] at hrestored
  exact (List.map_inj_left.mp hrestored r (List.mem_reverse.mpr hr)).symm

/-- The three registers behind the first 32 bytes are restored. -/
theorem savedWord_kept
    (hc : KeepsFrame u t) (hu : Entered target selector flags errorCode s u) {r : Reg}
    (hr : r ∈ [Reg.rdx, .rcx, .rax]) :
    savedWord t r = s.reg r := by
  have hsaved : r ∈ callerSaved ∧ 4 ≤ callerSaved.reverse.idxOf r ∧
      callerSaved.reverse.idxOf r < 7 := by
    revert r
    decide
  obtain ⟨hmem, hlow, hhigh⟩ := hsaved
  rw [← savedWord_entered hu hmem, savedWord, savedWord, hc.sp]
  refine load_congr fun k hk => ?_
  rw [BitVec.add_assoc, ← BitVec.ofNat_add]
  exact hc.frame _ (by omega) (by omega)

/-- The registers are restored exactly if the function leaves its 32 bytes alone. -/
theorem resumed_reg_iff
    (hc : KeepsFrame u t) (hu : Entered target selector flags errorCode s u) :
    (resumed s t).reg = s.reg ↔
      ∀ k < 32, t.mem (u.sp + BitVec.ofNat 64 k) = u.mem (u.sp + BitVec.ofNat 64 k) := by
  have hsp := hc.sp
  have hwords : words t.mem t.sp callerSaved.reverse.length =
      words u.mem u.sp callerSaved.reverse.length ↔
        ∀ r ∈ callerSaved.reverse, savedWord t r = savedWord u r := by
    rw [words_restored, words_restored, List.map_inj_left]
  have hbytes : words t.mem u.sp callerSaved.reverse.length =
      words u.mem u.sp callerSaved.reverse.length ↔
        ∀ k < 8 * callerSaved.reverse.length,
          t.mem (u.sp + BitVec.ofNat 64 k) = u.mem (u.sp + BitVec.ofNat 64 k) := words_eq_iff
  rw [hsp, hbytes] at hwords
  constructor
  · intro hreg k hk
    refine hwords.mpr (fun r hr => ?_) k (Nat.lt_of_lt_of_le hk (by decide))
    have hmem := List.mem_reverse.mp hr
    have hr := congrFun hreg r
    rw [reg_resumed, if_pos hmem] at hr
    rw [hr, savedWord_entered hu hmem]
  · intro hfirst
    have hall : ∀ k < 8 * callerSaved.reverse.length,
        t.mem (u.sp + BitVec.ofNat 64 k) = u.mem (u.sp + BitVec.ofNat 64 k) := by
      intro k hk
      by_cases hlow : k < 32
      · exact hfirst k hlow
      · exact hc.frame k (by omega) (Nat.lt_of_lt_of_le hk (by decide))
    funext r
    by_cases hr : r ∈ callerSaved
    · rw [reg_resumed, if_pos hr, hwords.mp hall r (List.mem_reverse.mpr hr),
        savedWord_entered hu hr]
    · rw [reg_resumed, if_neg hr]

end Run

section Interrupt

variable (callee : Handler → Cpu → Option Cpu)

instance (g : BitVec 64 × BitVec 64) : Decidable (Present g) :=
  inferInstanceAs (Decidable (_ = _))

/-- The flags that a gate clears: the interrupt flag, if it is an interrupt gate, and in any
case those for single steps, nested tasks, resuming and virtual 8086 mode. -/
def flagsInHandler (g : BitVec 64 × BitVec 64) (rflags : Word) : Word :=
  rflags &&& ~~~(if gateAttributes g &&& 0xF#8 = gateTypeInterruptGateBits then 0x34300#64
    else 0x34100#64)

/-- The error code of a vector. -/
def errorCodeOf (vector : BitVec 8) (errorCode : Word) : Option Word :=
  if pushesErrorCode vector.toNat then some errorCode else none

/-- An interrupt of the kernel, which goes through the descriptor table and runs the code at the
address of the gate.  It is `none` if the gate is not present or the function never returns. -/
def interrupt (codeAt : Word → Option Code) (table : RecordedArray (BitVec 64))
    (vector : BitVec 8) (errorCode : Word) (s : Cpu) : Option Cpu :=
  let g := gate table vector
  if Present g then
    (codeAt (gateOffset g)).bind fun code =>
      runCode callee code (deliver (gateOffset g) (gateSelector g) (flagsInHandler g s.rflags)
        (errorCodeOf vector errorCode) s)
  else none

/-- How an interrupt comes back: the routine only returned, or a function was called with the
registers saved, and with the error code in `rcx` where there is one that is not always zero. -/
inductive Interrupted (vector : BitVec 8) (errorCode : Word) (s : Cpu) : Cpu → Prop
  | returned (target : Word) (selector : BitVec 16) (flags : Word)
      (hvector : vector = 34) :
      Interrupted vector errorCode s
        { s with mem := (deliver target selector flags none s).mem }
  | handled (target : Word) (selector : BitVec 16) (flags : Word) (h : Handler) (u v : Cpu)
      (hu : Entered target selector flags (errorCodeOf vector errorCode) s u)
      (hargument : pushesErrorCode vector.toNat = true → vector ≠ 8 → u.reg .rcx = errorCode)
      (hcall : callee h u = some v) :
      Interrupted vector errorCode s (resumed s v)

variable {callee}
variable {address : ISR → Word} {codeAt : Word → Option Code} {tableAddress : Word}
variable {kernelCodeSegment : BitVec 16} {table : RecordedArray (BitVec 64)}
variable {vector : BitVec 8} {errorCode : Word} {s t : Cpu}

/-- The routine that an interrupt runs. -/
theorem interrupt_setupIDT
    (hcode : ∀ routine, codeAt (address routine) = some (isrCode routine))
    (hrun : interrupt callee codeAt (setupIDT address tableAddress kernelCodeSegment table).table
      vector errorCode s = some t) :
    ∃ routine flags, routineOf vector.toNat = some routine ∧
      runCode callee (isrCode routine) (deliver (address routine) kernelCodeSegment flags
        (errorCodeOf vector errorCode) s) = some t := by
  have hdecodes := decodesTo_setupIDT address tableAddress kernelCodeSegment table vector
  simp only [interrupt] at hrun
  split at hrun
  · rename_i hpresent
    obtain ⟨routine, hroutine⟩ := (present_setupIDT_iff address tableAddress kernelCodeSegment table
      vector).mp hpresent
    obtain ⟨hoffset, hselector, -, -⟩ := hdecodes
    rw [descriptorOf_eq address kernelCodeSegment hroutine] at hoffset hselector
    rw [hoffset, hselector, hcode, Option.bind_some] at hrun
    exact ⟨routine, _, hroutine, hrun⟩
  · cases hrun

/-- Every interrupt that comes back has saved the registers and runs the program on. -/
theorem interrupted_of_run
    {stack : Word → Prop} (hc : KeepsConvention callee stack)
    (hstack : stack (entrySp (errorCodeOf vector errorCode) s.sp))
    (hcode : ∀ routine, codeAt (address routine) = some (isrCode routine))
    (hrun : interrupt callee codeAt (setupIDT address tableAddress kernelCodeSegment table).table
      vector errorCode s = some t) :
    Interrupted callee vector errorCode s t := by
  obtain ⟨routine, flags, hroutine, hrun⟩ := interrupt_setupIDT hcode hrun
  rcases code_cases hroutine with ⟨⟨rfl, hvector⟩, hnone⟩ | ⟨⟨h, hisr⟩, hnone⟩ | ⟨hisr, hsome⟩
  · rw [errorCodeOf, hnone, if_neg Bool.false_ne_true, isrCode, run_isrISAStub,
      Option.some.injEq] at hrun
    rw [← hrun]
    exact .returned _ _ _ (BitVec.eq_of_toNat_eq hvector)
  · have hcodeOf : errorCodeOf vector errorCode = none := by
      rw [errorCodeOf, hnone, if_neg Bool.false_ne_true]
    rw [hcodeOf] at hstack
    rw [hisr, hcodeOf, run_callHandler hc _ _ _ _ _ (by rwa [sp_saved_callerSaved])] at hrun
    obtain ⟨v, hcall, rfl⟩ := Option.map_eq_some_iff.mp hrun
    refine .handled (address routine) kernelCodeSegment flags h _ v ?_ ?_ hcall
    · rw [hcodeOf]
      exact ⟨rfl, rfl⟩
    · simp [hnone]
  · have hcodeOf : errorCodeOf vector errorCode = some errorCode := by
      rw [errorCodeOf, hsome, if_pos rfl]
    rw [hcodeOf] at hstack
    rcases hisr with ⟨hisr, hdouble⟩ | ⟨h, hisr⟩
    · rw [hisr, hcodeOf, run_isrDoubleFault hc _ _ _ _ _ (by rwa [sp_saved_callerSaved])] at hrun
      obtain ⟨v, hcall, rfl⟩ := Option.map_eq_some_iff.mp hrun
      refine .handled (address routine) kernelCodeSegment flags .doubleFault _ v ?_ ?_ hcall
      · rw [hcodeOf]
        exact ⟨rfl, rfl⟩
      · exact fun _ hne => absurd (BitVec.eq_of_toNat_eq hdouble) hne
    · rw [hisr, hcodeOf,
        run_callHandlerWithErrorCode hc _ _ _ _ _ _ (by rwa [sp_saved_callerSaved])] at hrun
      obtain ⟨v, hcall, rfl⟩ := Option.map_eq_some_iff.mp hrun
      refine .handled (address routine) kernelCodeSegment flags h _ v ?_ ?_ hcall
      · rw [hcodeOf]
        exact ⟨rfl, rfl⟩
      · intro _ _
        simp

/-- An interrupt with a routine comes back if the functions do. -/
theorem isSome_interrupt
    {stack : Word → Prop} (hc : KeepsConvention callee stack)
    (hstack : stack (entrySp (errorCodeOf vector errorCode) s.sp))
    (hcode : ∀ routine, codeAt (address routine) = some (isrCode routine))
    {routine : ISR} (hroutine : routineOf vector.toNat = some routine)
    (htotal : ∀ h u, (callee h u).isSome) :
    (interrupt callee codeAt (setupIDT address tableAddress kernelCodeSegment table).table
      vector errorCode s).isSome := by
  have hpresent := (present_setupIDT_iff address tableAddress kernelCodeSegment table vector).mpr
    ⟨routine, hroutine⟩
  obtain ⟨hoffset, -⟩ :=
    decodesTo_setupIDT address tableAddress kernelCodeSegment table vector
  rw [descriptorOf_eq address kernelCodeSegment hroutine] at hoffset
  simp only [interrupt]
  rw [if_pos hpresent, hoffset, hcode, Option.bind_some]
  rcases code_cases hroutine with ⟨⟨rfl, -⟩, hnone⟩ | ⟨⟨h, hisr⟩, hnone⟩ | ⟨hisr, hsome⟩
  · rw [errorCodeOf, hnone, if_neg Bool.false_ne_true, isrCode, run_isrISAStub]
    rfl
  · have hcodeOf : errorCodeOf vector errorCode = none := by
      rw [errorCodeOf, hnone, if_neg Bool.false_ne_true]
    rw [hcodeOf] at hstack ⊢
    rw [hisr, run_callHandler hc _ _ _ _ _ (by rwa [sp_saved_callerSaved]), Option.isSome_map]
    exact htotal _ _
  · have hcodeOf : errorCodeOf vector errorCode = some errorCode := by
      rw [errorCodeOf, hsome, if_pos rfl]
    rw [hcodeOf] at hstack ⊢
    rcases hisr with ⟨hisr, -⟩ | ⟨h, hisr⟩
    · rw [hisr, run_isrDoubleFault hc _ _ _ _ _ (by rwa [sp_saved_callerSaved]),
        Option.isSome_map]
      exact htotal _ _
    · rw [hisr, run_callHandlerWithErrorCode hc _ _ _ _ _ _ (by rwa [sp_saved_callerSaved]),
        Option.isSome_map]
      exact htotal _ _

theorem toNat_align
    (sp : Word) :
    (sp &&& ~~~15#64).toNat = sp.toNat / 16 * 16 := by
  rw [BitVec.toNat_and]
  exact BitMask.and_high_mask sp.isLt (by decide : 4 ≤ 64)

/-- The stack is aligned to 16 bytes at the call, but for interrupts with an error code. -/
theorem aligned_entrySp_iff
    (vector : BitVec 8) (errorCode sp : Word) :
    (entrySp (errorCodeOf vector errorCode) sp).toNat % 16 = 0 ↔
      pushesErrorCode vector.toNat = false := by
  have halign := toNat_align sp
  rw [entrySp, errorCodeOf]
  cases pushesErrorCode vector.toNat with
  | false =>
      simp only [Bool.false_eq_true, if_false, Option.toList_none, List.length_nil, iff_true]
      bv_omega
  | true =>
      simp only [if_true, Option.toList_some, List.length_cons, List.length_nil, reduceCtorEq,
        iff_false]
      bv_omega

/-- Every interrupt that comes back restores the context of the interrupted program and all
registers but four.  These are restored exactly if the function leaves the 32 bytes alone that
the calling convention gives it, because the routines do not reserve them; and the stack is
aligned for the function exactly if the interrupt has no error code.  The function gets the
error code as its argument, but for double faults. -/
theorem interrupt_restores
    {stack : Word → Prop} (hc : KeepsConvention callee stack)
    (hstack : stack (entrySp (errorCodeOf vector errorCode) s.sp))
    (hcode : ∀ routine, codeAt (address routine) = some (isrCode routine))
    (hrun : interrupt callee codeAt (setupIDT address tableAddress kernelCodeSegment table).table
      vector errorCode s = some t) :
    (t.rip = s.rip ∧ t.cs = s.cs ∧ t.rflags = s.rflags ∧ t.sp = s.sp ∧ t.ss = s.ss) ∧
      (∀ r, r ∉ [Reg.r8, .r9, .r10, .r11] → t.reg r = s.reg r) ∧
      (vector = 34 ∧ t.reg = s.reg ∨
        ∃ h u v, callee h u = some v ∧ t.mem = v.mem ∧
          (u.sp.toNat % 16 = 0 ↔ pushesErrorCode vector.toNat = false) ∧
          (pushesErrorCode vector.toNat = true → vector ≠ 8 → u.reg .rcx = errorCode) ∧
          (t.reg = s.reg ↔ ∀ k < 32,
            v.mem (u.sp + BitVec.ofNat 64 k) = u.mem (u.sp + BitVec.ofNat 64 k))) := by
  cases interrupted_of_run hc hstack hcode hrun with
  | returned target selector flags hvector =>
      exact ⟨⟨rfl, rfl, rfl, rfl, rfl⟩, fun _ _ => rfl, Or.inl ⟨hvector, rfl⟩⟩
  | handled target selector flags h u v hu hargument hcall =>
      have hsp : u.sp = entrySp (errorCodeOf vector errorCode) s.sp := by
        rw [hu.1, sp_saved_callerSaved]
      have hframe : KeepsFrame u v := hc h u v (by rwa [hsp]) hcall
      refine ⟨⟨rfl, rfl, rfl, rfl, rfl⟩, fun r hr => ?_, Or.inr ⟨h, u, v, hcall, rfl, ?_,
        hargument, resumed_reg_iff hframe hu⟩⟩
      · rw [reg_resumed]
        by_cases hsaved : r ∈ callerSaved
        · rw [if_pos hsaved]
          refine savedWord_kept hframe hu ?_
          cases r <;> simp_all [callerSaved]
        · rw [if_neg hsaved]
      · rw [hsp]
        exact aligned_entrySp_iff vector errorCode s.sp

/-- Routines one after another. -/
def listedAddress (routine : ISR) : Word :=
  BitVec.ofNat 64 (4096 + routine.ctorIdx)

def listedCode (a : Word) : Option Code :=
  (((List.range 48).filterMap routineOf).find? fun routine => listedAddress routine = a).map
    isrCode

theorem listedCode_listedAddress
    (routine : ISR) :
    listedCode (listedAddress routine) = some (isrCode routine) := by
  cases routine <;> rfl

/-- An idle processor. -/
def idleCpu : Cpu where
  reg := fun _ => 7
  sp := 0x8000
  rip := 0x1000
  rflags := 0x202
  cs := 8
  ss := 16
  mem := fun _ => 0

/-- A page fault whose function does nothing. -/
theorem interrupt_restores_idle :
    ∃ t, interrupt (fun _ u => some u) listedCode
        (setupIDT listedAddress 0 8 ⟨fun _ => 0, []⟩).table 14 2 idleCpu = some t ∧
      t.rip = 0x1000 ∧ t.rflags = 0x202 ∧ t.sp = 0x8000 ∧ t.reg .rax = 7 := by
  have hc : KeepsConvention (fun _ u => some u) fun _ => True := by
    rintro h u v - hcall
    cases hcall
    exact ⟨fun _ _ => rfl, rfl, fun _ _ _ => rfl⟩
  have hsome : (interrupt (fun _ u => some u) listedCode
      (setupIDT listedAddress 0 8 ⟨fun _ => 0, []⟩).table 14 2 idleCpu).isSome :=
    isSome_interrupt hc trivial listedCode_listedAddress rfl fun _ _ => rfl
  obtain ⟨t, hrun⟩ := Option.isSome_iff_exists.mp hsome
  obtain ⟨⟨hrip, -, hrflags, hsp, -⟩, hreg, -⟩ :=
    interrupt_restores hc trivial listedCode_listedAddress hrun
  exact ⟨t, hrun, hrip, hrflags, hsp, hreg .rax (by decide)⟩

end Interrupt

section Interleaving

universe u v

variable {S : Type u} {E : Type v} (step : S → S) (event : E → S → Option S)

/-- Steps of a program, with events between them; `none` is a step. -/
def runInterleaved : List (Option E) → S → Option S
  | [], s => some s
  | none :: schedule, s => runInterleaved schedule (step s)
  | some e :: schedule, s => (event e s).bind (runInterleaved schedule)

/-- The steps of a schedule. -/
def numSteps (schedule : List (Option E)) : Nat :=
  schedule.countP Option.isNone

variable {step event}

/-- Events that the program cannot tell from nothing do not change what it does. -/
theorem runInterleaved_related
    {alike : S → S → Prop} {ok : S → Prop} (hrefl : ∀ s, alike s s)
    (htrans : ∀ s t w, alike s t → alike t w → alike s w)
    (hstep : ∀ s t, alike s t → alike (step s) (step t)) (hok : ∀ s, ok s → ok (step s))
    (hevent : ∀ e s t, ok s → event e s = some t → alike s t ∧ ok t)
    {schedule : List (Option E)} {s t : S} (hs : ok s)
    (hrun : runInterleaved step event schedule s = some t) :
    alike (step^[numSteps schedule] s) t := by
  have hsteps : ∀ (n : Nat) (s t : S), alike s t → alike (step^[n] s) (step^[n] t) := by
    intro n
    induction n with
    | zero => exact fun s t h => h
    | succ n ih =>
        intro s t h
        rw [Function.iterate_succ_apply, Function.iterate_succ_apply]
        exact ih _ _ (hstep s t h)
  induction schedule generalizing s with
  | nil =>
      rw [runInterleaved, Option.some.injEq] at hrun
      rw [← hrun]
      exact hrefl s
  | cons entry schedule ih =>
      cases entry with
      | none =>
          have hcount : numSteps (none :: schedule : List (Option E)) = numSteps schedule + 1 := by
            simp [numSteps]
          rw [hcount, Function.iterate_succ_apply]
          exact ih (hok s hs) hrun
      | some e =>
          have hcount : numSteps (some e :: schedule) = numSteps schedule := by
            simp [numSteps]
          rw [runInterleaved, Option.bind_eq_some_iff] at hrun
          obtain ⟨w, hw, hrun⟩ := hrun
          obtain ⟨halike, hokw⟩ := hevent e s w hs hw
          rw [hcount]
          exact htrans _ _ _ (hsteps _ s w halike) (ih hokw hrun)

end Interleaving

section Transparency

/-- Memory that the interrupted program does not depend on: the stack below its stack pointer,
from `low` on, and the memory of the interrupt functions. -/
def Hidden (low : Nat) (owned : Word → Prop) (sp x : Word) : Prop :=
  low ≤ x.toNat ∧ x.toNat < sp.toNat ∨ owned x

/-- States that differ in hidden memory only. -/
structure Alike (low : Nat) (owned : Word → Prop) (s t : Cpu) : Prop where
  reg : t.reg = s.reg
  sp : t.sp = s.sp
  rip : t.rip = s.rip
  rflags : t.rflags = s.rflags
  cs : t.cs = s.cs
  ss : t.ss = s.ss
  mem : ∀ x, ¬Hidden low owned s.sp x → t.mem x = s.mem x

variable {low top : Nat} {owned : Word → Prop} {s t w : Cpu}

theorem alike_refl
    (s : Cpu) :
    Alike low owned s s :=
  ⟨rfl, rfl, rfl, rfl, rfl, rfl, fun _ _ => rfl⟩

theorem Alike.trans
    (hst : Alike low owned s t) (htw : Alike low owned t w) :
    Alike low owned s w where
  reg := htw.reg.trans hst.reg
  sp := htw.sp.trans hst.sp
  rip := htw.rip.trans hst.rip
  rflags := htw.rflags.trans hst.rflags
  cs := htw.cs.trans hst.cs
  ss := htw.ss.trans hst.ss
  mem := fun x hx => (htw.mem x (by rwa [hst.sp])).trans (hst.mem x hx)

/-- The stack holds a word, and has room for an interrupt. -/
def Room (low top : Nat) (s : Cpu) : Prop :=
  low + 119 ≤ s.sp.toNat ∧ s.sp.toNat + 8 ≤ top

/-- Stack pointers with the frame of a routine on the stack. -/
def InStack (low top : Nat) (sp : Word) : Prop :=
  low ≤ sp.toNat ∧ sp.toNat + 104 ≤ top

/-- The functions keep the registers that the convention asks for, and write only to the stack
below their stack pointer and to memory of their own. -/
structure Confined (callee : Handler → Cpu → Option Cpu) (low : Nat) (owned : Word → Prop) :
    Prop where
  reg : ∀ h u v, callee h u = some v → ∀ r, r ∉ callerSaved → v.reg r = u.reg r
  sp : ∀ h u v, callee h u = some v → v.sp = u.sp
  mem : ∀ h u v, callee h u = some v → ∀ x, ¬Hidden low owned u.sp x → v.mem x = u.mem x

variable {callee : Handler → Cpu → Option Cpu}

/-- Functions that are confined do not write to the frame of the routine. -/
theorem Confined.frame
    (hc : Confined callee low owned) (htop : top ≤ 2 ^ 64)
    (howned : ∀ x, owned x → ¬(low ≤ x.toNat ∧ x.toNat < top)) {h : Handler} {u v : Cpu}
    (hstack : InStack low top u.sp) (hcall : callee h u = some v) {k : Nat} (hk : k < 104) :
    v.mem (u.sp + BitVec.ofNat 64 k) = u.mem (u.sp + BitVec.ofNat 64 k) := by
  obtain ⟨hlow, hhigh⟩ := hstack
  have hx : (u.sp + BitVec.ofNat 64 k).toNat = u.sp.toNat + k := by
    rw [BitVec.toNat_add, BitVec.toNat_ofNat]
    omega
  refine hc.mem h u v hcall _ ?_
  rintro (⟨-, hbelow⟩ | hown)
  · omega
  · exact howned _ hown ⟨by omega, by omega⟩

theorem Confined.keepsConvention
    (hc : Confined callee low owned) (htop : top ≤ 2 ^ 64)
    (howned : ∀ x, owned x → ¬(low ≤ x.toNat ∧ x.toNat < top)) :
    KeepsConvention callee (InStack low top) :=
  fun h u v hstack hcall =>
    ⟨hc.reg h u v hcall, hc.sp h u v hcall, fun _ _ hk => hc.frame htop howned hstack hcall hk⟩

/-- The stack pointer at the call. -/
theorem toNat_entrySp
    (hroom : Room low top s) (errorCode : Option Word) :
    (entrySp errorCode s.sp).toNat =
      s.sp.toNat / 16 * 16 - (96 + 8 * errorCode.toList.length) := by
  have halign := toNat_align s.sp
  have hcode : errorCode.toList.length ≤ 1 := by
    cases errorCode <;> simp
  have hroom := hroom.1
  have hcount : (BitVec.ofNat 64 (96 + 8 * errorCode.toList.length)).toNat =
      96 + 8 * errorCode.toList.length := by
    rw [BitVec.toNat_ofNat]
    omega
  rw [entrySp, BitVec.toNat_sub_of_le (BitVec.le_def.mpr (by omega)), halign, hcount]

theorem inStack_entrySp
    (hroom : Room low top s) (errorCode : Option Word) :
    InStack low top (entrySp errorCode s.sp) := by
  have hcode : errorCode.toList.length ≤ 1 := by
    cases errorCode <;> simp
  have hsp := toNat_entrySp hroom errorCode
  obtain ⟨hlow, hhigh⟩ := hroom
  constructor <;> omega

/-- Saving the context writes to hidden memory only. -/
theorem mem_saved_of_not_hidden
    (hroom : Room low top s) {target : Word} {selector : BitVec 16} {flags : Word}
    {errorCode : Option Word} {rs : List Reg} (hrs : rs.length ≤ 7) {x : Word}
    (hx : ¬Hidden low owned s.sp x) :
    (saved target selector flags errorCode s rs).mem x = s.mem x := by
  have hcode : errorCode.toList.length ≤ 1 := by
    cases errorCode <;> simp
  have halign := toNat_align s.sp
  have hlow := hroom.1
  have hout : x.toNat < low ∨ s.sp.toNat ≤ x.toNat := by
    by_contra hin
    exact hx (Or.inl ⟨by omega, by omega⟩)
  have hlt := s.sp.isLt
  have hxlt := x.isLt
  refine mem_saved_of_outside _ _ _ _ _ _ ?_
  rw [sp_saved, length_savedContext]
  generalize hcount : 8 * (rs.length + (5 + errorCode.toList.length)) = n
  have hn : (BitVec.ofNat 64 n).toNat = n := by
    rw [BitVec.toNat_ofNat]
    omega
  have hsp : ((s.sp &&& ~~~15#64) - BitVec.ofNat 64 n).toNat = s.sp.toNat / 16 * 16 - n := by
    rw [BitVec.toNat_sub_of_le (BitVec.le_def.mpr (by omega)), halign, hn]
  rw [BitVec.toNat_sub, hsp]
  omega

/-- An interrupt changes hidden memory only. -/
theorem alike_interrupted
    (hc : Confined callee low owned) (htop : top ≤ 2 ^ 64)
    (howned : ∀ x, owned x → ¬(low ≤ x.toNat ∧ x.toNat < top)) (hroom : Room low top s)
    {vector : BitVec 8} {errorCode : Word} (hrun : Interrupted callee vector errorCode s t) :
    Alike low owned s t := by
  cases hrun with
  | returned target selector flags hvector =>
      refine ⟨rfl, rfl, rfl, rfl, rfl, rfl, fun x hx => ?_⟩
      have hmem : (saved target selector flags none s []).mem x = s.mem x := by
        refine mem_saved_of_not_hidden hroom ?_ hx
        exact Nat.zero_le 7
      exact hmem
  | handled target selector flags h u v hu hargument hcall =>
      have hsp : u.sp = entrySp (errorCodeOf vector errorCode) s.sp := by
        rw [hu.1, sp_saved_callerSaved]
      have hstack : InStack low top u.sp := by
        rw [hsp]
        exact inStack_entrySp hroom _
      have hframe := hc.keepsConvention htop howned h u v hstack hcall
      refine ⟨?_, rfl, rfl, rfl, rfl, rfl, fun x hx => ?_⟩
      · exact (resumed_reg_iff hframe hu).mpr fun k hk =>
          hc.frame htop howned hstack hcall (by omega)
      · have hkept : v.mem x = u.mem x := by
          refine hc.mem h u v hcall x fun hhidden => hx ?_
          rcases hhidden with ⟨hlow, hbelow⟩ | hown
          · have hentry := toNat_entrySp hroom (errorCodeOf vector errorCode)
            rw [← hsp] at hentry
            exact Or.inl ⟨hlow, by omega⟩
          · exact Or.inr hown
        show v.mem x = s.mem x
        rw [hkept, hu.2]
        exact mem_saved_of_not_hidden hroom (by decide) hx

variable {address : ISR → Word} {codeAt : Word → Option Code} {tableAddress : Word}
variable {kernelCodeSegment : BitVec 16} {table : RecordedArray (BitVec 64)}

/-- Interrupts are transparent.  A program that does not depend on the memory below its stack
pointer or on the memory of the interrupt functions, and that leaves room on its stack, ends in
the same registers and the same memory of its own, whatever interrupts come at whatever places,
if the functions keep to the calling convention and leave the frames of their callers alone. -/
theorem interrupts_transparent
    (hc : Confined callee low owned) (htop : top ≤ 2 ^ 64)
    (howned : ∀ x, owned x → ¬(low ≤ x.toNat ∧ x.toNat < top))
    (hcode : ∀ routine, codeAt (address routine) = some (isrCode routine))
    (step : Cpu → Cpu) (hstep : ∀ s t, Alike low owned s t → Alike low owned (step s) (step t))
    (hroom : ∀ s, Room low top s → Room low top (step s))
    (schedule : List (Option (BitVec 8 × Word))) (hs : Room low top s)
    (hrun : runInterleaved step
      (fun e => interrupt callee codeAt
        (setupIDT address tableAddress kernelCodeSegment table).table e.1 e.2)
      schedule s = some t) :
    Alike low owned (step^[numSteps schedule] s) t := by
  refine runInterleaved_related alike_refl (fun _ _ _ => Alike.trans) hstep hroom ?_ hs hrun
  rintro ⟨vector, errorCode⟩ s t hs hrun
  have hinterrupted := interrupted_of_run (hc.keepsConvention htop howned)
    (inStack_entrySp hs _) hcode hrun
  have halike := alike_interrupted hc htop howned hs hinterrupted
  refine ⟨halike, ?_⟩
  rw [Room, halike.sp]
  exact hs

/-- A function that counts its calls in a byte of its own. -/
def countingFunction (_ : Handler) (u : Cpu) : Option Cpu :=
  some { u with mem := Function.update u.mem 0 (u.mem 0 + 1) }

/-- An instruction that does nothing. -/
def nop (s : Cpu) : Cpu :=
  { s with rip := s.rip + 1 }

/-- The idle processor is interrupted by a key and goes on. -/
theorem interrupts_transparent_idle :
    ∃ t, runInterleaved nop
        (fun e : BitVec 8 × Word => interrupt countingFunction listedCode
          (setupIDT listedAddress 0 8 ⟨fun _ => 0, []⟩).table e.1 e.2)
        [none, some (33, 0), none] idleCpu = some t ∧
      t.rip = 0x1002 ∧ t.reg .r8 = 7 := by
  have hc : Confined countingFunction 4096 fun x => x = 0 := by
    refine ⟨?_, ?_, ?_⟩
    · rintro h u v hcall r -
      cases hcall
      rfl
    · rintro h u v hcall
      cases hcall
      rfl
    · rintro h u v hcall x hx
      cases hcall
      have hne : x ≠ 0 := fun h => hx (Or.inr h)
      exact Function.update_of_ne hne _ _
  have howned : ∀ x : Word, x = 0 → ¬(4096 ≤ x.toNat ∧ x.toNat < 0x9000) := by
    rintro x rfl
    decide
  have hroom : Room 4096 0x9000 (nop idleCpu) := ⟨by decide, by decide⟩
  have hsome : (interrupt countingFunction listedCode
      (setupIDT listedAddress 0 8 ⟨fun _ => 0, []⟩).table 33 0 (nop idleCpu)).isSome :=
    isSome_interrupt (hc.keepsConvention (by decide) howned) (inStack_entrySp hroom _)
      listedCode_listedAddress rfl fun _ _ => rfl
  obtain ⟨w, hw⟩ := Option.isSome_iff_exists.mp hsome
  have hrun : runInterleaved nop
      (fun e : BitVec 8 × Word => interrupt countingFunction listedCode
        (setupIDT listedAddress 0 8 ⟨fun _ => 0, []⟩).table e.1 e.2)
      [none, some (33, 0), none] idleCpu = some (nop w) := by
    rw [runInterleaved, runInterleaved, hw]
    rfl
  have halike := interrupts_transparent hc (by decide) howned listedCode_listedAddress
    nop (fun s t h => ⟨h.reg, h.sp, congrArg (· + 1) h.rip, h.rflags, h.cs, h.ss, h.mem⟩)
    (fun _ h => h) _ hroom hrun
  exact ⟨_, hrun, halike.rip, congrFun halike.reg .r8⟩

end Transparency

end Interrupts
end DexprOS
