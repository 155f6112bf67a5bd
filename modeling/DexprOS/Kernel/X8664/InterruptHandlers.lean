import DexprOS.Drivers.PICDriver
import DexprOS.Kernel.X8664.Interrupts
import Mathlib.Tactic.FinCases

/-!
# Interrupt requests

The functions of `InterruptHandlers.c`, as far as they write to ports, with the controllers that
request the interrupts and a processor that runs one routine after the other.

Main facts:
* `vectorWrites_vector`: what the routine of a request writes;
* `step_inv`: between interrupts nothing is being served, but for IRQ 7;
* `requests_accounted`: no request is lost and none is served twice;
* `requests_served`: all are served in the end, in the order of their priorities.
-/

namespace DexprOS
namespace Interrupts

open Idt PriorityLines StackCode

section Handlers

/-- What the functions of `InterruptHandlers.c` write to ports, with the bytes that
`DexprOS_ProcessPS2KeyboardInterrupt` sends to the keyboard.  It is `none` where
`DexprOS_KernelPanic` does not return. -/
def handlerWrites (sent : List (BitVec 8)) : Handler → Option (List PortWrite)
  | .isaPIT => some (picSendEOI 0)
  | .isaKeyboard => some (sent.map (fun b => ⟨b, 0x60⟩) ++ picSendEOI 1)
  | .isaCOM2 => some (picSendEOI 3)
  | .isaCOM1 => some (picSendEOI 4)
  | .isaLPT2 => some (picSendEOI 5)
  | .isaFloppyDisk => some (picSendEOI 6)
  | .isaLPT1Spurious => some []
  | .isaCMOSClock => some (picSendEOI 8)
  | .isaPeripherals0 => some (picSendEOI 9)
  | .isaPeripherals1 => some (picSendEOI 10)
  | .isaPeripherals2 => some (picSendEOI 11)
  | .isaPS2Mouse => some (picSendEOI 12)
  | .isaFPU => some (picSendEOI 13)
  | .isaPrimaryATAHardDisk => some (picSendEOI 14)
  | .isaSecondaryATAHardDisk => some (picSendEOI 15)
  | .stub => some []
  | _ => none

/-- What a routine writes, through the functions that it calls. -/
def codeWrites (sent : List (BitVec 8)) : Code → Option (List PortWrite)
  | [] => some []
  | .call h :: code =>
      (handlerWrites sent h).bind fun ws => (codeWrites sent code).map (ws ++ ·)
  | _ :: code => codeWrites sent code

def vectorWrites (sent : List (BitVec 8)) (vector : BitVec 8) : Option (List PortWrite) :=
  (routineOf vector.toNat).bind fun routine => codeWrites sent (isrCode routine)

end Handlers

section Requests

/-- The lines of the two controllers. -/
inductive Irq where
  | master (k : Fin 8)
  | slave (k : Fin 8)
deriving DecidableEq, Repr

/-- The second controller comes in at line 2 of the first one. -/
def Irq.rank : Irq → Nat
  | .master k => 8 * k
  | .slave k => 16 + k

variable (p : Pics)

def Pics.requests : Irq → Bool
  | .master k => p.master.lines.requests k
  | .slave k => p.slave.lines.requests k

def Pics.vector : Irq → BitVec 8
  | .master k => p.master.vector k
  | .slave k => p.slave.vector k

def Pics.setRequest (b : Bool) : Irq → Pics
  | .master k =>
      { p with
        master := { p.master with lines := p.master.lines.setRequest k b } }
  | .slave k =>
      { p with
        slave := { p.slave with lines := p.slave.lines.setRequest k b } }

/-- The lines of the first controller, one of which the second controller drives. -/
def Pics.masterLines : Lines 8 :=
  p.master.lines.setRequest 2 p.slave.lines.pending.isSome

/-- The request that is served next. -/
def Pics.next : Option Irq :=
  p.masterLines.pending.bind fun k =>
    if k = 2 then p.slave.lines.pending.map .slave else some (.master k)

def Pics.takeMaster (k : Fin 8) : Pics :=
  { p with master := { p.master with lines := p.master.lines.take k } }

/-- The processor acknowledges a request. -/
def Pics.take : Irq → Pics
  | .master k => p.takeMaster k
  | .slave k =>
      { p.takeMaster 2 with slave := { p.slave with lines := p.slave.lines.take k } }

end Requests

section System

/-- The controllers, and what the function that handles an interrupt still has to write.  The
gates of these vectors disable interrupts until the routine returns. -/
structure System where
  pics : Pics
  handling : Option (List PortWrite)

inductive Action where
  | raise (irq : Irq)
  | withdraw (irq : Irq)
  | acknowledge (irq : Irq) (sent : List (BitVec 8))
  | spurious
  | spuriousSlave
  | write
  | finish
deriving DecidableEq, Repr

/-- A request that is withdrawn before it is acknowledged leads to a spurious interrupt, with the
vector of the last line of a controller. -/
def System.step (s : System) : Action → Option System
  | .raise irq =>
      if irq ≠ .master 2 ∧ s.pics.requests irq = false then
        some { s with pics := s.pics.setRequest true irq }
      else none
  | .withdraw irq =>
      if irq ≠ .master 2 ∧ s.pics.requests irq = true then
        some { s with pics := s.pics.setRequest false irq }
      else none
  | .acknowledge irq sent =>
      if s.handling = none ∧ s.pics.next = some irq then
        (vectorWrites sent (s.pics.vector irq)).map fun ws => ⟨s.pics.take irq, some ws⟩
      else none
  | .spurious =>
      if s.handling = none then
        (vectorWrites [] (s.pics.master.vector 7)).map fun ws => ⟨s.pics, some ws⟩
      else none
  | .spuriousSlave =>
      if s.handling = none ∧ s.pics.master.lines.Free 2 then
        (vectorWrites [] (s.pics.slave.vector 7)).map fun ws => ⟨s.pics.takeMaster 2, some ws⟩
      else none
  | .write =>
      match s.handling with
      | some (w :: ws) => some ⟨s.pics.outb w, some ws⟩
      | _ => none
  | .finish =>
      match s.handling with
      | some [] => some { s with handling := none }
      | _ => none

/-- A run of devices, controllers and processor. -/
def System.run : List Action → System → Option System
  | [], s => some s
  | a :: actions, s => (s.step a).bind (System.run actions)

/-- After `DexprOS_InitialisePIC(32, 40)`, whatever the firmware left. -/
def booted (firmware : Pics) : System :=
  ⟨firmware.outbs (initialisePIC 32 40), none⟩

def Action.serves (irq : Irq) : Action → Bool
  | .acknowledge i _ => i = irq
  | _ => false

def Action.raises (irq : Irq) : Action → Bool
  | .raise i => i = irq
  | _ => false

def Action.withdraws (irq : Irq) : Action → Bool
  | .withdraw i => i = irq
  | _ => false

/-- What the processor does. -/
def Action.ofProcessor : Action → Bool
  | .acknowledge _ _ | .write | .finish => true
  | _ => false

end System

section Invariant

/-- The writes that the functions make. -/
def Quiet (w : PortWrite) : Prop :=
  w = ⟨0x20, 0x20⟩ ∨ w = ⟨0x20, 0xA0⟩ ∨ w.port = 0x60

/-- The end of an interrupt, without the bytes for the keyboard. -/
def endOfInterrupt : Irq → List PortWrite
  | .master k => if k = 2 ∨ k = 7 then [] else [⟨0x20, 0x20⟩]
  | .slave _ => [⟨0x20, 0xA0⟩, ⟨0x20, 0x20⟩]

/-- The controllers after the initialisation: vectors 32 to 47, and no line is masked. -/
structure Configured (p : Pics) : Prop where
  masterOffset : p.master.offset = 32
  slaveOffset : p.slave.offset = 40
  masterMask : p.master.lines.mask = fun _ => false
  slaveMask : p.slave.lines.mask = fun _ => false

/-- Nothing is being served, but for the last line of the first controller. -/
structure Settled (seven : Bool) (p : Pics) : Prop where
  master : p.master.lines.inService = fun k => decide (k = 7) && seven
  slave : p.slave.lines.inService = fun _ => false

/-- What the processor still has to write. -/
def System.remaining (s : System) : List PortWrite :=
  s.handling.getD []

/-- The invariant of the system: once the function has finished, nothing is being served, but for
IRQ 7 if it has been served before. -/
structure Inv (seven : Bool) (s : System) : Prop where
  configured : Configured s.pics
  quiet : ∀ w ∈ s.remaining, Quiet w
  settled : Settled seven (s.pics.outbs s.remaining)

/-- The same lines are being served. -/
structure SameService (p q : Pics) : Prop where
  master : p.master.lines.inService = q.master.lines.inService
  slave : p.slave.lines.inService = q.slave.lines.inService

variable {p q : Pics} {w : PortWrite} {ws : List PortWrite} {seven : Bool} {irq : Irq}

/-- What the functions write only ends the service of a line. -/
theorem outb_of_quiet
    (hw : Quiet w) (p : Pics) :
    p.outb w = p ∨
      p.outb w = { p with master := { p.master with lines := p.master.lines.finish } } ∨
        p.outb w = { p with slave := { p.slave with lines := p.slave.lines.finish } } := by
  rcases hw with rfl | rfl | hport
  · exact Or.inr (Or.inl rfl)
  · exact Or.inr (Or.inr rfl)
  · exact Or.inl (by simp [Pics.outb, hport])

theorem SameService.outb
    (hpq : SameService p q) (hw : Quiet w) :
    SameService (p.outb w) (q.outb w) := by
  rcases hw with rfl | rfl | hport
  · exact ⟨inService_finish_congr hpq.master, hpq.slave⟩
  · exact ⟨hpq.master, inService_finish_congr hpq.slave⟩
  · have hout : ∀ p : Pics, p.outb w = p := fun p => by simp [Pics.outb, hport]
    rw [hout, hout]
    exact hpq

theorem SameService.outbs
    (hpq : SameService p q) (hws : ∀ w ∈ ws, Quiet w) :
    SameService (p.outbs ws) (q.outbs ws) := by
  induction ws generalizing p q with
  | nil => exact hpq
  | cons w ws ih =>
      exact ih (hpq.outb (hws w List.mem_cons_self)) fun v hv =>
        hws v (List.mem_cons_of_mem w hv)

theorem Settled.congr
    (hp : Settled seven p) (hpq : SameService p q) :
    Settled seven q :=
  ⟨hpq.master.symm.trans hp.master, hpq.slave.symm.trans hp.slave⟩

theorem Configured.outb
    (hp : Configured p) (hw : Quiet w) :
    Configured (p.outb w) := by
  obtain ⟨hmaster, hslave, hmasterMask, hslaveMask⟩ := hp
  rcases outb_of_quiet hw p with h | h | h <;> rw [h]
  · exact ⟨hmaster, hslave, hmasterMask, hslaveMask⟩
  · exact ⟨hmaster, hslave, (mask_finish _).trans hmasterMask, hslaveMask⟩
  · exact ⟨hmaster, hslave, hmasterMask, (mask_finish _).trans hslaveMask⟩

theorem requests_outb
    (hw : Quiet w) (p : Pics) (irq : Irq) :
    (p.outb w).requests irq = p.requests irq := by
  rcases outb_of_quiet hw p with h | h | h <;> rw [h]
  · cases irq <;> simp [Pics.requests]
  · cases irq <;> simp [Pics.requests]

/-- The bytes for the keyboard do not reach the controllers. -/
theorem outbs_sent
    (sent : List (BitVec 8)) (p : Pics) :
    p.outbs (sent.map fun b => ⟨b, 0x60⟩) = p := by
  induction sent with
  | nil => rfl
  | cons b sent ih =>
      have hout : p.outb ⟨b, 0x60⟩ = p := by simp [Pics.outb]
      rw [List.map_cons, outbs_cons, hout, ih]

theorem outbs_append
    (vs ws : List PortWrite) (p : Pics) :
    p.outbs (vs ++ ws) = (p.outbs vs).outbs ws :=
  List.foldl_append

/-- What the routine of a request writes: the end of the interrupt, after bytes for the keyboard
at most. -/
theorem vectorWrites_vector
    (hp : Configured p) (sent : List (BitVec 8)) (irq : Irq) :
    ∃ bytes : List (BitVec 8), vectorWrites sent (p.vector irq) =
      some (bytes.map (fun b => ⟨b, 0x60⟩) ++ endOfInterrupt irq) := by
  cases irq with
  | master k =>
      rw [Pics.vector, Pic.vector, hp.masterOffset]
      by_cases hkeyboard : k = 1
      · subst hkeyboard
        exact ⟨sent, by simp [vectorWrites, routineOf, isrCode, callHandler, savingRegisters,
          callerSaved, codeWrites, handlerWrites, picSendEOI, endOfInterrupt]⟩
      · fin_cases k <;> first
          | exact ⟨[], rfl⟩
          | exact absurd rfl hkeyboard
  | slave k =>
      rw [Pics.vector, Pic.vector, hp.slaveOffset]
      fin_cases k <;> exact ⟨[], rfl⟩

theorem quiet_writes
    (bytes : List (BitVec 8)) (irq : Irq) :
    ∀ w ∈ bytes.map (fun b => (⟨b, 0x60⟩ : PortWrite)) ++ endOfInterrupt irq, Quiet w := by
  intro w hw
  rcases List.mem_append.mp hw with hw | hw
  · obtain ⟨b, -, rfl⟩ := List.mem_map.mp hw
    exact Or.inr (Or.inr rfl)
  · cases irq with
    | master k =>
        rw [endOfInterrupt] at hw
        split at hw
        · cases hw
        · exact Or.inl (List.mem_singleton.mp hw)
    | slave k =>
        rcases List.mem_pair.mp hw with rfl | rfl
        · exact Or.inr (Or.inl rfl)
        · exact Or.inl rfl

theorem sameService_setRequest
    (p : Pics) (b : Bool) (irq : Irq) :
    SameService p (p.setRequest b irq) := by
  cases irq <;> exact ⟨rfl, rfl⟩

theorem Configured.setRequest
    (hp : Configured p) (b : Bool) (irq : Irq) :
    Configured (p.setRequest b irq) := by
  obtain ⟨hmaster, hslave, hmasterMask, hslaveMask⟩ := hp
  cases irq <;> exact ⟨hmaster, hslave, hmasterMask, hslaveMask⟩

theorem Configured.take
    (hp : Configured p) (irq : Irq) :
    Configured (p.take irq) := by
  obtain ⟨hmaster, hslave, hmasterMask, hslaveMask⟩ := hp
  cases irq <;> exact ⟨hmaster, hslave, hmasterMask, hslaveMask⟩

/-- The next request is that of the first line that may come next. -/
theorem next_eq_some
    (hnext : p.next = some irq) :
    match irq with
    | .master k => k ≠ 2 ∧ p.masterLines.pending = some k
    | .slave k => p.masterLines.pending = some 2 ∧ p.slave.lines.pending = some k := by
  rw [Pics.next, Option.bind_eq_some_iff] at hnext
  obtain ⟨k, hpending, hk⟩ := hnext
  by_cases htwo : k = 2
  · rw [if_pos htwo, Option.map_eq_some_iff] at hk
    obtain ⟨j, hj, rfl⟩ := hk
    exact ⟨htwo ▸ hpending, hj⟩
  · rw [if_neg htwo, Option.some.injEq] at hk
    subst hk
    exact ⟨htwo, hpending⟩

/-- Between interrupts the functions' writes end the service of the line that is acknowledged,
and IRQ 7 is acknowledged only if it has not been served before. -/
theorem Settled.acknowledged
    (hp : Settled seven p) (hnext : p.next = some irq) :
    Settled (seven || decide (irq = .master 7)) ((p.take irq).outbs (endOfInterrupt irq)) ∧
      (irq = .master 7 → seven = false) := by
  cases irq with
  | master k =>
      obtain ⟨htwo, hpending⟩ := next_eq_some hnext
      have hfree : p.master.lines.Free k := (offers_iff.mp (pending_eq_some_iff.mp hpending).1).2.2
      by_cases hseven : k = 7
      · subst hseven
        have hidle := hfree 7 le_rfl
        rw [hp.master] at hidle
        refine ⟨⟨?_, hp.slave⟩, fun _ => by simpa using hidle⟩
        funext j
        by_cases hj : j = 7
        · simp [Pics.take, Pics.takeMaster, endOfInterrupt, hj]
        · simp [Pics.take, Pics.takeMaster, endOfInterrupt, hj, hp.master]
      · refine ⟨?_, fun h => absurd (Irq.master.inj h) hseven⟩
        have hend : endOfInterrupt (.master k) = [⟨0x20, 0x20⟩] := by
          simp [endOfInterrupt, htwo, hseven]
        rw [hend]
        refine ⟨(inService_finish_take hfree).trans ?_, hp.slave⟩
        simp [hp.master, hseven]
  | slave k =>
      obtain ⟨hpending, hslave⟩ := next_eq_some hnext
      have hfree : p.master.lines.Free 2 := (offers_iff.mp (pending_eq_some_iff.mp hpending).1).2.2
      have hfree' := (offers_iff.mp (pending_eq_some_iff.mp hslave).1).2.2
      refine ⟨⟨(inService_finish_take hfree).trans ?_,
        (inService_finish_take hfree').trans hp.slave⟩, fun h => by cases h⟩
      simp [hp.master]

/-- A spurious interrupt of the second controller ends the service of line 2 only. -/
theorem Settled.spuriousSlave
    (hp : Settled seven p) (hfree : p.master.lines.Free 2) :
    Settled seven ((p.takeMaster 2).outbs (endOfInterrupt (.slave 7))) :=
  ⟨(inService_finish_take hfree).trans hp.master, inService_finish_of_none hp.slave⟩

end Invariant

section Runs

variable {s t : System} {a : Action} {actions : List Action} {seven : Bool} {irq : Irq}

/-- What an action can do. -/
theorem step_cases
    (hstep : s.step a = some t) :
    match a with
    | .raise i => i ≠ .master 2 ∧ s.pics.requests i = false ∧
        t = { s with pics := s.pics.setRequest true i }
    | .withdraw i => i ≠ .master 2 ∧ s.pics.requests i = true ∧
        t = { s with pics := s.pics.setRequest false i }
    | .acknowledge i sent => s.handling = none ∧ s.pics.next = some i ∧
        ∃ ws, vectorWrites sent (s.pics.vector i) = some ws ∧ t = ⟨s.pics.take i, some ws⟩
    | .spurious => s.handling = none ∧
        ∃ ws, vectorWrites [] (s.pics.vector (.master 7)) = some ws ∧ t = ⟨s.pics, some ws⟩
    | .spuriousSlave => s.handling = none ∧ s.pics.master.lines.Free 2 ∧
        ∃ ws, vectorWrites [] (s.pics.vector (.slave 7)) = some ws ∧
          t = ⟨s.pics.takeMaster 2, some ws⟩
    | .write => ∃ w ws, s.handling = some (w :: ws) ∧ t = ⟨s.pics.outb w, some ws⟩
    | .finish => s.handling = some [] ∧ t = { s with handling := none } := by
  cases a with
  | raise i =>
      rw [System.step, Option.ite_none_right_eq_some] at hstep
      obtain ⟨⟨hi, hrequests⟩, hstep⟩ := hstep
      exact ⟨hi, hrequests, (Option.some.inj hstep).symm⟩
  | withdraw i =>
      rw [System.step, Option.ite_none_right_eq_some] at hstep
      obtain ⟨⟨hi, hrequests⟩, hstep⟩ := hstep
      exact ⟨hi, hrequests, (Option.some.inj hstep).symm⟩
  | acknowledge i sent =>
      rw [System.step, Option.ite_none_right_eq_some] at hstep
      obtain ⟨⟨hidle, hnext⟩, hstep⟩ := hstep
      obtain ⟨ws, hws, rfl⟩ := Option.map_eq_some_iff.mp hstep
      exact ⟨hidle, hnext, ws, hws, rfl⟩
  | spurious =>
      rw [System.step, Option.ite_none_right_eq_some] at hstep
      obtain ⟨hidle, hstep⟩ := hstep
      obtain ⟨ws, hws, rfl⟩ := Option.map_eq_some_iff.mp hstep
      exact ⟨hidle, ws, hws, rfl⟩
  | spuriousSlave =>
      rw [System.step, Option.ite_none_right_eq_some] at hstep
      obtain ⟨⟨hidle, hfree⟩, hstep⟩ := hstep
      obtain ⟨ws, hws, rfl⟩ := Option.map_eq_some_iff.mp hstep
      exact ⟨hidle, hfree, ws, hws, rfl⟩
  | write =>
      rw [System.step] at hstep
      split at hstep
      · rename_i w ws hhandling
        exact ⟨w, ws, hhandling, (Option.some.inj hstep).symm⟩
      · cases hstep
  | finish =>
      rw [System.step] at hstep
      split at hstep
      · rename_i hhandling
        exact ⟨hhandling, (Option.some.inj hstep).symm⟩
      · cases hstep

/-- Where nothing is being handled, the controllers are settled. -/
theorem Inv.settled_of_idle
    (hs : Inv seven s) (hidle : s.handling = none) :
    Settled seven s.pics := by
  have hsettled := hs.settled
  rw [System.remaining, hidle] at hsettled
  exact hsettled

/-- A function that begins to run keeps the invariant. -/
theorem Inv.handle
    {p : Pics} {sent : List (BitVec 8)} {ws : List PortWrite} (hs : Configured s.pics)
    (hp : Configured p) (hsettled : Settled seven (p.outbs (endOfInterrupt irq)))
    (hws : vectorWrites sent (s.pics.vector irq) = some ws) :
    Inv seven ⟨p, some ws⟩ := by
  obtain ⟨bytes, hvector⟩ := vectorWrites_vector hs sent irq
  obtain rfl := Option.some.inj (hvector.symm.trans hws)
  refine ⟨hp, quiet_writes bytes irq, ?_⟩
  have hwrites : p.outbs (bytes.map (fun b => ⟨b, 0x60⟩) ++ endOfInterrupt irq) =
      p.outbs (endOfInterrupt irq) := by
    rw [outbs_append, outbs_sent]
  exact (congrArg (Settled seven) hwrites).mpr hsettled

theorem Inv.keep
    (ht : Inv seven t) (hserves : a.serves (.master 7) = false) :
    Inv (seven || a.serves (.master 7)) t ∧
      (a.serves (.master 7) = true → seven = false) := by
  rw [hserves, Bool.or_false]
  exact ⟨ht, fun h => by cases h⟩

/-- The step lemma. -/
theorem Inv.step
    (hs : Inv seven s) (hstep : s.step a = some t) :
    Inv (seven || a.serves (.master 7)) t ∧
      (a.serves (.master 7) = true → seven = false) := by
  have hcases := step_cases hstep
  cases a with
  | raise i =>
      obtain ⟨-, -, rfl⟩ := hcases
      refine Inv.keep ?_ rfl
      exact ⟨hs.configured.setRequest true i, hs.quiet,
        hs.settled.congr ((sameService_setRequest _ true i).outbs hs.quiet)⟩
  | withdraw i =>
      obtain ⟨-, -, rfl⟩ := hcases
      refine Inv.keep ?_ rfl
      exact ⟨hs.configured.setRequest false i, hs.quiet,
        hs.settled.congr ((sameService_setRequest _ false i).outbs hs.quiet)⟩
  | acknowledge i sent =>
      obtain ⟨hidle, hnext, ws, hws, rfl⟩ := hcases
      obtain ⟨hsettled, hseven⟩ := (hs.settled_of_idle hidle).acknowledged hnext
      exact ⟨Inv.handle hs.configured (hs.configured.take i) hsettled hws,
        fun h => hseven (of_decide_eq_true h)⟩
  | spurious =>
      obtain ⟨hidle, ws, hws, rfl⟩ := hcases
      refine Inv.keep ?_ rfl
      have hsettled : Settled seven (s.pics.outbs (endOfInterrupt (.master 7))) :=
        hs.settled_of_idle hidle
      exact Inv.handle hs.configured hs.configured hsettled hws
  | spuriousSlave =>
      obtain ⟨hidle, hfree, ws, hws, rfl⟩ := hcases
      refine Inv.keep ?_ rfl
      exact Inv.handle hs.configured (hs.configured.take (.master 2))
        ((hs.settled_of_idle hidle).spuriousSlave hfree) hws
  | write =>
      obtain ⟨w, ws, hhandling, rfl⟩ := hcases
      refine Inv.keep ?_ rfl
      have hremaining : s.remaining = w :: ws := by rw [System.remaining, hhandling]; rfl
      have hquiet := hs.quiet
      have hsettled := hs.settled
      rw [hremaining] at hquiet hsettled
      exact ⟨hs.configured.outb (hquiet w List.mem_cons_self),
        fun v hv => hquiet v (List.mem_cons_of_mem w hv), hsettled⟩
  | finish =>
      obtain ⟨hhandling, rfl⟩ := hcases
      refine Inv.keep ?_ rfl
      have hremaining : s.remaining = [] := by rw [System.remaining, hhandling]; rfl
      have hsettled := hs.settled
      rw [hremaining] at hsettled
      exact ⟨hs.configured, fun _ hw => absurd hw List.not_mem_nil, hsettled⟩

theorem inv_booted
    (firmware : Pics) :
    Inv false (booted firmware) := by
  have hinit : (booted firmware).pics = ⟨initialised 32 4, initialised 40 2⟩ :=
    outbs_initialisePIC 32 40 firmware
  refine ⟨?_, fun _ hw => absurd hw List.not_mem_nil, ?_⟩
  · rw [hinit]
    exact ⟨rfl, rfl, rfl, rfl⟩
  · rw [System.remaining, booted, Option.getD_none, outbs_nil, outbs_initialisePIC]
    exact ⟨by simp [initialised, quietLines], rfl⟩

/-- The run lemma, with IRQ 7 served once at most. -/
theorem Inv.run
    (hs : Inv seven s) (hrun : s.run actions = some t) :
    Inv (seven || actions.any (Action.serves (.master 7))) t ∧
      actions.countP (Action.serves (.master 7)) + seven.toNat ≤ 1 := by
  induction actions generalizing s seven with
  | nil =>
      obtain rfl := Option.some.inj hrun
      rw [List.any_nil, Bool.or_false, List.countP_nil, Nat.zero_add]
      exact ⟨hs, Bool.toNat_le seven⟩
  | cons a actions ih =>
      obtain ⟨u, hstep, hrun⟩ := Option.bind_eq_some_iff.mp hrun
      obtain ⟨hu, honce⟩ := hs.step hstep
      obtain ⟨ht, hcount⟩ := ih hu hrun
      rw [List.any_cons, ← Bool.or_assoc]
      refine ⟨ht, ?_⟩
      rw [List.countP_cons]
      cases hserves : a.serves (.master 7) with
      | false =>
          rw [hserves, Bool.or_false] at hcount
          simpa using hcount
      | true =>
          rw [hserves, Bool.or_true] at hcount
          simpa [honce hserves] using hcount

end Runs

section Accounting

variable {p : Pics} {s t : System} {a : Action} {actions : List Action} {seven : Bool}
variable {irq i : Irq}

theorem requests_setRequest
    (p : Pics) (b : Bool) (i irq : Irq) :
    (p.setRequest b i).requests irq = if i = irq then b else p.requests irq := by
  cases i with
  | master k =>
      cases irq with
      | master j => simp [Pics.setRequest, Pics.requests, Function.update_apply, eq_comm]
      | slave j => simp [Pics.setRequest, Pics.requests]
  | slave k =>
      cases irq with
      | master j => simp [Pics.setRequest, Pics.requests]
      | slave j => simp [Pics.setRequest, Pics.requests, Function.update_apply, eq_comm]

/-- Acknowledging takes the request back, and that of line 2 of the first controller. -/
theorem requests_take
    (hirq : irq ≠ .master 2) (p : Pics) (i : Irq) :
    (p.take i).requests irq = if i = irq then false else p.requests irq := by
  cases i with
  | master k =>
      cases irq with
      | master j => simp [Pics.take, Pics.takeMaster, Pics.requests, Function.update_apply, eq_comm]
      | slave j => simp [Pics.take, Pics.takeMaster, Pics.requests]
  | slave k =>
      cases irq with
      | master j =>
          have hj : j ≠ 2 := fun h => hirq (congrArg Irq.master h)
          simp [Pics.take, Pics.takeMaster, Pics.requests, hj]
      | slave j => simp [Pics.take, Pics.takeMaster, Pics.requests, Function.update_apply, eq_comm]

/-- What is acknowledged requests something. -/
theorem requests_of_next
    (hnext : p.next = some i) :
    i ≠ .master 2 ∧ p.requests i = true := by
  have hcases := next_eq_some hnext
  cases i with
  | master k =>
      obtain ⟨htwo, hpending⟩ := hcases
      have hrequests := (offers_iff.mp (pending_eq_some_iff.mp hpending).1).1
      rw [Pics.masterLines, PriorityLines.requests_setRequest,
        Function.update_of_ne htwo] at hrequests
      exact ⟨fun h => htwo (Irq.master.inj h), hrequests⟩
  | slave k =>
      refine ⟨fun h => ?_, (offers_iff.mp (pending_eq_some_iff.mp hcases.2).1).1⟩
      cases h

/-- An action accounts for the requests that it changes. -/
theorem requests_step
    (hs : Inv seven s) (hstep : s.step a = some t) (hirq : irq ≠ .master 2) :
    (s.pics.requests irq).toNat + (a.raises irq).toNat =
      (t.pics.requests irq).toNat + (a.serves irq).toNat + (a.withdraws irq).toNat := by
  have hcases := step_cases hstep
  cases a with
  | raise i =>
      obtain ⟨-, hrequests, rfl⟩ := hcases
      rw [requests_setRequest]
      by_cases hi : i = irq
      · subst hi
        simp [Action.raises, Action.serves, Action.withdraws, hrequests]
      · simp [Action.raises, Action.serves, Action.withdraws, hi]
  | withdraw i =>
      obtain ⟨-, hrequests, rfl⟩ := hcases
      rw [requests_setRequest]
      by_cases hi : i = irq
      · subst hi
        simp [Action.raises, Action.serves, Action.withdraws, hrequests]
      · simp [Action.raises, Action.serves, Action.withdraws, hi]
  | acknowledge i sent =>
      obtain ⟨-, hnext, ws, -, rfl⟩ := hcases
      rw [requests_take hirq]
      by_cases hi : i = irq
      · subst hi
        simp [Action.raises, Action.serves, Action.withdraws, (requests_of_next hnext).2]
      · simp [Action.raises, Action.serves, Action.withdraws, hi]
  | spurious =>
      obtain ⟨-, ws, -, rfl⟩ := hcases
      rfl
  | spuriousSlave =>
      obtain ⟨-, -, ws, -, rfl⟩ := hcases
      have htake := requests_take hirq s.pics (.master 2)
      rw [if_neg (Ne.symm hirq)] at htake
      exact congrArg (fun b : Bool => b.toNat + 0) htake.symm
  | write =>
      obtain ⟨w, ws, hhandling, rfl⟩ := hcases
      have hquiet : Quiet w := by
        refine hs.quiet w ?_
        rw [System.remaining, hhandling]
        exact List.mem_cons_self
      rw [requests_outb hquiet]
      rfl
  | finish =>
      obtain ⟨-, rfl⟩ := hcases
      rfl

/-- A run accounts for all requests. -/
theorem requests_run
    (hs : Inv seven s) (hrun : s.run actions = some t) (hirq : irq ≠ .master 2) :
    (s.pics.requests irq).toNat + actions.countP (Action.raises irq) =
      (t.pics.requests irq).toNat + actions.countP (Action.serves irq) +
        actions.countP (Action.withdraws irq) := by
  induction actions generalizing s seven with
  | nil =>
      obtain rfl := Option.some.inj hrun
      rfl
  | cons a actions ih =>
      obtain ⟨u, hstep, hrun⟩ := Option.bind_eq_some_iff.mp hrun
      have hfirst := requests_step hs hstep hirq
      have hrest := ih (hs.step hstep).1 hrun
      have hcount : ∀ f : Action → Bool, (a :: actions).countP f =
          actions.countP f + (f a).toNat := by
        intro f
        rw [List.countP_cons]
        cases f a <;> rfl
      rw [hcount, hcount, hcount]
      omega

/-- No request is lost and none is served twice, in every run: what devices requested has been
served, has been withdrawn or is still requested.  Between interrupts nothing is being served, so
that nothing is held back, but for IRQ 7: it is served once at most, because its function does
not end the interrupt. -/
theorem requests_accounted
    (firmware : Pics) (hrun : (booted firmware).run actions = some s) :
    (∀ irq, irq ≠ .master 2 →
        actions.countP (Action.raises irq) =
          actions.countP (Action.serves irq) + actions.countP (Action.withdraws irq) +
            (s.pics.requests irq).toNat) ∧
      (s.handling = none → Settled (actions.any (Action.serves (.master 7))) s.pics) ∧
      actions.countP (Action.serves (.master 7)) ≤ 1 := by
  have hbooted := inv_booted firmware
  obtain ⟨hs, hcount⟩ := hbooted.run hrun
  refine ⟨fun irq hirq => ?_, fun hidle => ?_, hcount⟩
  · have hrequests : (booted firmware).pics.requests irq = false := by
      rw [booted, outbs_initialisePIC]
      cases irq <;> rfl
    have haccount := requests_run hbooted hrun hirq
    rw [hrequests] at haccount
    simp only [Bool.toNat_false] at haccount
    omega
  · exact hs.settled_of_idle hidle

/-- The controllers as the firmware leaves them. -/
def firmwarePics : Pics :=
  ⟨initialised 0x08 4, initialised 0x70 2⟩

/-- A key and the clock. -/
def keyAndClock : List Action :=
  [.raise (.slave 0), .raise (.master 1), .acknowledge (.master 1) [0xED], .write, .write,
    .finish, .acknowledge (.slave 0) [], .write, .write, .finish]

theorem requests_accounted_keyAndClock :
    ∃ s, (booted firmwarePics).run keyAndClock = some s ∧
      s.pics.requests (.slave 0) = false ∧ Settled false s.pics := by
  obtain ⟨s, hrun, hidle⟩ :
      ∃ s, (booted firmwarePics).run keyAndClock = some s ∧ s.handling = none := ⟨_, rfl, rfl⟩
  obtain ⟨haccount, hsettled, -⟩ := requests_accounted firmwarePics hrun
  have hclock : 1 = 1 + 0 + (s.pics.requests (.slave 0)).toNat :=
    haccount (.slave 0) (by decide)
  refine ⟨s, hrun, ?_, hsettled hidle⟩
  cases hrequests : s.pics.requests (.slave 0) with
  | false => rfl
  | true => simp [hrequests] at hclock

end Accounting

section Progress

variable {p : Pics} {s t : System} {a : Action} {actions : List Action} {seven : Bool}
variable {irq i : Irq}

/-- The processor has nothing to do. -/
def System.Done (s : System) : Prop :=
  ∀ a : Action, a.ofProcessor = true → s.step a = none

theorem Settled.free_master
    (hp : Settled seven p) {k : Fin 8} (hk : k < 7) :
    p.master.lines.Free k := by
  intro j hj
  have hne : j ≠ 7 := (hj.trans_lt hk).ne
  rw [hp.master]
  simp [hne]

theorem Settled.offers_slave
    (hp : Configured p) (hsettled : Settled seven p) {k : Fin 8} :
    p.slave.lines.offers k = p.slave.lines.requests k := by
  have hfree : p.slave.lines.Free k := fun j _ => by rw [hsettled.slave]
  have hmask := congrFun hp.slaveMask k
  rw [Lines.offers, hmask, decide_eq_true hfree, Bool.not_false, Bool.and_true, Bool.and_true]

theorem Settled.offers_master
    (hp : Configured p) (hsettled : Settled seven p) {k : Fin 8} (hk : k < 7) :
    p.masterLines.offers k = p.masterLines.requests k := by
  have hfree : p.masterLines.Free k := hsettled.free_master hk
  have hmask : p.masterLines.mask k = false := congrFun hp.masterMask k
  rw [Lines.offers, hmask, decide_eq_true hfree, Bool.not_false, Bool.and_true, Bool.and_true]

theorem requests_masterLines
    {k : Fin 8} (hk : k ≠ 2) :
    p.masterLines.requests k = p.requests (.master k) := by
  rw [Pics.masterLines, PriorityLines.requests_setRequest, Function.update_of_ne hk, Pics.requests]

/-- The line at which a request reaches the first controller. -/
def Irq.line : Irq → Fin 8
  | .master k => k
  | .slave _ => 2

/-- Every request reaches the first controller. -/
theorem Settled.offers_line
    (hp : Configured p) (hsettled : Settled seven p) (htwo : irq ≠ .master 2)
    (hseven : irq ≠ .master 7) (hirq : p.requests irq = true) :
    p.masterLines.offers irq.line = true := by
  cases irq with
  | master k =>
      have hk : k ≠ 2 := fun h => htwo (congrArg Irq.master h)
      have hlt : k < 7 := by
        have hne : k ≠ 7 := fun h => hseven (congrArg Irq.master h)
        omega
      rw [Irq.line, hsettled.offers_master hp hlt, requests_masterLines hk, hirq]
  | slave k =>
      obtain ⟨j, -, hj⟩ := exists_pending (l := p.slave.lines)
        ((hsettled.offers_slave hp).trans hirq)
      rw [Irq.line, hsettled.offers_master hp (by decide), Pics.masterLines,
        PriorityLines.requests_setRequest, Function.update_self, hj, Option.isSome_some]

/-- While there are requests, one of them comes next. -/
theorem Settled.exists_next
    (hp : Configured p) (hsettled : Settled seven p) (htwo : irq ≠ .master 2)
    (hseven : irq ≠ .master 7) (hirq : p.requests irq = true) :
    ∃ i, p.next = some i := by
  obtain ⟨j, -, hj⟩ := exists_pending (hsettled.offers_line hp htwo hseven hirq)
  rw [Pics.next, hj, Option.bind_some]
  by_cases hjtwo : j = 2
  · have hrequests := (offers_iff.mp (pending_eq_some_iff.mp hj).1).1
    rw [hjtwo, Pics.masterLines, PriorityLines.requests_setRequest, Function.update_self,
      Option.isSome_iff_exists] at hrequests
    obtain ⟨k, hk⟩ := hrequests
    exact ⟨.slave k, by rw [if_pos hjtwo, hk, Option.map_some]⟩
  · exact ⟨.master j, if_neg hjtwo⟩

/-- What comes next has the highest priority of all requests. -/
theorem Settled.rank_next_le
    (hp : Configured p) (hsettled : Settled seven p) (hnext : p.next = some i)
    (htwo : irq ≠ .master 2) (hirq : p.requests irq = true) :
    i.rank ≤ irq.rank := by
  have hcases := next_eq_some hnext
  by_cases hseven : irq = .master 7
  · subst hseven
    cases i with
    | master k => simp only [Irq.rank]; omega
    | slave k => simp only [Irq.rank]; omega
  · have hoffers := hsettled.offers_line hp htwo hseven hirq
    have hfirst : ∀ k, p.masterLines.pending = some k → k ≤ irq.line := by
      intro k hk
      by_contra hlt
      have hnot := (pending_eq_some_iff.mp hk).2 _ (not_le.mp hlt)
      rw [hoffers] at hnot
      cases hnot
    cases i with
    | master k =>
        have hle := hfirst k hcases.2
        cases irq with
        | master j => simp only [Irq.rank, Irq.line] at hle ⊢; omega
        | slave j => simp only [Irq.rank, Irq.line] at hle ⊢; omega
    | slave k =>
        have hle := hfirst 2 hcases.1
        cases irq with
        | master j =>
            have hj : j ≠ 2 := fun h => htwo (congrArg Irq.master h)
            simp only [Irq.rank, Irq.line] at hle ⊢
            omega
        | slave j =>
            have hkj : k ≤ j := by
              by_contra hlt
              have hnot := (pending_eq_some_iff.mp hcases.2).2 j (not_le.mp hlt)
              rw [hsettled.offers_slave hp] at hnot
              exact absurd (hirq.symm.trans hnot) (by decide)
            simp only [Irq.rank]
            omega

/-- How many lines request something. -/
def Pics.numRequests (p : Pics) : Nat :=
  p.master.lines.requested.card + p.slave.lines.requested.card

theorem numRequests_outb
    {w : PortWrite} (hw : Quiet w) (p : Pics) :
    (p.outb w).numRequests = p.numRequests := by
  rcases outb_of_quiet hw p with h | h | h <;> rw [h]
  · simp [Pics.numRequests, Lines.requested]
  · simp [Pics.numRequests, Lines.requested]

/-- Acknowledging leaves fewer requests. -/
theorem numRequests_take_lt
    (hnext : p.next = some i) :
    (p.take i).numRequests < p.numRequests := by
  have hrequests := (requests_of_next hnext).2
  cases i with
  | master k =>
      have hlt := Finset.card_erase_lt_of_mem (mem_requested.mpr hrequests)
      simp only [Pics.numRequests, Pics.take, Pics.takeMaster, requested_take]
      omega
  | slave k =>
      have hlt := Finset.card_erase_lt_of_mem (mem_requested.mpr hrequests)
      have hle : (p.master.lines.requested.erase 2).card ≤ p.master.lines.requested.card :=
        Finset.card_erase_le
      simp only [Pics.numRequests, Pics.take, Pics.takeMaster, requested_take]
      omega

theorem run_append
    (actions more : List Action) (s : System) :
    s.run (actions ++ more) = (s.run actions).bind fun t => t.run more := by
  induction actions generalizing s with
  | nil => rfl
  | cons a actions ih =>
      rw [List.cons_append, System.run, System.run]
      cases s.step a with
      | none => rfl
      | some u => exact ih u

/-- The processor can finish the function that runs. -/
theorem Inv.exists_idle
    (hs : Inv seven s) :
    ∃ more t, (∀ a ∈ more, a.ofProcessor = true) ∧ s.run more = some t ∧ t.handling = none ∧
      t.pics.numRequests = s.pics.numRequests := by
  obtain ⟨p, handling⟩ := s
  cases handling with
  | none => exact ⟨[], _, fun _ ha => absurd ha List.not_mem_nil, rfl, rfl, rfl⟩
  | some ws =>
      induction ws generalizing p seven with
      | nil =>
          refine ⟨[.finish], ⟨p, none⟩, fun a ha => ?_, rfl, rfl, rfl⟩
          rw [List.mem_singleton.mp ha]
          rfl
      | cons w ws ih =>
          have hquiet : Quiet w := hs.quiet w List.mem_cons_self
          have hstep : System.step ⟨p, some (w :: ws)⟩ .write = some ⟨p.outb w, some ws⟩ := rfl
          obtain ⟨more, t, hmore, hrun, hidle, hcount⟩ := ih _ (hs.step hstep).1
          refine ⟨.write :: more, t, fun a ha => ?_, hrun, hidle, ?_⟩
          · rcases List.mem_cons.mp ha with rfl | ha
            · rfl
            · exact hmore a ha
          · exact hcount.trans (numRequests_outb hquiet p)

/-- What comes next can be acknowledged. -/
theorem exists_acknowledge
    (hs : Configured s.pics) (hidle : s.handling = none) (hnext : s.pics.next = some i) :
    ∃ ws, s.step (.acknowledge i []) = some ⟨s.pics.take i, some ws⟩ := by
  obtain ⟨bytes, hwrites⟩ := vectorWrites_vector hs [] i
  exact ⟨_, by rw [System.step, if_pos ⟨hidle, hnext⟩, hwrites, Option.map_some]⟩

/-- The processor can serve requests until it has nothing to do. -/
theorem Inv.exists_done
    (hs : Inv seven s) :
    ∃ more t, (∀ a ∈ more, a.ofProcessor = true) ∧ s.run more = some t ∧ t.Done := by
  generalize hn : s.pics.numRequests = n
  induction n using Nat.strong_induction_on generalizing s seven with
  | _ n ih =>
      obtain ⟨first, t, hfirst, hrun, hidle, hcount⟩ := hs.exists_idle
      have ht := (hs.run hrun).1
      cases hnext : t.pics.next with
      | none =>
          refine ⟨first, t, hfirst, hrun, fun a ha => ?_⟩
          cases a with
          | acknowledge i sent => simp [System.step, hnext]
          | write => rw [System.step, hidle]
          | finish => rw [System.step, hidle]
          | _ => cases ha
      | some i =>
          obtain ⟨ws, hstep⟩ := exists_acknowledge ht.configured hidle hnext
          have hlt : (t.pics.take i).numRequests < n := by
            rw [← hn, ← hcount]
            exact numRequests_take_lt hnext
          obtain ⟨more, u, hmore, hrest, hdone⟩ := ih _ hlt (ht.step hstep).1 rfl
          refine ⟨first ++ .acknowledge i [] :: more, u, fun a ha => ?_, ?_, hdone⟩
          · rcases List.mem_append.mp ha with ha | ha
            · exact hfirst a ha
            · rcases List.mem_cons.mp ha with rfl | ha
              · rfl
              · exact hmore a ha
          · rw [run_append, hrun, Option.bind_some, System.run, hstep, Option.bind_some, hrest]

theorem System.Done.idle
    (hs : s.Done) :
    s.handling = none := by
  obtain ⟨p, handling⟩ := s
  cases handling with
  | none => rfl
  | some ws =>
      cases ws with
      | nil => cases hs .finish rfl
      | cons w ws => cases hs .write rfl

/-- A processor that has nothing to do has served all requests. -/
theorem System.Done.requests
    (hs : s.Done) (hinv : Inv seven s) (htwo : irq ≠ .master 2) (hseven : irq ≠ .master 7) :
    s.pics.requests irq = false := by
  by_contra hirq
  obtain ⟨i, hnext⟩ := (hinv.settled_of_idle hs.idle).exists_next hinv.configured htwo hseven
    (Bool.eq_true_of_not_eq_false hirq)
  obtain ⟨ws, hstep⟩ := exists_acknowledge hinv.configured hs.idle hnext
  rw [hs (.acknowledge i []) rfl] at hstep
  cases hstep

/-- In every state that devices and processor reach, the processor serves what is requested by
priority, and it can go on until it has nothing to do; and whenever it gets there with the devices
quiet, it has served every line that had a request once, and no other one.  IRQ 7 is excepted,
because it holds itself back once it has been served. -/
theorem requests_served
    (firmware : Pics) (hrun : (booted firmware).run actions = some s) :
    (∀ i sent t, s.step (.acknowledge i sent) = some t →
        ∀ irq, irq ≠ .master 2 → s.pics.requests irq = true → i.rank ≤ irq.rank) ∧
      (∃ more t, (∀ a ∈ more, a.ofProcessor = true) ∧ s.run more = some t ∧ t.Done) ∧
      ∀ more t, (∀ a ∈ more, a.ofProcessor = true) → s.run more = some t → t.Done →
        t.handling = none ∧
          ∀ irq, irq ≠ .master 2 → irq ≠ .master 7 →
            more.countP (Action.serves irq) = (s.pics.requests irq).toNat := by
  have hs := ((inv_booted firmware).run hrun).1
  refine ⟨fun i sent t hstep irq htwo hirq => ?_, hs.exists_done,
    fun more t hmore hrest hdone => ⟨hdone.idle, fun irq htwo hseven => ?_⟩⟩
  · obtain ⟨hidle, hnext, -⟩ := step_cases hstep
    exact (hs.settled_of_idle hidle).rank_next_le hs.configured hnext htwo hirq
  · have haccount := requests_run hs hrest htwo
    have hquiet : ∀ f : Action → Bool, (∀ a, f a = true → a.ofProcessor = false) →
        more.countP f = 0 := by
      intro f hf
      refine List.countP_eq_zero.mpr fun a ha htrue => ?_
      have hnot := hf a htrue
      rw [hmore a ha] at hnot
      cases hnot
    rw [hdone.requests (hs.run hrest).1 htwo hseven, hquiet (Action.raises irq),
      hquiet (Action.withdraws irq)] at haccount
    · simpa using haccount.symm
    · intro a ha
      cases a <;> first | rfl | cases ha
    · intro a ha
      cases a <;> first | rfl | cases ha

/-- The clock and a key, and the key is served first. -/
theorem requests_served_keyAndClock :
    ∃ s, (booted firmwarePics).run [.raise (.slave 0), .raise (.master 1)] = some s ∧
      s.step (.acknowledge (.slave 0) []) = none ∧
      ∃ more t, s.run more = some t ∧ t.handling = none ∧
        more.countP (Action.serves (.slave 0)) = 1 ∧
        more.countP (Action.serves (.master 1)) = 1 := by
  obtain ⟨s, hrun, hclock, hkey⟩ :
      ∃ s, (booted firmwarePics).run [.raise (.slave 0), .raise (.master 1)] = some s ∧
        s.pics.requests (.slave 0) = true ∧ s.pics.requests (.master 1) = true :=
    ⟨_, rfl, rfl, rfl⟩
  obtain ⟨hrank, ⟨more, t, hmore, hrest, hdone⟩, hserved⟩ := requests_served firmwarePics hrun
  obtain ⟨hidle, hcount⟩ := hserved more t hmore hrest hdone
  refine ⟨s, hrun, ?_, more, t, hrest, hidle, ?_, ?_⟩
  · cases hstep : s.step (.acknowledge (.slave 0) []) with
    | none => rfl
    | some u =>
        have hle := hrank _ _ _ hstep (.master 1) (by decide) hkey
        exact absurd hle (by decide)
  · rw [hcount (.slave 0) (by decide) (by decide), hclock]
    rfl
  · rw [hcount (.master 1) (by decide) (by decide), hkey]
    rfl

end Progress

end Interrupts
end DexprOS
