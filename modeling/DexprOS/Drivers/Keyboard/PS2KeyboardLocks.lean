import DexprOS.Drivers.Keyboard.PS2KeyboardDecoding
import Mathlib.Algebra.Ring.Parity
import Mathlib.Data.List.Chain

/-!
# Lock keys

A lock key switches its lock on when it is pressed, and off when it is released the next
time.  The state of its key, the lock's flag and the flag that it was just switched on are
an automaton of their own that reads the actions of that key and nothing else.

Main facts:
* `lockState_applyKey`, `lockState_runKeys`: the three automata run side by side;
* `LockParity.run`: what the automaton has counted;
* `lockActive_parity`: a lock is on while its key is held and after an odd number of
  releases.
-/

namespace DexprOS
namespace Keyboard

open Kernel

section LockState

/-- A lock and its key. -/
structure LockState where
  keyState : KeyState
  active : Bool
  justActivated : Bool
deriving DecidableEq

def PS2KeyboardState.lockState (s : PS2KeyboardState) (l : PS2KLock) : LockState :=
  ⟨s.keyStates l.key, s.lockActive l, s.lockJustActivated l⟩

/-- What `SwitchPS2K*Lock` makes of the lock. -/
def LockState.switch (s : LockState) : LockState :=
  if s.active then
    if s.keyState = .released then
      if !s.justActivated then { s with active := false } else { s with justActivated := false }
    else s
  else if s.keyState = .pressed then { s with active := true, justActivated := true }
  else s

def LockState.step (s : LockState) (action : PS2KeyboardKeyAction) : LockState :=
  LockState.switch { s with keyState := keyStateAfter s.keyState action }

def LockState.initial : LockState :=
  ⟨.released, false, false⟩

/-- The actions of a lock's key. -/
def lockActions (l : PS2KLock) (keys : List PS2KeyboardMapKey) : List PS2KeyboardKeyAction :=
  (keys.filter fun key => key.keyID = l.key).map (·.keyAction)

/-- The machine after a sequence of decoded keys. -/
def runKeys (keys : List PS2KeyboardMapKey) (m : Machine) : Machine :=
  keys.foldl (fun m key => applyKey key m) m

end LockState

section Switch

theorem lockState_of_keyView
    {m m' : Machine} (h : m'.keyView = m.keyView) (l : PS2KLock) :
    m'.state.lockState l = m.state.lockState l := by
  cases l <;> exact (congrArg (fun m : Machine => m.state.lockState _) h :)

theorem lockState_setLockActive
    (b : Bool) (l l' : PS2KLock) (s : PS2KeyboardState) :
    (s.setLockActive b l).lockState l' =
      if l' = l then { s.lockState l with active := b } else s.lockState l' := by
  cases l <;> cases l' <;> rfl

theorem lockState_setLockJustActivated
    (b : Bool) (l l' : PS2KLock) (s : PS2KeyboardState) :
    (s.setLockJustActivated b l).lockState l' =
      if l' = l then { s.lockState l with justActivated := b } else s.lockState l' := by
  cases l <;> cases l' <;> rfl

theorem lockState_switchPS2KLock
    (l l' : PS2KLock) (m : Machine) :
    (switchPS2KLock l m).state.lockState l' =
      if l' = l then (m.state.lockState l).switch else m.state.lockState l' := by
  have hupdate (m : Machine) :
      (updatePS2KeyboardIndicatorLEDs m).state.lockState l' = m.state.lockState l' :=
    lockState_of_keyView (push_keyView _ _ m) l'
  have hlock : m.state.lockState l =
      ⟨m.state.keyStates l.key, m.state.lockActive l, m.state.lockJustActivated l⟩ := rfl
  unfold switchPS2KLock LockState.switch
  cases hactive : m.state.lockActive l with
  | true =>
      by_cases hreleased : m.state.keyStates l.key = .released
      · cases hjust : m.state.lockJustActivated l with
        | true =>
            simp [hlock, hreleased, hactive, hjust, lockState_setLockJustActivated]
        | false =>
            simp [hlock, hreleased, hactive, hjust, hupdate, lockState_setLockActive]
      · by_cases hl : l' = l
        · simp [hl, hlock, hreleased, hactive]
        · simp [hl, hreleased]
  | false =>
      by_cases hpressed : m.state.keyStates l.key = .pressed
      · rw [if_neg Bool.false_ne_true, if_pos hpressed, hupdate, lockState_setLockJustActivated]
        rcases eq_or_ne l' l with rfl | hl
        · simp [hlock, hpressed, hactive, lockState_setLockActive]
        · simp [hl, lockState_setLockActive]
      · by_cases hl : l' = l
        · simp [hl, hlock, hpressed, hactive]
        · simp [hl, hpressed]

/-- Different locks have different keys. -/
theorem lockKey_injective
    {l l' : PS2KLock} (hkey : l.key = l'.key) :
    l = l' := by
  revert hkey
  cases l <;> cases l' <;> decide

theorem lockState_modifierState
    (keyID : KeyID) (m : Machine) (l : PS2KLock) :
    (updatePS2KeyboardModifierState keyID m).state.lockState l =
      if keyID = l.key then (m.state.lockState l).switch else m.state.lockState l := by
  have hswitch (l' : PS2KLock) (hkey : keyID = l'.key) :
      (switchPS2KLock l' m).state.lockState l =
        if keyID = l.key then (m.state.lockState l).switch else m.state.lockState l := by
    rw [lockState_switchPS2KLock, hkey]
    by_cases hl : l = l'
    · rw [if_pos hl, if_pos (by rw [hl]), hl]
    · rw [if_neg hl, if_neg fun heq => hl (lockKey_injective heq.symm)]
  unfold updatePS2KeyboardModifierState
  split
  · rename_i hcaps
    exact hswitch .caps hcaps
  split
  · rename_i hnum
    exact hswitch .num hnum
  split
  · rename_i hscroll
    exact hswitch .scroll hscroll
  · rename_i hcaps hnum hscroll
    have hother : keyID ≠ l.key := by
      cases l
      · exact hcaps
      · exact hnum
      · exact hscroll
    rw [if_neg hother]
    repeat' split
    all_goals cases l <;> rfl

/-- A key moves the automaton of its own lock and no other one. -/
theorem lockState_applyKey
    (key : PS2KeyboardMapKey) (m : Machine) (l : PS2KLock) :
    (applyKey key m).state.lockState l =
      if key.keyID = l.key then (m.state.lockState l).step key.keyAction
      else m.state.lockState l := by
  rcases applyKey_eq key m with ⟨shell, hshell⟩
  rw [hshell, lockState_modifierState]
  unfold updatePS2KeyboardKeyState PS2KeyboardState.lockState
  by_cases hkey : key.keyID = l.key
  · rw [if_pos hkey, if_pos hkey]
    dsimp only
    rw [hkey, Function.update_self]
    cases l <;> rfl
  · rw [if_neg hkey, if_neg hkey]
    dsimp only
    rw [Function.update_of_ne (Ne.symm hkey)]
    cases l <;> rfl

/-- The three automata run side by side. -/
theorem lockState_runKeys
    (keys : List PS2KeyboardMapKey) (m : Machine) (l : PS2KLock) :
    (runKeys keys m).state.lockState l =
      (lockActions l keys).foldl LockState.step (m.state.lockState l) := by
  induction keys generalizing m with
  | nil =>
      rfl
  | cons key keys ih =>
      unfold runKeys lockActions at ih ⊢
      rw [List.foldl_cons, ih, lockState_applyKey]
      by_cases hkey : key.keyID = l.key
      · rw [if_pos hkey, List.filter_cons_of_pos (by simpa using hkey), List.map_cons,
          List.foldl_cons]
      · rw [if_neg hkey, List.filter_cons_of_neg (by simpa using hkey)]

theorem lockState_initialMachine
    (pLayoutTable : Option KeyToUnicodeTable) (l : PS2KLock) :
    (initialMachine pLayoutTable).state.lockState l = LockState.initial := by
  unfold initialMachine initialisePS2KeyboardDriver
  rw [lockState_of_keyView (push_keyView _ _ _)]
  cases l <;> rfl

/-- The locks are what the keys that were applied make of them. -/
def LocksApplied (m : Machine) : Prop :=
  ∀ l, m.state.lockState l = (lockActions l m.applied).foldl LockState.step LockState.initial

theorem LocksApplied.applyKey
    {m : Machine} (h : LocksApplied m) (key : PS2KeyboardMapKey) :
    LocksApplied (applyKey key m) := by
  intro l
  have happlied : (Keyboard.applyKey key m).applied = m.applied ++ [key] :=
    (applyKey_sameDecoder key m).2
  rw [lockState_applyKey, happlied, h l]
  unfold lockActions
  rw [List.filter_append, List.map_append, List.foldl_append]
  by_cases hkey : key.keyID = l.key
  · rw [if_pos hkey, List.filter_cons_of_pos (by simpa using hkey)]
    rfl
  · rw [if_neg hkey, List.filter_cons_of_neg (by simpa using hkey)]
    rfl

theorem LocksApplied.interrupt
    {m : Machine} (h : LocksApplied m) (code : UInt8) :
    LocksApplied (processPS2KeyboardInterrupt code m) := by
  cases hcode : isResponse code with
  | true =>
      have hview := interrupt_response hcode m
      have happlied : (processPS2KeyboardInterrupt code m).applied = m.applied :=
        (SameDecoder.of_keyView hview).2
      intro l
      rw [lockState_of_keyView hview, happlied]
      exact h l
  | false =>
      have hdecoded : LocksApplied { m with state := (decodeCode code m.state).1 } := by
        rcases decodeCode_frame code m.state with ⟨mode, table, sequence, index, hs⟩
        rw [hs]
        intro l
        refine Eq.trans ?_ (h l)
        cases l <;> rfl
      rw [interrupt_code hcode]
      cases (decodeCode code m.state).2 with
      | none =>
          exact hdecoded
      | some key =>
          exact hdecoded.applyKey key

theorem locksApplied_run
    (pLayoutTable : Option KeyToUnicodeTable) (bytes : List UInt8) :
    LocksApplied (runInterrupts bytes (initialMachine pLayoutTable)) := by
  unfold runInterrupts
  refine List.foldlRecOn bytes _ ?_ fun m hm code _ => hm.interrupt code
  intro l
  rw [lockState_initialMachine]
  rfl

end Switch

section Parity

/-- A key is pressed any number of times before it is released. -/
def MayFollow (last action : PS2KeyboardKeyAction) : Prop :=
  action = .pressed ∨ last = .pressed ∧ action = .released

/-- One or more presses and one release take turns; the key is released at first. -/
def Alternates (actions : List PS2KeyboardKeyAction) : Prop :=
  List.IsChain MayFollow (.released :: actions)

/-- A lock behind the action `last` of its key and so many releases. -/
structure LockParity (last : PS2KeyboardKeyAction) (releases : Nat) (s : LockState) : Prop where
  held_iff : s.keyState ≠ .released ↔ last = .pressed
  active_iff : s.active = true ↔ last = .pressed ∨ Odd releases
  justActivated_iff : s.justActivated = true ↔ last = .pressed ∧ Even releases

theorem lockParity_initial :
    LockParity .released 0 LockState.initial := by
  refine ⟨?_, ?_, ?_⟩ <;> simp [LockState.initial]

/-- The first press of a lock that is off switches it on; typematic repeats and presses of a
lock that is on leave it alone. -/
theorem LockParity.press
    {last : PS2KeyboardKeyAction} {releases : Nat} {s : LockState}
    (h : LockParity last releases s) :
    LockParity .pressed releases (s.step .pressed) := by
  rcases s with ⟨keyState, active, justActivated⟩
  rcases h with ⟨hheld, hactive, hjust⟩
  by_cases hlast : last = .pressed
  · cases keyState with
    | released =>
        simp [hlast] at hheld
    | pressed =>
        refine ⟨?_, ?_, ?_⟩ <;> simp_all [LockState.step, LockState.switch, keyStateAfter]
    | repeated =>
        refine ⟨?_, ?_, ?_⟩ <;> simp_all [LockState.step, LockState.switch, keyStateAfter]
  · obtain rfl : keyState = .released := by
      simpa [hlast] using hheld
    cases active with
    | true =>
        refine ⟨?_, ?_, ?_⟩ <;> simp_all [LockState.step, LockState.switch, keyStateAfter]
    | false =>
        refine ⟨?_, ?_, ?_⟩ <;> simp_all [LockState.step, LockState.switch, keyStateAfter]

/-- The release behind the press that switched the lock on keeps it on; the next one switches
it off. -/
theorem LockParity.release
    {releases : Nat} {s : LockState}
    (h : LockParity .pressed releases s) :
    LockParity .released (releases + 1) (s.step .released) := by
  rcases s with ⟨keyState, active, justActivated⟩
  rcases h with ⟨hheld, hactive, hjust⟩
  obtain rfl : active = true := by
    simpa using hactive
  cases justActivated with
  | true =>
      refine ⟨?_, ?_, ?_⟩ <;> simp_all [LockState.step, LockState.switch, keyStateAfter]
  | false =>
      refine ⟨?_, ?_, ?_⟩ <;> simp_all [LockState.step, LockState.switch, keyStateAfter]

/-- The step lemma. -/
theorem LockParity.step
    {last action : PS2KeyboardKeyAction} {releases : Nat} {s : LockState}
    (h : LockParity last releases s) (hfollows : MayFollow last action) :
    LockParity action (releases + [action].count .released) (s.step action) := by
  rcases hfollows with rfl | ⟨rfl, rfl⟩
  · exact h.press
  · exact h.release

/-- The run lemma. -/
theorem LockParity.run
    (actions : List PS2KeyboardKeyAction) {last : PS2KeyboardKeyAction} {releases : Nat}
    {s : LockState} (h : LockParity last releases s)
    (halternates : List.IsChain MayFollow (last :: actions)) :
    LockParity (actions.getLast?.getD last) (releases + actions.count .released)
      (actions.foldl LockState.step s) := by
  induction actions generalizing last releases s with
  | nil =>
      exact h
  | cons action actions ih =>
      rw [List.isChain_cons_cons] at halternates
      have hrest := ih (h.step halternates.1) halternates.2
      rw [List.getLast?_cons, List.foldl_cons, ← List.singleton_append, List.count_append,
        ← Nat.add_assoc]
      exact hrest

theorem lockActive_of_alternates
    {actions : List PS2KeyboardKeyAction} (halternates : Alternates actions) :
    (actions.foldl LockState.step LockState.initial).active = true ↔
      actions.getLast? = some .pressed ∨ Odd (actions.count .released) := by
  have hrun := (lockParity_initial.run actions halternates).active_iff
  rw [Nat.zero_add] at hrun
  rw [hrun]
  cases actions.getLast? with
  | none =>
      simp
  | some action =>
      simp

/-- A lock is on while its key is held and after an odd number of releases, at every point of
a sequence of keys in which the presses and releases of its own key take turns, and in every
run of interrupts that applies such a sequence.  Whatever the other keys do, the same actions
of its key leave the same lock. -/
theorem lockActive_parity
    (pLayoutTable : Option KeyToUnicodeTable) (l : PS2KLock) :
    (∀ keys, Alternates (lockActions l keys) → ∀ front, front <+: keys →
      ((runKeys front (initialMachine pLayoutTable)).state.lockActive l = true ↔
        (lockActions l front).getLast? = some .pressed ∨
          Odd ((lockActions l front).count .released))) ∧
      (∀ bytes, let m := runInterrupts bytes (initialMachine pLayoutTable)
        Alternates (lockActions l m.applied) →
          (m.state.lockActive l = true ↔
            (lockActions l m.applied).getLast? = some .pressed ∨
              Odd ((lockActions l m.applied).count .released))) ∧
      ∀ keys keys', lockActions l keys' = lockActions l keys →
        (runKeys keys' (initialMachine pLayoutTable)).state.lockActive l =
          (runKeys keys (initialMachine pLayoutTable)).state.lockActive l := by
  refine ⟨fun keys halternates front hfront => ?_, fun bytes halternates => ?_,
    fun keys keys' hactions => ?_⟩
  · rcases hfront with ⟨rest, rfl⟩
    have hsplit : lockActions l (front ++ rest) = lockActions l front ++ lockActions l rest := by
      rw [lockActions, List.filter_append, List.map_append, ← lockActions, ← lockActions]
    rw [hsplit, Alternates, ← List.cons_append] at halternates
    have hlock := lockState_runKeys front (initialMachine pLayoutTable) l
    rw [lockState_initialMachine] at hlock
    have hactive := lockActive_of_alternates halternates.left_of_append
    rw [← hlock] at hactive
    exact hactive
  · have hlock := locksApplied_run pLayoutTable bytes l
    have hactive := lockActive_of_alternates halternates
    rw [← hlock] at hactive
    exact hactive
  · have hlock := lockState_runKeys keys (initialMachine pLayoutTable) l
    have hlock' := lockState_runKeys keys' (initialMachine pLayoutTable) l
    rw [hactions, ← hlock] at hlock'
    exact congrArg LockState.active hlock'

/-- Caps Lock repeats and is released, with Num Lock pressed in between. -/
theorem lockActive_parity_caps_lock :
    (runKeys
      [⟨keyCapsLock, .pressed⟩, ⟨keyCapsLock, .pressed⟩, ⟨keyNumLock, .pressed⟩,
        ⟨keyCapsLock, .released⟩] (initialMachine none)).state.lockActive .caps = true := by
  have hactions : lockActions .caps
      [⟨keyCapsLock, .pressed⟩, ⟨keyCapsLock, .pressed⟩, ⟨keyNumLock, .pressed⟩,
        ⟨keyCapsLock, .released⟩] = [.pressed, .pressed, .released] := by
    decide
  have halternates : Alternates [.pressed, .pressed, .released] := by
    simp [Alternates, MayFollow]
  refine ((lockActive_parity none .caps).1 _ ?_ _ List.prefix_rfl).mpr (Or.inr ?_)
  · rw [hactions]
    exact halternates
  · rw [hactions]
    decide

end Parity

end Keyboard
end DexprOS
