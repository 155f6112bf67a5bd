import DexprOS.Drivers.Keyboard.PS2KeyboardRobustness

/-!
# What the driver reports to the shell

The driver keeps the modifiers in flags that it sets when their keys change.  What it
reports is nevertheless a function of the keys that were applied: each of them is one
event with its new state, and gives a character while it is held down, by the modifiers
that are held down and locked at that moment.

Main facts:
* `keyCodepoint_eq`: a codepoint depends on the modifiers alone;
* `CallsInvariant.interrupt`: the step lemma;
* `shellCalls_run`: the calls into the shell, in every run.
-/

namespace DexprOS
namespace Keyboard

open Kernel

section Modifiers

/-- The keys that change what another key gives. -/
structure Modifiers where
  shift : Bool
  control : Bool
  leftAlt : Bool
  rightAlt : Bool
  capsLock : Bool
  numLock : Bool
deriving DecidableEq

/-- Code of an entry for an upper- or a lower-case character, with AltGr or without. -/
def KeyToUnicodeEntry.code (e : KeyToUnicodeEntry) (upper altGr : Bool) : UInt32 :=
  match upper, altGr with
  | false, false => e.standardCode
  | true, false => e.upperCaseCode
  | false, true => e.altGrCode
  | true, true => e.altGrUpperCaseCode

/-- The character of a key that is held down together with the modifiers; 0 is none.  Caps
Lock turns the shift keys around for letters.  Control and the left Alt key make a shortcut
of everything but Enter. -/
def Modifiers.codepoint (mods : Modifiers) (e : KeyToUnicodeEntry) : UInt32 :=
  match e.conversionType with
  | .invalid => 0
  | .enter => e.standardCode
  | .capsLockAffected =>
      if mods.control || mods.leftAlt then 0
      else e.code (mods.shift != mods.capsLock) mods.rightAlt
  | .capsLockUnaffected =>
      if mods.control || mods.leftAlt then 0 else e.code mods.shift mods.rightAlt
  | .numberpad =>
      if mods.control || mods.leftAlt then 0
      else if mods.numLock then e.standardCode
      else 0

/-- The flags of the driver. -/
def PS2KeyboardState.modifiers (s : PS2KeyboardState) : Modifiers where
  shift := s.anyShiftActive
  control := s.anyControlActive
  leftAlt := s.leftAltActive
  rightAlt := s.rightAltActive
  capsLock := s.capsLockActive
  numLock := s.numLockActive

theorem keyCodepoint_eq
    (s : PS2KeyboardState) (e : KeyToUnicodeEntry) :
    keyCodepoint s e = s.modifiers.codepoint e := by
  rcases e with ⟨conversionType, standardCode, upperCaseCode, altGrCode, altGrUpperCaseCode⟩
  unfold keyCodepoint altGrCodepoint Modifiers.codepoint PS2KeyboardState.modifiers
  cases conversionType with
  | invalid => rfl
  | enter => rfl
  | numberpad => rfl
  | capsLockAffected =>
      cases s.rightAltActive <;> cases s.anyShiftActive <;> cases s.capsLockActive <;> rfl
  | capsLockUnaffected =>
      cases s.rightAltActive <;> cases s.anyShiftActive <;> rfl

/-- The key is held down behind the keys. -/
def heldAfter (keys : List PS2KeyboardMapKey) (keyID : KeyID) : Bool :=
  keyStatesAfter keys keyID != .released

/-- The lock is on behind the keys. -/
def lockedAfter (keys : List PS2KeyboardMapKey) (l : PS2KLock) : Bool :=
  ((lockActions l keys).foldl LockState.step LockState.initial).active

def modifiersAfter (keys : List PS2KeyboardMapKey) : Modifiers where
  shift := heldAfter keys keyLeftShift || heldAfter keys keyRightShift
  control := heldAfter keys keyLeftControl || heldAfter keys keyRightControl
  leftAlt := heldAfter keys keyLeftAlt
  rightAlt := heldAfter keys keyRightAlt
  capsLock := lockedAfter keys .caps
  numLock := lockedAfter keys .num

end Modifiers

section Calls

variable (table : Option KeyToUnicodeTable)

/-- The character event of a key that is held down with the modifiers, if there is one. -/
def characterCalls (mods : Modifiers) (keyID : KeyID) (state : KeyState) : List ShellCall :=
  match table with
  | none => []
  | some table =>
      if state = .released ∨ mods.codepoint (table keyID) = 0 then []
      else [.characterEvent (mods.codepoint (table keyID))]

/-- What the key reports when the keys before it have been applied. -/
def callsOf (before : List PS2KeyboardMapKey) (key : PS2KeyboardMapKey) : List ShellCall :=
  let keys := before ++ [key]
  let state := keyStatesAfter keys key.keyID
  .keyEvent key.keyID state :: characterCalls table (modifiersAfter keys) key.keyID state

/-- What a sequence of keys reports. -/
def callsFrom (before : List PS2KeyboardMapKey) : List PS2KeyboardMapKey → List ShellCall
  | [] => []
  | key :: keys => callsOf table before key ++ callsFrom (before ++ [key]) keys

theorem callsFrom_append
    (before keys keys' : List PS2KeyboardMapKey) :
    callsFrom table before (keys ++ keys') =
      callsFrom table before keys ++ callsFrom table (before ++ keys) keys' := by
  induction keys generalizing before with
  | nil =>
      simp [callsFrom]
  | cons key keys ih =>
      simp only [List.cons_append, callsFrom, ih, List.append_assoc, List.nil_append]

@[simp] theorem callsFrom_singleton
    (before : List PS2KeyboardMapKey) (key : PS2KeyboardMapKey) :
    callsFrom table before [key] = callsOf table before key := by
  simp [callsFrom]

/-- The call is not the event of key 0 that an unfinished code gives. -/
def ShellCall.isReal : ShellCall → Bool
  | keyEvent keyID _ => keyID != 0
  | characterEvent _ => true

theorem filter_callsOf
    (before : List PS2KeyboardMapKey) {key : PS2KeyboardMapKey} (hkey : key.keyID ≠ 0) :
    (callsOf table before key).filter ShellCall.isReal = callsOf table before key := by
  unfold callsOf characterCalls
  cases table with
  | none =>
      simp [ShellCall.isReal, hkey]
  | some table =>
      dsimp only
      split
      all_goals simp [ShellCall.isReal, hkey]

end Calls

section Apply

/-- What the driver reports of a key of its own state. -/
def PS2KeyboardState.characterCalls (s : PS2KeyboardState) (keyID : KeyID) : List ShellCall :=
  if keyID = 0 ∨ keyID > keyMax then []
  else Keyboard.characterCalls s.pUnicodeTable s.modifiers keyID (s.keyStates keyID)

theorem processKeyToUnicodeCharacter_eq
    (keyID : KeyID) (m : Machine) :
    processKeyToUnicodeCharacter keyID m =
      { m with shell := m.shell ++ m.state.characterCalls keyID } := by
  unfold processKeyToUnicodeCharacter PS2KeyboardState.characterCalls characterCalls
  cases m.state.pUnicodeTable with
  | none => simp
  | some table =>
      dsimp only
      rw [keyCodepoint_eq]
      by_cases hrange : keyID = 0 ∨ keyID > keyMax
      · simp [hrange]
      · rw [if_neg hrange, if_neg hrange]
        cases m.state.keyStates keyID with
        | released => simp
        | pressed =>
            by_cases hcodepoint : m.state.modifiers.codepoint (table keyID) = 0 <;>
              simp [hcodepoint]
        | repeated =>
            by_cases hcodepoint : m.state.modifiers.codepoint (table keyID) = 0 <;>
              simp [hcodepoint]

/-- Switching a modifier reports nothing. -/
theorem modifierState_shell
    (keyID : KeyID) (m : Machine) :
    (updatePS2KeyboardModifierState keyID m).shell = m.shell ∧
      (updatePS2KeyboardModifierState keyID m).state.pUnicodeTable = m.state.pUnicodeTable := by
  have hupdate (m : Machine) :
      (updatePS2KeyboardIndicatorLEDs m).shell = m.shell ∧
        (updatePS2KeyboardIndicatorLEDs m).state.pUnicodeTable = m.state.pUnicodeTable := by
    have hview := push_keyView setLedStatesCommand (indicatorLEDs m.state) m
    exact ⟨(congrArg Machine.shell hview :),
      (congrArg (fun m : Machine => m.state.pUnicodeTable) hview :)⟩
  have hswitch (l : PS2KLock) :
      (switchPS2KLock l m).shell = m.shell ∧
        (switchPS2KLock l m).state.pUnicodeTable = m.state.pUnicodeTable := by
    unfold switchPS2KLock
    repeat' split
    · exact (hupdate _).imp id fun htable => htable.trans (by cases l <;> rfl)
    · exact ⟨rfl, by cases l <;> rfl⟩
    · exact ⟨rfl, rfl⟩
    · exact (hupdate _).imp id fun htable => htable.trans (by cases l <;> rfl)
    · exact ⟨rfl, rfl⟩
  unfold updatePS2KeyboardModifierState
  repeat' split
  · exact hswitch .caps
  · exact hswitch .num
  · exact hswitch .scroll
  all_goals exact ⟨rfl, rfl⟩

/-- Applying a key reports its event, and then the character that the state behind it
gives. -/
theorem applyKey_shell
    (key : PS2KeyboardMapKey) (m : Machine) :
    (applyKey key m).shell =
        m.shell ++ .keyEvent key.keyID ((applyKey key m).state.keyStates key.keyID) ::
          (applyKey key m).state.characterCalls key.keyID ∧
      (applyKey key m).state.pUnicodeTable = m.state.pUnicodeTable := by
  unfold applyKey
  dsimp only
  rw [processKeyToUnicodeCharacter_eq]
  dsimp only
  have hshell := modifierState_shell key.keyID
    { m with
      state := updatePS2KeyboardKeyState key m.state
      applied := m.applied ++ [key] }
  rw [hshell.1, hshell.2]
  exact ⟨by simp, rfl⟩

end Apply

section Run

variable {table : Option KeyToUnicodeTable} {m : Machine}

/-- The flags and the locks are what the keys that were applied make of them. -/
structure ReportsInvariant (m : Machine) : Prop where
  keyStates : KeyStatesInvariant m
  modifiers : ModifiersCurrent m.state
  locks : LocksApplied m

theorem lockActions_appliedKeys
    (l : PS2KLock) (m : Machine) :
    lockActions l m.appliedKeys = lockActions l m.applied := by
  unfold lockActions Machine.appliedKeys
  rw [List.filter_filter]
  congr 1
  refine List.filter_congr fun key _ => ?_
  by_cases hkey : key.keyID = l.key
  · have hne : l.key ≠ 0 := by
      cases l <;> decide
    simp [hkey, hne]
  · simp [hkey]

/-- The flag of a lock is what the applied keys make of it. -/
theorem ReportsInvariant.lockActive_eq
    (hm : ReportsInvariant m) (l : PS2KLock) :
    m.state.lockActive l = lockedAfter m.appliedKeys l := by
  rw [lockedAfter, lockActions_appliedKeys, ← hm.locks l]
  rfl

theorem ReportsInvariant.modifiers_eq
    (hm : ReportsInvariant m) :
    m.state.modifiers = modifiersAfter m.appliedKeys := by
  have hheld (keyID : KeyID) :
      heldAfter m.appliedKeys keyID = (m.state.keyStates keyID != .released) := by
    rw [heldAfter, ← hm.keyStates]
  unfold modifiersAfter PS2KeyboardState.modifiers
  simp only [hheld, ← hm.lockActive_eq, Modifiers.mk.injEq]
  refine ⟨?_, ?_, ?_, ?_, rfl, rfl⟩
  · rw [Bool.eq_iff_iff, hm.modifiers.anyShiftActive_iff]
    simp
  · rw [Bool.eq_iff_iff, hm.modifiers.anyControlActive_iff]
    simp
  · rw [Bool.eq_iff_iff, hm.modifiers.leftAltActive_iff]
    simp
  · rw [Bool.eq_iff_iff, hm.modifiers.rightAltActive_iff]
    simp

/-- The calls into the shell are those of the keys that were applied. -/
structure CallsInvariant (table : Option KeyToUnicodeTable) (m : Machine) : Prop
    extends ReportsInvariant m where
  layout : m.state.pUnicodeTable = table
  calls : m.shell.filter ShellCall.isReal = callsFrom table [] m.appliedKeys

/-- A real key adds its calls, and the key 0 of an unfinished code adds none that counts. -/
theorem CallsInvariant.applyKey
    {key : PS2KeyboardMapKey}
    (hm : CallsInvariant table m) (hkey : isKey key.keyID = true ∨ key = ⟨0, .none⟩) :
    CallsInvariant table (applyKey key m) := by
  have hreports : ReportsInvariant (Keyboard.applyKey key m) :=
    ⟨hm.keyStates.applyKey hkey, hm.modifiers.applyKey key, hm.locks.applyKey key⟩
  obtain ⟨hshell, htable⟩ := applyKey_shell key m
  have htable' := htable.trans hm.layout
  refine ⟨hreports, htable', ?_⟩
  rw [hshell, List.filter_append, hm.calls]
  rcases hkey with hreal | rfl
  · have hne := isKey_ne_zero hreal
    have happlied : (Keyboard.applyKey key m).appliedKeys = m.appliedKeys ++ [key] := by
      rw [applyKey_appliedKeys, if_pos hne]
    have hmax : ¬ (key.keyID = 0 ∨ key.keyID > keyMax) := by
      have hlt : key.keyID < keyMax := by
        simpa [hne] using (by simpa [isKey] using hreal : 0 < key.keyID ∧ key.keyID < keyMax).2
      rw [not_or]
      exact ⟨hne, UInt16.not_lt.mpr (UInt16.le_of_lt hlt)⟩
    have hcalls : ShellCall.keyEvent key.keyID
          ((Keyboard.applyKey key m).state.keyStates key.keyID) ::
          (Keyboard.applyKey key m).state.characterCalls key.keyID =
        callsOf table m.appliedKeys key := by
      rw [PS2KeyboardState.characterCalls, if_neg hmax, hreports.modifiers_eq,
        hreports.keyStates, htable', happlied]
      rfl
    rw [hcalls, filter_callsOf table _ hne, happlied, callsFrom_append, callsFrom_singleton,
      List.nil_append]
  · rw [applyKey_appliedKeys]
    simp [ShellCall.isReal, PS2KeyboardState.characterCalls]

theorem CallsInvariant.of_keyView
    {m' : Machine} (hm : CallsInvariant table m) (hview : m'.keyView = m.keyView) :
    CallsInvariant table m' := by
  have hsame := SameDecoder.of_keyView hview
  have hshell : m'.shell = m.shell := (congrArg Machine.shell hview :)
  have htable : m'.state.pUnicodeTable = m.state.pUnicodeTable :=
    (congrArg (fun m : Machine => m.state.pUnicodeTable) hview :)
  refine ⟨⟨hm.keyStates.of_sameDecoder hsame,
    hm.modifiers.congr (modifierView_of_keyView hview), fun l => ?_⟩, htable.trans hm.layout, ?_⟩
  · rw [lockState_of_keyView hview, hsame.2]
    exact hm.locks l
  · rw [hshell, hsame.appliedKeys]
    exact hm.calls

theorem CallsInvariant.decode
    (hm : CallsInvariant table m) (code : UInt8) :
    CallsInvariant table { m with state := (decodeCode code m.state).1 } := by
  rcases decodeCode_frame code m.state with ⟨mode, sub, sequence, index, hs⟩
  rw [hs]
  refine ⟨⟨hm.keyStates, hm.modifiers.congr rfl, fun l => ?_⟩, hm.layout, hm.calls⟩
  refine Eq.trans ?_ (hm.locks l)
  cases l <;> rfl

/-- The step lemma. -/
theorem CallsInvariant.interrupt
    (hm : CallsInvariant table m) (code : UInt8) :
    CallsInvariant table (processPS2KeyboardInterrupt code m) := by
  cases hcode : isResponse code with
  | true =>
      exact hm.of_keyView (interrupt_response hcode m)
  | false =>
      rw [interrupt_code hcode]
      cases hkey : (decodeCode code m.state).2 with
      | none => exact hm.decode code
      | some key => exact (hm.decode code).applyKey (decodeCode_key hkey)

theorem callsInvariant_initialMachine
    (table : Option KeyToUnicodeTable) :
    CallsInvariant table (initialMachine table) := by
  exact ⟨⟨keyStates_run table [], (keysInvariant_initialMachine table).modifiers,
    locksApplied_run table []⟩, rfl, rfl⟩

/-- The run lemma. -/
theorem callsInvariant_run
    (table : Option KeyToUnicodeTable) (bytes : List UInt8) :
    CallsInvariant table (runInterrupts bytes (initialMachine table)) :=
  List.foldlRecOn bytes _ (callsInvariant_initialMachine table)
    fun _ hm code _ => hm.interrupt code

/-- What the driver reports to the shell, whatever bytes the keyboard delivers.  Apart from the
events of key 0, the calls are those of the keys that were applied, in order: the event of
each key with its new state, and behind it, if the key is held down, the character that the
layout gives for the shift, Control and Alt keys that are held down and the locks that are
on at that moment, whenever these were pressed and switched. -/
theorem shellCalls_run
    (table : Option KeyToUnicodeTable) (bytes : List UInt8) :
    let m := runInterrupts bytes (initialMachine table)
    m.shell.filter ShellCall.isReal = callsFrom table [] m.appliedKeys :=
  (callsInvariant_run table bytes).calls

end Run

end Keyboard
end DexprOS
