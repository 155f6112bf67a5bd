import DexprOS.Drivers.Keyboard.PS2KeyboardAccesses
import DexprOS.Drivers.Keyboard.PS2KeyboardLocks

/-!
# Decoding arbitrary bytes

Whatever bytes the keyboard delivers, the driver stays at a position of scan code set 2,
indexes no table out of its bounds, keeps its modifiers up to date, and comes back to the
global table.

Main facts:
* `decodeAt_distance`: a byte takes the decoder home or closer to home;
* `DriverInvariant.interrupt`: the step lemma;
* `DriverInvariant.within_run`: no index leaves its array;
* `runInterrupts_robust`: what holds at every point of every run.
-/

namespace DexprOS
namespace Keyboard

open Kernel WordDecoder

section Tables

/-- The tables of scan code set 2. -/
def scanCode2Tables : List PS2KeyboardScanCodes :=
  [scanCode2SetGlobal, scanCode2Level1ExtendedSubTable, scanCode2Level1ReleaseSubTable,
    scanCode2Level2SubTable]

def scanCode2Sequences : List PS2KeyboardSpecialSequence :=
  [scanCode2PauseSequence, scanCode2Level1PrtScnPressedSequence,
    scanCode2Level2PrtScnReleaseSequence]

theorem scanCode2Sequences_sized
    {q : PS2KeyboardSpecialSequence} (hq : q ∈ scanCode2Sequences) :
    q.Sized := by
  simp only [scanCode2Sequences, List.mem_cons, List.not_mem_nil, or_false] at hq
  rcases hq with rfl | rfl | rfl <;> exact ⟨rfl, by decide⟩

/-- The tables lead to each other and to the three sequences. -/
theorem scanCode2Tables_closed
    {t : PS2KeyboardScanCodes} (ht : t ∈ scanCode2Tables) :
    (∀ t' ∈ t.pByteExtendedScanCodes, t' ∈ scanCode2Tables) ∧
      ∀ q ∈ t.pSpecialSequences, q ∈ scanCode2Sequences := by
  simp only [scanCode2Tables, List.mem_cons, List.not_mem_nil, or_false] at ht
  rcases ht with rfl | rfl | rfl | rfl <;> constructor <;>
    simp [scanCode2SetGlobal, scanCode2Level1ExtendedSubTable, scanCode2Level1ReleaseSubTable,
      scanCode2Level2SubTable, scanCode2Tables, scanCode2Sequences]

theorem scanCode2Tables_sized
    {t : PS2KeyboardScanCodes} (ht : t ∈ scanCode2Tables) :
    t.Sized := by
  have hsequences := fun q hq => scanCode2Sequences_sized ((scanCode2Tables_closed ht).2 q hq)
  simp only [scanCode2Tables, List.mem_cons, List.not_mem_nil, or_false] at ht
  rcases ht with rfl | rfl | rfl | rfl <;> exact ⟨rfl, rfl, rfl, rfl, hsequences⟩

end Tables

section Distance

/-- How many bytes it takes at most from the position to the global table. -/
inductive Distance : Nat → Position → Prop where
  | home : Distance 8 home
  | extended : Distance 5 (.table scanCode2Level1ExtendedSubTable)
  | extendedRelease : Distance 4 (.table scanCode2Level2SubTable)
  | release : Distance 1 (.table scanCode2Level1ReleaseSubTable)
  | sequence {q : PS2KeyboardSpecialSequence} {index : Nat}
      (hq : q ∈ scanCode2Sequences) (hfirst : 1 ≤ index)
      (hlast : index < q.sequenceLength.toNat) :
      Distance (q.sequenceLength.toNat - index) (.sequence q index)

theorem extended_mem
    {t t' : PS2KeyboardScanCodes} {code : UInt8} (ht' : t.extended code = some t') :
    t' ∈ t.pByteExtendedScanCodes := by
  unfold PS2KeyboardScanCodes.extended at ht'
  rcases List.exists_of_findSome?_eq_some ht' with ⟨i, -, hi⟩
  split at hi
  · exact List.mem_of_getElem? hi
  · cases hi

theorem special_mem
    {t : PS2KeyboardScanCodes} {q : PS2KeyboardSpecialSequence} {code : UInt8}
    (hq : t.special code = some q) :
    q ∈ t.pSpecialSequences := by
  unfold PS2KeyboardScanCodes.special at hq
  rcases List.exists_of_findSome?_eq_some hq with ⟨i, -, hi⟩
  rw [Option.filter_eq_some_iff] at hi
  exact List.mem_of_getElem? hi.1

theorem outcomeOf_ne_moved
    (key : PS2KeyboardMapKey) (p : Position) :
    outcomeOf key ≠ .moved p := by
  unfold outcomeOf
  split <;> simp

/-- From a table the decoder moves to a table that it leads to, or into one of its
sequences. -/
theorem decodeAt_table_moved
    {t : PS2KeyboardScanCodes} {code : UInt8} {p : Position}
    (hmoved : decodeAt (.table t) code = .moved p) :
    (∃ t' ∈ t.pByteExtendedScanCodes, p = .table t') ∨
      ∃ q ∈ t.pSpecialSequences, 1 < q.sequenceLength.toNat ∧ p = .sequence q 1 := by
  unfold decodeAt at hmoved
  cases hextended : t.extended code with
  | some t' =>
      simp only [hextended, Outcome.moved.injEq] at hmoved
      exact Or.inl ⟨t', extended_mem hextended, hmoved.symm⟩
  | none =>
      simp only [hextended] at hmoved
      cases hspecial : t.special code with
      | none =>
          simp only [hspecial] at hmoved
          exact absurd hmoved (outcomeOf_ne_moved _ _)
      | some q =>
          simp only [hspecial] at hmoved
          split at hmoved
          · rename_i hlong
            exact Or.inr ⟨q, special_mem hspecial, UInt8.lt_iff_toNat_lt.mp hlong,
              (Outcome.moved.inj hmoved).symm⟩
          · exact absurd hmoved (outcomeOf_ne_moved _ _)

/-- A byte that does not take the decoder home takes it closer to home. -/
theorem decodeAt_distance
    {n : Nat} {p p' : Position} {code : UInt8} (hp : Distance n p)
    (hmoved : decodeAt p code = .moved p') :
    ∃ n', n' < n ∧ Distance n' p' := by
  cases hp with
  | home =>
      rcases decodeAt_table_moved hmoved with ⟨t', ht', rfl⟩ | ⟨q, hq, hlong, rfl⟩
      · simp only [scanCode2SetGlobal, List.mem_cons, List.not_mem_nil, or_false] at ht'
        rcases ht' with rfl | rfl
        · exact ⟨5, by decide, Distance.extended⟩
        · exact ⟨1, by decide, Distance.release⟩
      · obtain rfl := List.mem_singleton.mp hq
        exact ⟨_, by decide, Distance.sequence (by simp [scanCode2Sequences]) (Nat.le_refl 1)
          hlong⟩
  | extended =>
      rcases decodeAt_table_moved hmoved with ⟨t', ht', rfl⟩ | ⟨q, hq, hlong, rfl⟩
      · obtain rfl := List.mem_singleton.mp ht'
        exact ⟨4, by decide, Distance.extendedRelease⟩
      · obtain rfl := List.mem_singleton.mp hq
        exact ⟨_, by decide, Distance.sequence (by simp [scanCode2Sequences]) (Nat.le_refl 1)
          hlong⟩
  | extendedRelease =>
      rcases decodeAt_table_moved hmoved with ⟨t', ht', rfl⟩ | ⟨q, hq, hlong, rfl⟩
      · cases ht'
      · obtain rfl := List.mem_singleton.mp hq
        exact ⟨_, by decide, Distance.sequence (by simp [scanCode2Sequences]) (Nat.le_refl 1)
          hlong⟩
  | release =>
      rcases decodeAt_table_moved hmoved with ⟨t', ht', rfl⟩ | ⟨q, hq, hlong, rfl⟩
      · cases ht'
      · cases hq
  | @sequence q index hq hfirst hlast =>
      unfold decodeAt at hmoved
      dsimp only at hmoved
      split at hmoved
      · cases hmoved
      · split at hmoved
        · exact absurd hmoved (outcomeOf_ne_moved _ _)
        · obtain rfl := Outcome.moved.inj hmoved
          exact ⟨q.sequenceLength.toNat - (index + 1), by omega,
            Distance.sequence hq (by omega) (by omega)⟩

theorem distance_bounds
    {n : Nat} {p : Position} (hp : Distance n p) :
    1 ≤ n ∧ n ≤ 8 := by
  cases hp with
  | home => decide
  | extended => decide
  | extendedRelease => decide
  | release => decide
  | @sequence q index hq hfirst hlast =>
      have hlength : q.sequenceLength.toNat ≤ 8 := by
        simp only [scanCode2Sequences, List.mem_cons, List.not_mem_nil, or_false] at hq
        rcases hq with rfl | rfl | rfl <;> decide
      omega

end Distance

section Modifiers

/-- The flags of the modifiers say what their keys say. -/
structure ModifiersCurrent (s : PS2KeyboardState) : Prop where
  anyShiftActive_iff : s.anyShiftActive = true ↔
    s.keyStates keyLeftShift ≠ .released ∨ s.keyStates keyRightShift ≠ .released
  anyControlActive_iff : s.anyControlActive = true ↔
    s.keyStates keyLeftControl ≠ .released ∨ s.keyStates keyRightControl ≠ .released
  leftAltActive_iff : s.leftAltActive = true ↔ s.keyStates keyLeftAlt ≠ .released
  rightAltActive_iff : s.rightAltActive = true ↔ s.keyStates keyRightAlt ≠ .released

/-- What the modifiers depend on. -/
def PS2KeyboardState.modifierView (s : PS2KeyboardState) :
    (KeyID → KeyState) × Bool × Bool × Bool × Bool :=
  (s.keyStates, s.anyShiftActive, s.anyControlActive, s.leftAltActive, s.rightAltActive)

theorem ModifiersCurrent.congr
    {s t : PS2KeyboardState} (hs : ModifiersCurrent s) (hview : t.modifierView = s.modifierView) :
    ModifiersCurrent t := by
  simp only [PS2KeyboardState.modifierView, Prod.mk.injEq] at hview
  rcases hview with ⟨hkeys, hshift, hcontrol, hleft, hright⟩
  refine ⟨?_, ?_, ?_, ?_⟩
  · rw [hkeys, hshift]
    exact hs.anyShiftActive_iff
  · rw [hkeys, hcontrol]
    exact hs.anyControlActive_iff
  · rw [hkeys, hleft]
    exact hs.leftAltActive_iff
  · rw [hkeys, hright]
    exact hs.rightAltActive_iff

theorem modifierView_of_keyView
    {m m' : Machine} (h : m'.keyView = m.keyView) :
    m'.state.modifierView = m.state.modifierView :=
  (congrArg (fun m : Machine => m.state.modifierView) h :)

theorem modifierView_switchPS2KLock
    (l : PS2KLock) (m : Machine) :
    (switchPS2KLock l m).state.modifierView = m.state.modifierView := by
  have hupdate (m : Machine) :
      (updatePS2KeyboardIndicatorLEDs m).state.modifierView = m.state.modifierView :=
    modifierView_of_keyView (push_keyView _ _ m)
  unfold switchPS2KLock
  repeat' split
  · rw [hupdate]
    cases l <;> rfl
  · cases l <;> rfl
  · rfl
  · rw [hupdate]
    cases l <;> rfl
  · rfl

/-- A flag is set anew when one of its keys changes. -/
theorem modifierView_modifierState
    (keyID : KeyID) (m : Machine) :
    (updatePS2KeyboardModifierState keyID m).state.modifierView =
      (m.state.keyStates,
        if keyID = keyLeftShift ∨ keyID = keyRightShift then
          decide (m.state.keyStates keyLeftShift ≠ .released ∨
            m.state.keyStates keyRightShift ≠ .released)
        else m.state.anyShiftActive,
        if keyID = keyLeftControl ∨ keyID = keyRightControl then
          decide (m.state.keyStates keyLeftControl ≠ .released ∨
            m.state.keyStates keyRightControl ≠ .released)
        else m.state.anyControlActive,
        if keyID = keyLeftAlt then decide (m.state.keyStates keyLeftAlt ≠ .released)
        else m.state.leftAltActive,
        if keyID = keyRightAlt then decide (m.state.keyStates keyRightAlt ≠ .released)
        else m.state.rightAltActive) := by
  unfold updatePS2KeyboardModifierState
  split
  · rename_i hkey
    rw [hkey]
    exact modifierView_switchPS2KLock .caps m
  split
  · rename_i hkey
    rw [hkey]
    exact modifierView_switchPS2KLock .num m
  split
  · rename_i hkey
    rw [hkey]
    exact modifierView_switchPS2KLock .scroll m
  split
  · rename_i hkey
    rcases hkey with rfl | rfl <;> rfl
  split
  · rename_i hkey
    rcases hkey with rfl | rfl <;> rfl
  split
  · rename_i hkey
    rw [hkey]
    rfl
  split
  · rfl
  · rfl

/-- A cached flag that is set anew whenever what it stands for may change. -/
theorem cachedFlag_iff
    {changes before after : Prop} [Decidable changes] [Decidable after] {flag : Bool}
    (hbefore : flag = true ↔ before) (hkept : ¬ changes → (after ↔ before)) :
    (if changes then decide after else flag) = true ↔ after := by
  split
  · exact decide_eq_true_iff
  · rename_i hnot
    exact hbefore.trans (hkept hnot).symm

/-- Applying a key keeps the flags of the modifiers up to date. -/
theorem ModifiersCurrent.applyKey
    {m : Machine} (hm : ModifiersCurrent m.state) (key : PS2KeyboardMapKey) :
    ModifiersCurrent (applyKey key m).state := by
  rcases applyKey_eq key m with ⟨shell, hshell⟩
  rw [hshell]
  dsimp only
  have hview := modifierView_modifierState key.keyID
    { m with
      state := updatePS2KeyboardKeyState key m.state
      applied := m.applied ++ [key] }
  simp only [PS2KeyboardState.modifierView, Prod.mk.injEq] at hview
  rcases hview with ⟨hkeys, hshift, hcontrol, hleft, hright⟩
  have hother {keyID : KeyID} (hne : key.keyID ≠ keyID) :
      (updatePS2KeyboardKeyState key m.state).keyStates keyID = m.state.keyStates keyID :=
    Function.update_of_ne (Ne.symm hne) _ _
  refine ⟨?_, ?_, ?_, ?_⟩
  · rw [hkeys, hshift]
    refine cachedFlag_iff hm.anyShiftActive_iff fun hne => ?_
    rw [not_or] at hne
    rw [hother hne.1, hother hne.2]
  · rw [hkeys, hcontrol]
    refine cachedFlag_iff hm.anyControlActive_iff fun hne => ?_
    rw [not_or] at hne
    rw [hother hne.1, hother hne.2]
  · rw [hkeys, hleft]
    exact cachedFlag_iff hm.leftAltActive_iff fun hne => by rw [hother hne]
  · rw [hkeys, hright]
    exact cachedFlag_iff hm.rightAltActive_iff fun hne => by rw [hother hne]

end Modifiers

section Robustness

variable {m m' : Machine} {s t : PS2KeyboardState} {n : Nat}

/-- The driver is at a position of scan code set 2, and so is its table. -/
structure DecoderInvariant (n : Nat) (s : PS2KeyboardState) : Prop where
  position : ∃ p, Distance n p ∧ AtPosition p s
  table : ∃ t ∈ scanCode2Tables, s.pCurrentSubScanCodeSetTable = some t

theorem mem_of_distance_table
    {t : PS2KeyboardScanCodes} (ht : Distance n (.table t)) :
    t ∈ scanCode2Tables := by
  generalize hp : Position.table t = p at ht
  cases ht with
  | sequence hq hfirst hlast => cases hp
  | _ =>
      cases hp
      simp [scanCode2Tables]

/-- The table stays while a sequence is read. -/
theorem decodeCode_sequence_table
    {p : Position} {code : UInt8} {q : PS2KeyboardSpecialSequence} {index : Nat}
    (hp : AtPosition p s) (hmoved : decodeAt p code = .moved (.sequence q index)) :
    (decodeCode code s).1.pCurrentSubScanCodeSetTable = s.pCurrentSubScanCodeSetTable := by
  cases p with
  | table t =>
      rcases hp with ⟨-, hmode, htable⟩
      unfold decodeAt at hmoved
      cases hextended : t.extended code with
      | some t' =>
          simp [hextended] at hmoved
      | none =>
          cases hspecial : t.special code with
          | none =>
              simp only [hextended, hspecial] at hmoved
              exact absurd hmoved (outcomeOf_ne_moved _ _)
          | some q' =>
              simp only [hextended, hspecial] at hmoved
              split at hmoved
              · rename_i hlong
                simp [decodeCode, hmode, processPS2KCodeByLookup, htable, hextended, hspecial,
                  hlong]
              · exact absurd hmoved (outcomeOf_ne_moved _ _)
  | sequence q' index' =>
      rcases hp with ⟨-, hmode, hsequence, hindex⟩
      unfold decodeAt at hmoved
      dsimp only at hmoved
      split at hmoved
      · cases hmoved
      · rename_i hcode
        split at hmoved
        · exact absurd hmoved (outcomeOf_ne_moved _ _)
        · rename_i hend
          simp [decodeCode, hmode, processPS2KByteSequenceCode, hsequence, hindex, hend,
            not_ne_iff.mp hcode]

theorem DecoderInvariant.home
    (hs : AtPosition home s) :
    DecoderInvariant 8 s :=
  ⟨⟨Keyboard.home, Distance.home, hs⟩, scanCode2SetGlobal, by simp [scanCode2Tables], hs.2.2⟩

/-- A code takes the driver home or closer to home. -/
theorem DecoderInvariant.decode
    (hs : DecoderInvariant n s) (code : UInt8) :
    AtPosition Keyboard.home (decodeCode code s).1 ∨
      ∃ n', n' < n ∧ DecoderInvariant n' (decodeCode code s).1 := by
  rcases hs with ⟨⟨p, hdistance, hp⟩, t, ht, htable⟩
  have hfollows := decodeCode_simulates hp code
  cases hdecode : decodeAt p code with
  | emits key =>
      rw [hdecode] at hfollows
      exact Or.inl hfollows.1
  | rejects =>
      rw [hdecode] at hfollows
      exact Or.inl hfollows.1
  | moved p' =>
      rw [hdecode] at hfollows
      rcases decodeAt_distance hdistance hdecode with ⟨n', hlt, hdistance'⟩
      refine Or.inr ⟨n', hlt, ⟨p', hdistance', hfollows.1⟩, ?_⟩
      cases p' with
      | table t' =>
          exact ⟨t', mem_of_distance_table hdistance', hfollows.1.2.2⟩
      | sequence q index =>
          exact ⟨t, ht, (decodeCode_sequence_table hp hdecode).trans htable⟩

theorem DecoderInvariant.of_sameDecoder
    (hm : DecoderInvariant n m.state) (hsame : SameDecoder m m') :
    DecoderInvariant n m'.state := by
  rcases hm with ⟨⟨p, hdistance, hp⟩, t, ht, htable⟩
  have hsub : m'.state.pCurrentSubScanCodeSetTable = m.state.pCurrentSubScanCodeSetTable :=
    (congrArg PS2KeyboardState.pCurrentSubScanCodeSetTable hsame.1 :)
  exact ⟨⟨p, hdistance, hsame.atPosition hp⟩, t, ht, hsub.trans htable⟩

/-- What holds of the keys, wherever the decoder is. -/
structure KeysInvariant (m : Machine) : Prop where
  applied_lt : ∀ key ∈ m.applied, key.keyID < keyMax
  modifiers : ModifiersCurrent m.state
  locks : ∀ l, (m.state.lockState l).justActivated = true → (m.state.lockState l).active = true

theorem LockState.justActivated_step
    {s : LockState} (hs : s.justActivated = true → s.active = true)
    (action : PS2KeyboardKeyAction) :
    (s.step action).justActivated = true → (s.step action).active = true := by
  rcases s with ⟨keyState, active, justActivated⟩
  unfold LockState.step LockState.switch
  dsimp only at hs ⊢
  repeat' split
  all_goals simp_all

theorem KeysInvariant.applyKey
    {key : PS2KeyboardMapKey} (hm : KeysInvariant m) (hkey : key.keyID < keyMax) :
    KeysInvariant (applyKey key m) := by
  have happlied : (Keyboard.applyKey key m).applied = m.applied ++ [key] :=
    (applyKey_sameDecoder key m).2
  refine ⟨?_, hm.modifiers.applyKey key, fun l => ?_⟩
  · rw [happlied]
    intro key' hkey'
    rcases List.mem_append.mp hkey' with hold | hnew
    · exact hm.applied_lt key' hold
    · rw [List.mem_singleton.mp hnew]
      exact hkey
  · rw [lockState_applyKey]
    split
    · exact LockState.justActivated_step (hm.locks l) _
    · exact hm.locks l

theorem KeysInvariant.of_keyView
    (hm : KeysInvariant m) (hview : m'.keyView = m.keyView) :
    KeysInvariant m' := by
  refine ⟨?_, hm.modifiers.congr (modifierView_of_keyView hview), fun l => ?_⟩
  · rw [(SameDecoder.of_keyView hview).2]
    exact hm.applied_lt
  · rw [lockState_of_keyView hview]
    exact hm.locks l

/-- Decoding leaves the keys alone. -/
theorem KeysInvariant.decode
    (hm : KeysInvariant m) (code : UInt8) :
    KeysInvariant { m with state := (decodeCode code m.state).1 } := by
  rcases decodeCode_frame code m.state with ⟨mode, table, sequence, index, hs⟩
  rw [hs]
  refine ⟨hm.applied_lt, hm.modifiers.congr rfl, fun l => ?_⟩
  cases l
  · exact hm.locks .caps
  · exact hm.locks .num
  · exact hm.locks .scroll

/-- A decoded key has a state. -/
theorem decodeCode_key_lt
    {code : UInt8} {key : PS2KeyboardMapKey} (hkey : (decodeCode code s).2 = some key) :
    key.keyID < keyMax := by
  rcases decodeCode_key hkey with hreal | rfl
  · exact (by simpa [isKey] using hreal : 0 < key.keyID ∧ key.keyID < keyMax).2
  · decide

/-- The step lemma of the keys. -/
theorem KeysInvariant.interrupt
    (hm : KeysInvariant m) (code : UInt8) :
    KeysInvariant (processPS2KeyboardInterrupt code m) := by
  cases hcode : isResponse code with
  | true =>
      exact hm.of_keyView (interrupt_response hcode m)
  | false =>
      rw [interrupt_code hcode]
      cases hkey : (decodeCode code m.state).2 with
      | none =>
          exact hm.decode code
      | some key =>
          exact (hm.decode code).applyKey (decodeCode_key_lt hkey)

/-- The step lemma of the decoder: a response leaves it where it is, and any other byte takes
it home or closer to home. -/
theorem DecoderInvariant.interrupt
    (hm : DecoderInvariant n m.state) (code : UInt8) :
    (isResponse code = true → DecoderInvariant n (processPS2KeyboardInterrupt code m).state) ∧
      (isResponse code = false →
        AtPosition Keyboard.home (processPS2KeyboardInterrupt code m).state ∨
          ∃ n', n' < n ∧ DecoderInvariant n' (processPS2KeyboardInterrupt code m).state) := by
  refine ⟨fun hcode => ?_, fun hcode => ?_⟩
  · exact hm.of_sameDecoder (SameDecoder.of_keyView (interrupt_response hcode m))
  · rw [interrupt_code hcode]
    cases (decodeCode code m.state).2 with
    | none =>
        exact hm.decode code
    | some key =>
        have hsame := applyKey_sameDecoder key { m with state := (decodeCode code m.state).1 }
        rcases hm.decode code with hhome | ⟨n', hlt, hdecoded⟩
        · exact Or.inl (hsame.atPosition hhome)
        · have hkeys : DecoderInvariant n'
              (updatePS2KeyboardKeyState key (decodeCode code m.state).1) :=
            ⟨hdecoded.position, hdecoded.table⟩
          exact Or.inr ⟨n', hlt, hkeys.of_sameDecoder hsame⟩

theorem keysInvariant_initialMachine
    (pLayoutTable : Option KeyToUnicodeTable) :
    KeysInvariant (initialMachine pLayoutTable) := by
  refine ⟨fun key hkey => ?_, ?_, fun l => ?_⟩
  · have happlied : (initialMachine pLayoutTable).applied = [] := by
      rfl
    rw [happlied] at hkey
    cases hkey
  · unfold initialMachine initialisePS2KeyboardDriver
    refine ModifiersCurrent.congr ?_ (modifierView_of_keyView (push_keyView _ _ _))
    refine ⟨?_, ?_, ?_, ?_⟩ <;> simp [keyLeftShift, keyRightShift, keyLeftControl,
      keyRightControl, keyLeftAlt, keyRightAlt, keyMax]
  · rw [lockState_initialMachine]
    simp [LockState.initial]

theorem DecoderInvariant.sequence
    (hs : DecoderInvariant n s) (hmode : s.listeningMode = .byteSequence) :
    ∃ q ∈ scanCode2Sequences, s.pCurrentSpecialSequence = some q ∧
      1 ≤ s.specialSequenceByteIndex ∧ s.specialSequenceByteIndex < q.sequenceLength.toNat := by
  rcases hs.position with ⟨p, hdistance, -, hp⟩
  cases hdistance with
  | sequence hq hfirst hlast =>
      rcases hp with ⟨-, hsequence, hindex⟩
      exact ⟨_, hq, hsequence, hindex ▸ hfirst, hindex ▸ hlast⟩
  | _ =>
      exact absurd (hp.1.symm.trans hmode) (by decide)

/-- The decoder is somewhere in scan code set 2, and the keys are in order. -/
structure DriverInvariant (m : Machine) : Prop where
  decoder : ∃ n, DecoderInvariant n m.state
  keys : KeysInvariant m

/-- The step lemma. -/
theorem DriverInvariant.interrupt
    (hm : DriverInvariant m) (code : UInt8) :
    DriverInvariant (processPS2KeyboardInterrupt code m) := by
  refine ⟨?_, hm.keys.interrupt code⟩
  rcases hm.decoder with ⟨n, hdecoder⟩
  cases hcode : isResponse code with
  | true =>
      exact ⟨n, (hdecoder.interrupt code).1 hcode⟩
  | false =>
      rcases (hdecoder.interrupt code).2 hcode with hhome | ⟨n', -, hdecoder'⟩
      · exact ⟨8, DecoderInvariant.home hhome⟩
      · exact ⟨n', hdecoder'⟩

theorem driverInvariant_initialMachine
    (pLayoutTable : Option KeyToUnicodeTable) :
    DriverInvariant (initialMachine pLayoutTable) := by
  have hstart : AtPosition home (initialMachine pLayoutTable).state :=
    SameDecoder.atPosition (SameDecoder.of_keyView (push_keyView _ _ _)) ⟨rfl, rfl, rfl⟩
  exact ⟨⟨8, DecoderInvariant.home hstart⟩, keysInvariant_initialMachine pLayoutTable⟩

/-- The run lemma. -/
theorem DriverInvariant.run
    (hm : DriverInvariant m) (bytes : List UInt8) :
    DriverInvariant (runInterrupts bytes m) :=
  List.foldlRecOn (motive := DriverInvariant) bytes _ hm fun _ h code _ => h.interrupt code

/-- The indices of one interrupt: the table and the sequence are of scan code set 2, whose sizes
are right, and only a key that has a state is applied. -/
theorem DriverInvariant.within_interrupt
    (hm : DriverInvariant m) (code : UInt8) :
    (tracedProcessPS2KeyboardInterrupt code m).Within KeyboardAccess.InBounds := by
  rcases hm.decoder with ⟨n, hdecoder⟩
  unfold tracedProcessPS2KeyboardInterrupt
  cases isResponse code with
  | true =>
      exact Traced.within_pure _
  | false =>
      rw [if_neg Bool.false_ne_true, Traced.within_bind_iff, result_tracedDecodeCode]
      refine ⟨within_tracedDecodeCode code ?_ ?_, ?_⟩
      · intro _ t htable
        rcases hdecoder.table with ⟨t', ht', htable'⟩
        rw [Option.some.inj (htable.symm.trans htable')]
        exact scanCode2Tables_sized ht'
      · intro hmode q hsequence
        rcases hdecoder.sequence hmode with ⟨q', hq', hsequence', -, hlast⟩
        rw [Option.some.inj (hsequence.symm.trans hsequence')]
        exact Nat.lt_of_lt_of_eq hlast (scanCode2Sequences_sized hq').1
      · cases hkey : (decodeCode code m.state).2 with
        | none =>
            exact Traced.within_pure _
        | some key =>
            exact within_tracedApplyKey _ (decodeCode_key_lt hkey)

/-- The indices of a run. -/
theorem DriverInvariant.within_run
    (hm : DriverInvariant m) (bytes : List UInt8) :
    (tracedRunInterrupts bytes m).Within KeyboardAccess.InBounds := by
  refine (Traced.within_foldlM (I := DriverInvariant) (fun code _ m h => ⟨?_, ?_⟩) hm).1
  · exact h.within_interrupt code
  · rw [result_tracedProcessPS2KeyboardInterrupt]
    exact h.interrupt code

/-- At every point of every run, whatever bytes were delivered: in the middle of a sequence
the driver has one, and its index is inside; its table is one of the four, all of whose sizes
are right; every index that the run has used into a table, a sequence, the key states or the
layout is below the size of its array, and recording the indices has changed nothing; every
key that was applied has a state; the modifiers are what the states of their keys say; and a
lock that was just activated is active.  Eight more bytes that are no responses take the
driver back to the global table. -/
theorem runInterrupts_robust
    (pLayoutTable : Option KeyToUnicodeTable) (bytes : List UInt8) :
    let m := runInterrupts bytes (initialMachine pLayoutTable)
    (m.state.listeningMode = .byteSequence →
      ∃ q, m.state.pCurrentSpecialSequence = some q ∧ q.Sized ∧
        1 ≤ m.state.specialSequenceByteIndex ∧
        m.state.specialSequenceByteIndex < q.sequenceLength.toNat) ∧
      (∃ t ∈ scanCode2Tables, m.state.pCurrentSubScanCodeSetTable = some t ∧ t.Sized) ∧
      (tracedRunInterrupts bytes (initialMachine pLayoutTable)).result = m ∧
      (tracedRunInterrupts bytes (initialMachine pLayoutTable)).Within KeyboardAccess.InBounds ∧
      (∀ key ∈ m.applied, key.keyID < 512) ∧
      ModifiersCurrent m.state ∧
      (∀ l, m.state.lockJustActivated l = true → m.state.lockActive l = true) ∧
      ∀ more, 8 ≤ (more.filter fun b => !isResponse b).length →
        ∃ front, front <+: more ∧ 1 ≤ (front.filter fun b => !isResponse b).length ∧
          (front.filter fun b => !isResponse b).length ≤ 8 ∧
          (runInterrupts front m).state.listeningMode = .tableCharacterLookup ∧
          (runInterrupts front m).state.pCurrentSubScanCodeSetTable = some scanCode2SetGlobal := by
  have hstart := driverInvariant_initialMachine pLayoutTable
  rcases hstart.run bytes with ⟨⟨n, hdecoder⟩, hkeys⟩
  refine ⟨fun hmode => ?_, ?_, result_tracedRunInterrupts _ _, hstart.within_run bytes,
    hkeys.applied_lt, hkeys.modifiers, hkeys.locks, fun more hmore => ?_⟩
  · rcases hdecoder.sequence hmode with ⟨q, hq, hsequence, hfirst, hlast⟩
    exact ⟨q, hsequence, scanCode2Sequences_sized hq, hfirst, hlast⟩
  · rcases hdecoder.table with ⟨t, ht, htable⟩
    exact ⟨t, ht, htable, scanCode2Tables_sized ht⟩
  · have hbounds (n : Nat) (m : Machine) (hm : DecoderInvariant n m.state) : 1 ≤ n ∧ n ≤ 8 := by
      rcases hm.position with ⟨p, hdistance, -⟩
      exact distance_bounds hdistance
    rcases comes_home (fun m code => processPS2KeyboardInterrupt code m) isResponse
      (fun n (m : Machine) => DecoderInvariant n m.state) (fun m => AtPosition home m.state)
      (fun n m hm => (hbounds n m hm).1) (fun n m code hm => (hm.interrupt code).1)
      (fun n m code hm => (hm.interrupt code).2) more hdecoder
      ((hbounds n _ hdecoder).2.trans hmore) with ⟨front, hfront, hone, hle, -, hmode, htable⟩
    exact ⟨front, hfront, hone, hle.trans (hbounds n _ hdecoder).2, hmode, htable⟩

end Robustness

end Keyboard
end DexprOS
