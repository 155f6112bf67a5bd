import DexprOS.Drivers.Keyboard.PS2KeyboardCommands
import DexprOS.Library.WordDecoder

/-!
# Scan-code decoding

The driver's listening mode, its table and its special sequence are one position of a
word decoder.  Scan code set 2 is read by it word for word; responses of the keyboard
may come in between at any place, because they leave the position alone.

Main facts:
* `decodeCode_simulates`: the two modes of the driver follow the decoder;
* `codeWord_spells`: the words of scan code set 2 are spelled from the global table;
* `keyStates_run`: the key states are the applied keys, one after another;
* `runInterrupts_decodes`: any sequence of words applies exactly its keys.
-/

namespace DexprOS
namespace Keyboard

open Kernel WordDecoder

section Position

/-- Where the driver is in the middle of a code. -/
inductive Position where
  | table (t : PS2KeyboardScanCodes)
  | sequence (q : PS2KeyboardSpecialSequence) (index : Nat)

def home : Position :=
  .table scanCode2SetGlobal

def outcomeOf (key : PS2KeyboardMapKey) : Outcome Position PS2KeyboardMapKey :=
  if isKey key.keyID then .emits key else .rejects

def decodeAt : Position → UInt8 → Outcome Position PS2KeyboardMapKey
  | .table t, code =>
      match t.extended code with
      | some t' => .moved (.table t')
      | none =>
          match t.special code with
          | some q => if q.sequenceLength > 1 then .moved (.sequence q 1) else outcomeOf q.key
          | none => outcomeOf (t.lookup code)
  | .sequence q index, code =>
      if q.pSequence[index]? ≠ some code then .rejects
      else if index + 1 = q.sequenceLength.toNat then outcomeOf q.key
      else .moved (.sequence q (index + 1))

/-- The driver's fields say that it is at the position. -/
def AtPosition (p : Position) (s : PS2KeyboardState) : Prop :=
  s.pGlobalScanCodeSetTable = some scanCode2SetGlobal ∧
    match p with
    | .table t =>
        s.listeningMode = .tableCharacterLookup ∧ s.pCurrentSubScanCodeSetTable = some t
    | .sequence q index =>
        s.listeningMode = .byteSequence ∧ s.pCurrentSpecialSequence = some q ∧
          s.specialSequenceByteIndex = index

/-- The state after a code, and the key it gives, for each outcome. -/
def Follows (o : Outcome Position PS2KeyboardMapKey)
    (r : PS2KeyboardState × Option PS2KeyboardMapKey) : Prop :=
  match o with
  | .moved p => AtPosition p r.1 ∧ r.2 = some ⟨0, .none⟩
  | .emits key => AtPosition home r.1 ∧ r.2 = some key
  | .rejects => AtPosition home r.1 ∧ r.2 = none

/-- One code moves the driver like the decoder. -/
theorem decodeCode_simulates
    {p : Position} {s : PS2KeyboardState}
    (hp : AtPosition p s)
    (code : UInt8) :
    Follows (decodeAt p code) (decodeCode code s) := by
  obtain ⟨hglobal, hposition⟩ := hp
  cases p with
  | table t =>
      obtain ⟨hmode, htable⟩ := hposition
      simp only [decodeAt, decodeCode, hmode, processPS2KCodeByLookup, htable]
      cases t.extended code with
      | some t' => simp [Follows, AtPosition, hglobal]
      | none =>
          dsimp only
          cases t.special code with
          | some q =>
              dsimp only
              by_cases hlong : q.sequenceLength > 1
              · simp [Follows, AtPosition, hlong, hglobal]
              · by_cases hkey : isKey q.key.keyID
                · simp [Follows, AtPosition, home, hlong, outcomeOf, keyResult, hkey, hglobal]
                · simp [Follows, AtPosition, home, hlong, outcomeOf, keyResult, hkey, hglobal]
          | none =>
              by_cases hkey : isKey (t.lookup code).keyID
              · simp [Follows, AtPosition, home, outcomeOf, keyResult, hkey, hglobal]
              · simp [Follows, AtPosition, home, outcomeOf, keyResult, hkey, hglobal]
  | sequence q index =>
      obtain ⟨hmode, hsequence, hindex⟩ := hposition
      simp only [decodeAt, decodeCode, hmode, processPS2KByteSequenceCode, hsequence, hindex]
      by_cases hcode : q.pSequence[index]? ≠ some code
      · simp [Follows, AtPosition, home, hcode, hglobal]
      · by_cases hend : index + 1 = q.sequenceLength.toNat
        · by_cases hkey : isKey q.key.keyID
          · simp [Follows, AtPosition, home, hcode, hend, outcomeOf, keyResult, hkey, hglobal]
          · simp [Follows, AtPosition, home, hcode, hend, outcomeOf, keyResult, hkey, hglobal]
        · simp [Follows, AtPosition, hcode, hend, hglobal]

end Position

section Interrupts

/-- A response reaches neither the decoder nor the keys. -/
theorem interrupt_response
    {code : UInt8}
    (hcode : isResponse code = true)
    (m : Machine) :
    (processPS2KeyboardInterrupt code m).keyView = m.keyView := by
  unfold processPS2KeyboardInterrupt
  split
  · rfl
  split
  · exact initialisePS2Keyboard_keyView m
  split
  · exact initialisePS2Keyboard_keyView m
  split
  · rfl
  split
  · exact acknowledged_keyView m
  split
  · exact resend_keyView m
  · simp_all [isResponse]

/-- Any other byte is decoded, and its key applied unless it is rejected. -/
theorem interrupt_code
    {code : UInt8}
    (hcode : isResponse code = false)
    (m : Machine) :
    processPS2KeyboardInterrupt code m =
      match (decodeCode code m.state).2 with
      | none => { m with state := (decodeCode code m.state).1 }
      | some key => applyKey key { m with state := (decodeCode code m.state).1 } := by
  unfold processPS2KeyboardInterrupt
  simp only [isResponse, Bool.or_eq_false_iff, beq_eq_false_iff_ne, ne_eq] at hcode
  cases hkey : (decodeCode code m.state).2 with
  | none => simp only [hcode, or_self, if_false, hkey]
  | some key => simp only [hcode, or_self, if_false, hkey]

/-- The driver's state reduced to its decoder and the key states. -/
def PS2KeyboardState.decoderView (s : PS2KeyboardState) : PS2KeyboardState :=
  { zeroPS2KeyboardState with
    listeningMode := s.listeningMode
    pGlobalScanCodeSetTable := s.pGlobalScanCodeSetTable
    pCurrentSubScanCodeSetTable := s.pCurrentSubScanCodeSetTable
    pCurrentSpecialSequence := s.pCurrentSpecialSequence
    specialSequenceByteIndex := s.specialSequenceByteIndex
    keyStates := s.keyStates }

/-- Machines with the same decoder, key states and applied keys. -/
def SameDecoder (m m' : Machine) : Prop :=
  m'.state.decoderView = m.state.decoderView ∧ m'.applied = m.applied

theorem SameDecoder.of_keyView
    {m m' : Machine}
    (h : m'.keyView = m.keyView) :
    SameDecoder m m' :=
  ⟨(congrArg (fun m : Machine => m.state.decoderView) h :),
    (congrArg (fun m : Machine => m.applied) h :)⟩

theorem SameDecoder.trans
    {m m' m'' : Machine}
    (h : SameDecoder m m') (h' : SameDecoder m' m'') :
    SameDecoder m m'' :=
  ⟨h'.1.trans h.1, h'.2.trans h.2⟩

theorem SameDecoder.atPosition
    {m m' : Machine} {p : Position}
    (h : SameDecoder m m')
    (hp : AtPosition p m.state) :
    AtPosition p m'.state := by
  have hview : AtPosition p m'.state.decoderView := by
    rw [h.1]
    exact hp
  exact hview

theorem SameDecoder.keyStates
    {m m' : Machine}
    (h : SameDecoder m m') :
    m'.state.keyStates = m.state.keyStates :=
  (congrArg PS2KeyboardState.keyStates h.1 :)

theorem switchPS2KLock_sameDecoder
    (l : PS2KLock) (m : Machine) :
    SameDecoder m (switchPS2KLock l m) := by
  have hupdate (s : PS2KeyboardState) (hs : s.decoderView = m.state.decoderView) :
      SameDecoder m (updatePS2KeyboardIndicatorLEDs { m with state := s }) := by
    have hset : SameDecoder m { m with state := s } := ⟨hs, rfl⟩
    exact hset.trans (SameDecoder.of_keyView (push_keyView _ _ _))
  unfold switchPS2KLock
  repeat' split
  · exact hupdate _ (by cases l <;> rfl)
  · exact ⟨by cases l <;> rfl, rfl⟩
  · exact ⟨rfl, rfl⟩
  · exact hupdate _ (by cases l <;> rfl)
  · exact ⟨rfl, rfl⟩

theorem modifierState_sameDecoder
    (keyID : KeyID) (m : Machine) :
    SameDecoder m (updatePS2KeyboardModifierState keyID m) := by
  unfold updatePS2KeyboardModifierState
  repeat' split
  · exact switchPS2KLock_sameDecoder .caps m
  · exact switchPS2KLock_sameDecoder .num m
  · exact switchPS2KLock_sameDecoder .scroll m
  all_goals exact ⟨rfl, rfl⟩

/-- Of what the decoder and the keys consist, applying a key changes its state only. -/
theorem applyKey_sameDecoder
    (key : PS2KeyboardMapKey) (m : Machine) :
    SameDecoder
      { m with
        state := updatePS2KeyboardKeyState key m.state
        applied := m.applied ++ [key] }
      (applyKey key m) := by
  obtain ⟨shell, hshell⟩ := applyKey_eq key m
  rw [hshell]
  exact (modifierState_sameDecoder key.keyID _).trans ⟨rfl, rfl⟩

end Interrupts

section KeyStates

/-- The key states after a sequence of keys. -/
def keyStatesAfter (keys : List PS2KeyboardMapKey) : KeyID → KeyState :=
  keys.foldl
    (fun states key =>
      Function.update states key.keyID (keyStateAfter (states key.keyID) key.keyAction))
    fun _ => .released

/-- Keys other than the key 0 that stands for an unfinished code. -/
def Machine.appliedKeys (m : Machine) : List PS2KeyboardMapKey :=
  m.applied.filter fun key => key.keyID ≠ 0

/-- The key states are what the applied keys make of them. -/
def KeyStatesInvariant (m : Machine) : Prop :=
  m.state.keyStates = keyStatesAfter m.appliedKeys

/-- What the two modes report: a key only if it is a real one. -/
def Reports (r : PS2KeyboardState × PS2KeyboardCodeProcessResult × PS2KeyboardMapKey) : Prop :=
  r.2.1 = .failure ∨ isKey r.2.2.keyID = true ∨ r.2.2 = ⟨0, .none⟩

theorem reports_keyResult
    (s : PS2KeyboardState) (key : PS2KeyboardMapKey) :
    Reports (s, keyResult key, key) := by
  by_cases hkey : isKey key.keyID = true
  · exact Or.inr (Or.inl hkey)
  · exact Or.inl (by simp [keyResult, hkey])

theorem processPS2KCodeByLookup_reports
    (code : UInt8) (s : PS2KeyboardState) :
    Reports (processPS2KCodeByLookup code s) := by
  unfold processPS2KCodeByLookup
  split
  · exact Or.inl rfl
  · split
    · exact Or.inr (Or.inr rfl)
    · split
      · split
        · exact Or.inr (Or.inr rfl)
        · exact reports_keyResult _ _
      · exact reports_keyResult _ _

theorem processPS2KByteSequenceCode_reports
    (code : UInt8) (s : PS2KeyboardState) :
    Reports (processPS2KByteSequenceCode code s) := by
  unfold processPS2KByteSequenceCode
  split
  · exact Or.inl rfl
  · dsimp only
    split
    · exact Or.inl rfl
    · split
      · exact reports_keyResult _ _
      · exact Or.inr (Or.inr rfl)

/-- A decoded key is a real one or changes nothing. -/
theorem decodeCode_key
    {code : UInt8} {s : PS2KeyboardState} {key : PS2KeyboardMapKey}
    (hkey : (decodeCode code s).2 = some key) :
    isKey key.keyID = true ∨ key = ⟨0, .none⟩ := by
  have hreports (r : PS2KeyboardState × PS2KeyboardCodeProcessResult × PS2KeyboardMapKey)
      (hr : Reports r) (hsome : (if r.2.1 = .failure then none else some r.2.2) = some key) :
      isKey key.keyID = true ∨ key = ⟨0, .none⟩ := by
    rcases hr with hfail | hreal
    · simp [hfail] at hsome
    · split at hsome
      · exact absurd hsome (by simp)
      · exact Option.some.inj hsome ▸ hreal
  unfold decodeCode at hkey
  cases hmode : s.listeningMode with
  | tableCharacterLookup =>
      rw [hmode] at hkey
      exact hreports _ (processPS2KCodeByLookup_reports code s) hkey
  | byteSequence =>
      rw [hmode] at hkey
      exact hreports _ (processPS2KByteSequenceCode_reports code s) hkey

theorem isKey_ne_zero
    {keyID : KeyID}
    (h : isKey keyID = true) :
    keyID ≠ 0 := by
  rintro rfl
  simp [isKey] at h

/-- Applying a real key adds it; the key 0 of an unfinished code changes nothing. -/
theorem KeyStatesInvariant.applyKey
    {m : Machine} {key : PS2KeyboardMapKey}
    (h : KeyStatesInvariant m)
    (hkey : isKey key.keyID = true ∨ key = ⟨0, .none⟩) :
    KeyStatesInvariant (applyKey key m) := by
  have hsame := applyKey_sameDecoder key m
  rw [KeyStatesInvariant, Machine.appliedKeys, hsame.keyStates, hsame.2, List.filter_append]
  rcases hkey with hreal | rfl
  · rw [List.filter_cons_of_pos (by simpa using isKey_ne_zero hreal), keyStatesAfter,
      List.foldl_append, List.foldl_cons, ← keyStatesAfter]
    simp only [updatePS2KeyboardKeyState]
    rw [h]
    rfl
  · simp only [updatePS2KeyboardKeyState, keyStateAfter, Function.update_eq_self]
    rw [h]
    simp [Machine.appliedKeys]

theorem KeyStatesInvariant.of_sameDecoder
    {m m' : Machine}
    (h : KeyStatesInvariant m)
    (hsame : SameDecoder m m') :
    KeyStatesInvariant m' := by
  rw [KeyStatesInvariant, Machine.appliedKeys, hsame.keyStates, hsame.2]
  exact h

theorem KeyStatesInvariant.interrupt
    {m : Machine}
    (h : KeyStatesInvariant m)
    (code : UInt8) :
    KeyStatesInvariant (processPS2KeyboardInterrupt code m) := by
  cases hcode : isResponse code with
  | true =>
      exact h.of_sameDecoder (SameDecoder.of_keyView (interrupt_response hcode m))
  | false =>
      have hdecoded : KeyStatesInvariant { m with state := (decodeCode code m.state).1 } := by
        obtain ⟨mode, table, sequence, index, hs⟩ := decodeCode_frame code m.state
        have hstates : (decodeCode code m.state).1.keyStates = m.state.keyStates :=
          (congrArg PS2KeyboardState.keyStates hs :)
        exact hstates.trans h
      rw [interrupt_code hcode]
      cases hkey : (decodeCode code m.state).2 with
      | none => exact hdecoded
      | some key => exact hdecoded.applyKey (decodeCode_key hkey)

/-- The key states are the applied keys, one after another, in every run. -/
theorem keyStates_run
    (pLayoutTable : Option KeyToUnicodeTable) (bytes : List UInt8) :
    KeyStatesInvariant (runInterrupts bytes (initialMachine pLayoutTable)) := by
  have hrun (m : Machine) (h : KeyStatesInvariant m) :
      KeyStatesInvariant (runInterrupts bytes m) := by
    induction bytes generalizing m with
    | nil =>
        exact h
    | cons code bytes ih =>
        exact ih _ (h.interrupt code)
  refine hrun _ ?_
  unfold initialMachine initialisePS2KeyboardDriver
  refine KeyStatesInvariant.of_sameDecoder ?_ (SameDecoder.of_keyView (push_keyView _ _ _))
  funext key
  simp [keyStatesAfter, Machine.appliedKeys, zeroPS2KeyboardState]

end KeyStates

section Simulation

theorem SameDecoder.appliedKeys
    {m m' : Machine}
    (h : SameDecoder m m') :
    m'.appliedKeys = m.appliedKeys := by
  rw [Machine.appliedKeys, h.2]
  rfl

theorem applyKey_appliedKeys
    (key : PS2KeyboardMapKey) (m : Machine) :
    (applyKey key m).appliedKeys =
      m.appliedKeys ++ if key.keyID ≠ 0 then [key] else [] := by
  rw [(applyKey_sameDecoder key m).appliedKeys, Machine.appliedKeys, List.filter_append]
  congr 1
  by_cases hkey : key.keyID = 0
  · simp [hkey]
  · simp [hkey]

/-- A response is ignored by the decoder. -/
theorem interrupt_ignored
    {p : Position} {m : Machine} {code : UInt8}
    (hp : AtPosition p m.state)
    (hcode : isResponse code = true) :
    AtPosition p (processPS2KeyboardInterrupt code m).state ∧
      (processPS2KeyboardInterrupt code m).appliedKeys = m.appliedKeys := by
  have hsame := SameDecoder.of_keyView (interrupt_response hcode m)
  exact ⟨hsame.atPosition hp, hsame.appliedKeys⟩

/-- A code inside of a word moves the decoder. -/
theorem interrupt_moved
    {p p' : Position} {m : Machine} {code : UInt8}
    (hp : AtPosition p m.state)
    (hcode : isResponse code = false)
    (hmoved : decodeAt p code = .moved p') :
    AtPosition p' (processPS2KeyboardInterrupt code m).state ∧
      (processPS2KeyboardInterrupt code m).appliedKeys = m.appliedKeys := by
  have hfollows := decodeCode_simulates hp code
  rw [hmoved] at hfollows
  rw [interrupt_code hcode, hfollows.2]
  refine ⟨(applyKey_sameDecoder _ _).atPosition hfollows.1, ?_⟩
  rw [applyKey_appliedKeys]
  simp [Machine.appliedKeys]

theorem decodeAt_emits
    {p : Position} {code : UInt8} {key : PS2KeyboardMapKey}
    (h : decodeAt p code = .emits key) :
    isKey key.keyID = true := by
  have houtcome (k : PS2KeyboardMapKey) (hk : outcomeOf k = .emits key) :
      isKey key.keyID = true := by
    unfold outcomeOf at hk
    split at hk
    · rename_i hreal
      exact Outcome.emits.inj hk ▸ hreal
    · exact absurd hk (by simp)
  unfold decodeAt at h
  repeat' split at h
  all_goals first
    | exact houtcome _ h
    | exact absurd h (by simp)

/-- The last code of a word applies its key and takes the decoder home. -/
theorem interrupt_emits
    {p : Position} {key : PS2KeyboardMapKey} {m : Machine} {code : UInt8}
    (hp : AtPosition p m.state)
    (hcode : isResponse code = false)
    (hemits : decodeAt p code = .emits key) :
    AtPosition home (processPS2KeyboardInterrupt code m).state ∧
      (processPS2KeyboardInterrupt code m).appliedKeys = m.appliedKeys ++ [key] := by
  have hfollows := decodeCode_simulates hp code
  rw [hemits] at hfollows
  rw [interrupt_code hcode, hfollows.2]
  refine ⟨(applyKey_sameDecoder _ _).atPosition hfollows.1, ?_⟩
  rw [applyKey_appliedKeys, if_pos (isKey_ne_zero (decodeAt_emits hemits))]
  rfl

end Simulation

section ScanCodeSet2

/-- Entry of a table for a code. -/
def tableEntry (table : List PS2KeyboardMapKey) (code : UInt8) : PS2KeyboardMapKey :=
  table[code.toNat]?.getD ⟨0, .none⟩

/-- The words of scan code set 2. -/
inductive CodeWord where
  | press (code : UInt8)
      (used : (tableEntry scanCode2SingleByteSet code).keyID ≠ 0)
  | release (code : UInt8)
      (used : (tableEntry scanCode2SingleByteReleaseSet code).keyID ≠ 0)
  | extendedPress (code : UInt8)
      (used : (tableEntry scanCode2TwoBytesSet code).keyID ≠ 0)
  | extendedRelease (code : UInt8)
      (used : (tableEntry scanCode2TwoBytesReleaseSet code).keyID ≠ 0)
  | printScreenPress
  | printScreenRelease
  | pause

def CodeWord.bytes : CodeWord → List UInt8
  | press code _ => [code]
  | release code _ => [0xF0, code]
  | extendedPress code _ => [0xE0, code]
  | extendedRelease code _ => [0xE0, 0xF0, code]
  | printScreenPress => [0xE0, 0x12, 0xE0, 0x7C]
  | printScreenRelease => [0xE0, 0xF0, 0x7C, 0xE0, 0xF0, 0x12]
  | pause => [0xE1, 0x14, 0x77, 0xE1, 0xF0, 0x14, 0xF0, 0x77]

def CodeWord.key : CodeWord → PS2KeyboardMapKey
  | press code _ => tableEntry scanCode2SingleByteSet code
  | release code _ => tableEntry scanCode2SingleByteReleaseSet code
  | extendedPress code _ => tableEntry scanCode2TwoBytesSet code
  | extendedRelease code _ => tableEntry scanCode2TwoBytesReleaseSet code
  | printScreenPress => ⟨keyPrintScreen, .pressed⟩
  | printScreenRelease => ⟨keyPrintScreen, .released⟩
  | pause => ⟨keyPause, .pressedReleased⟩

/-- A code with an entry lies inside of its table, and the entry is a key. -/
theorem tableEntry_used
    {table : List PS2KeyboardMapKey} {code : UInt8}
    (hkeys : ∀ key ∈ table, key.keyID < keyMax)
    (used : (tableEntry table code).keyID ≠ 0) :
    code.toNat < table.length ∧ isKey (tableEntry table code).keyID = true := by
  have hlt : code.toNat < table.length := by
    by_contra hout
    exact used (by simp [tableEntry, List.getElem?_eq_none (Nat.le_of_not_lt hout)])
  refine ⟨hlt, ?_⟩
  have hentry : tableEntry table code = table[code.toNat] := by
    simp [tableEntry, List.getElem?_eq_getElem hlt]
  have hmax := hkeys _ (List.getElem_mem hlt)
  rw [hentry] at used ⊢
  simp [isKey, hmax, UInt16.pos_iff_ne_zero, used]

theorem extended_eq_none
    {t : PS2KeyboardScanCodes} {code : UInt8}
    (hcodes : code ∉ t.pByteExtendCodes) :
    t.extended code = none := by
  rw [PS2KeyboardScanCodes.extended, List.findSome?_eq_none_iff]
  intro i _
  rw [if_neg fun hi => hcodes (List.mem_of_getElem? hi)]

theorem special_eq_none
    {t : PS2KeyboardScanCodes} {code : UInt8}
    (hsequences : ∀ q ∈ t.pSpecialSequences, q.pSequence[0]? ≠ some code) :
    t.special code = none := by
  rw [PS2KeyboardScanCodes.special, List.findSome?_eq_none_iff]
  intro i _
  cases hq : t.pSpecialSequences[i]? with
  | none => rfl
  | some q => simp [Option.filter, hsequences q (List.mem_of_getElem? hq)]

/-- A table counts its keys, holds only keys that have a state, and has no entry where
a prefix or a special sequence starts. -/
structure PS2KeyboardScanCodes.Sound (t : PS2KeyboardScanCodes) : Prop where
  size : t.numKeysPerByte.toNat = t.pKeysPerByte.length
  keys : ∀ key ∈ t.pKeysPerByte, key.keyID < keyMax
  prefixes : ∀ b ∈ t.pByteExtendCodes, (tableEntry t.pKeysPerByte b).keyID = 0
  sequences : ∀ q ∈ t.pSpecialSequences, ∀ b ∈ q.pSequence[0]?,
    (tableEntry t.pKeysPerByte b).keyID = 0

theorem scanCode2SetGlobal_sound :
    scanCode2SetGlobal.Sound :=
  ⟨rfl, by decide +kernel, by decide +kernel, by decide +kernel⟩

theorem scanCode2Level1ReleaseSubTable_sound :
    scanCode2Level1ReleaseSubTable.Sound :=
  ⟨rfl, by decide +kernel, by decide +kernel, by decide +kernel⟩

theorem scanCode2Level1ExtendedSubTable_sound :
    scanCode2Level1ExtendedSubTable.Sound :=
  ⟨rfl, by decide +kernel, by decide +kernel, by decide +kernel⟩

theorem scanCode2Level2SubTable_sound :
    scanCode2Level2SubTable.Sound :=
  ⟨rfl, by decide +kernel, by decide +kernel, by decide +kernel⟩

/-- A used code of a sound table gives its key. -/
theorem decodeAt_tableEntry
    {t : PS2KeyboardScanCodes} {code : UInt8}
    (hsound : t.Sound)
    (used : (tableEntry t.pKeysPerByte code).keyID ≠ 0) :
    decodeAt (.table t) code = .emits (tableEntry t.pKeysPerByte code) := by
  obtain ⟨hlt, hkey⟩ := tableEntry_used hsound.keys used
  have hextended : t.extended code = none :=
    extended_eq_none fun hb => used (hsound.prefixes code hb)
  have hspecial : t.special code = none :=
    special_eq_none fun q hq hb => used (hsound.sequences q hq code hb)
  have hsize := hsound.size
  have hlookup : t.lookup code = tableEntry t.pKeysPerByte code := by
    rw [PS2KeyboardScanCodes.lookup, if_pos (UInt8.lt_iff_toNat_lt.mpr (by omega))]
    rfl
  simp [decodeAt, hextended, hspecial, hlookup, outcomeOf, hkey]

/-- The four tables give the keys of their used codes. -/
theorem codeWord_spells
    (word : CodeWord) :
    Spells decodeAt home word.bytes word.key := by
  have hE0 : decodeAt home 0xE0 = .moved (.table scanCode2Level1ExtendedSubTable) := rfl
  have hF0 : decodeAt home 0xF0 = .moved (.table scanCode2Level1ReleaseSubTable) := rfl
  have hE0F0 : decodeAt (.table scanCode2Level1ExtendedSubTable) 0xF0 =
      .moved (.table scanCode2Level2SubTable) := rfl
  cases word with
  | press code used =>
      exact Spells.last (decodeAt_tableEntry scanCode2SetGlobal_sound used)
  | release code used =>
      exact Spells.next hF0
        (Spells.last (decodeAt_tableEntry scanCode2Level1ReleaseSubTable_sound used))
  | extendedPress code used =>
      exact Spells.next hE0
        (Spells.last (decodeAt_tableEntry scanCode2Level1ExtendedSubTable_sound used))
  | extendedRelease code used =>
      exact Spells.next hE0 (Spells.next hE0F0
        (Spells.last (decodeAt_tableEntry scanCode2Level2SubTable_sound used)))
  | printScreenPress =>
      exact Spells.next hE0 (Spells.next rfl (Spells.next rfl (Spells.last rfl)))
  | printScreenRelease =>
      exact Spells.next hE0 (Spells.next hE0F0 (Spells.next rfl (Spells.next rfl
        (Spells.next rfl (Spells.last rfl)))))
  | pause =>
      exact Spells.next rfl (Spells.next rfl (Spells.next rfl (Spells.next rfl
        (Spells.next rfl (Spells.next rfl (Spells.next rfl (Spells.last rfl)))))))

/-- Scan-code decoding inverts the encoding.  For every sequence of words of scan code
set 2 and every sequence of bytes that gives these words when the keyboard's responses
are left out, the driver applies exactly the words' keys in order, the key states are
those keys one after another, and it ends with the global table in lookup mode. -/
theorem runInterrupts_decodes
    (pLayoutTable : Option KeyToUnicodeTable) (words : List CodeWord) (bytes : List UInt8)
    (hbytes : (bytes.filter fun b => !isResponse b) = words.flatMap CodeWord.bytes) :
    let m := runInterrupts bytes (initialMachine pLayoutTable)
    m.appliedKeys = words.map CodeWord.key ∧
      m.state.keyStates = keyStatesAfter (words.map CodeWord.key) ∧
      m.state.listeningMode = .tableCharacterLookup ∧
      m.state.pCurrentSubScanCodeSetTable = some scanCode2SetGlobal := by
  intro m
  have hreads : Reads decodeAt home home (bytes.filter fun b => !isResponse b)
      (words.map CodeWord.key) := by
    rw [hbytes]
    exact reads_words codeWord_spells words
  have hstart : AtPosition home (initialMachine pLayoutTable).state := by
    refine SameDecoder.atPosition (SameDecoder.of_keyView (push_keyView _ _ _)) ?_
    exact ⟨rfl, rfl, rfl⟩
  obtain ⟨⟨-, hmode, htable⟩, happlied⟩ :=
    hreads.simulates (fun m code => processPS2KeyboardInterrupt code m) isResponse
      (fun p m => AtPosition p m.state) Machine.appliedKeys
      (fun _ _ _ => interrupt_ignored) (fun _ _ _ _ => interrupt_moved)
      (fun _ _ _ _ => interrupt_emits) hstart
  have hnone : (initialMachine pLayoutTable).appliedKeys = [] := by
    rfl
  rw [hnone, List.nil_append] at happlied
  exact ⟨happlied, happlied ▸ keyStates_run pLayoutTable bytes, hmode, htable⟩

/-- The A key and Pause, with responses inside of the second word. -/
theorem runInterrupts_decodes_pause :
    let m := runInterrupts
      [0x1C, 0xE1, 0x14, 0xFA, 0x77, 0xE1, 0xF0, 0xAA, 0xFE, 0x14, 0xF0, 0x77]
      (initialMachine none)
    m.appliedKeys = [⟨keyA, .pressed⟩, ⟨keyPause, .pressedReleased⟩] ∧
      m.state.keyStates = keyStatesAfter [⟨keyA, .pressed⟩, ⟨keyPause, .pressedReleased⟩] ∧
      m.state.listeningMode = .tableCharacterLookup ∧
      m.state.pCurrentSubScanCodeSetTable = some scanCode2SetGlobal :=
  runInterrupts_decodes none [.press 0x1C (by decide), .pause] _ (by decide)

end ScanCodeSet2

end Keyboard
end DexprOS
