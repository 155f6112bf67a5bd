import DexprOS.Drivers.Keyboard.PS2KeyboardDecoding
import DexprOS.Library.AccessTrace

/-!
# The indices of the keyboard driver

The interpretation of scan codes with a trace of the indices that it uses into the arrays of
the scan code tables, the bytes of the special sequences, the key states and the entries of
the layout.

Main facts:
* `result_tracedRunInterrupts`: recording the indices changes nothing;
* `within_tracedDecodeCode`: a table or a sequence whose sizes are right is not left;
* `within_tracedApplyKey`: keys below `keyMax` have a state and an entry.
-/

namespace DexprOS
namespace Keyboard

open Kernel Traced

section Accesses

/-- An array and the index used for it. -/
inductive KeyboardAccess where
  | byteExtendCode (t : PS2KeyboardScanCodes) (i : Nat)
  | byteExtendedScanCodes (t : PS2KeyboardScanCodes) (i : Nat)
  | specialSequence (t : PS2KeyboardScanCodes) (i : Nat)
  | keyPerByte (t : PS2KeyboardScanCodes) (i : Nat)
  | sequenceByte (q : PS2KeyboardSpecialSequence) (i : Nat)
  | keyState (keyID : KeyID)
  | unicodeEntry (keyID : KeyID)

/-- The array has such an element. -/
def KeyboardAccess.InBounds : KeyboardAccess → Prop
  | byteExtendCode t i => i < t.pByteExtendCodes.length
  | byteExtendedScanCodes t i => i < t.pByteExtendedScanCodes.length
  | specialSequence t i => i < t.pSpecialSequences.length
  | keyPerByte t i => i < t.pKeysPerByte.length
  | sequenceByte q i => i < q.pSequence.length
  | keyState keyID => keyID < keyMax
  | unicodeEntry keyID => keyID < keyMax

/-- The sequence has as many bytes as it says, and at least two. -/
def PS2KeyboardSpecialSequence.Sized (q : PS2KeyboardSpecialSequence) : Prop :=
  q.sequenceLength.toNat = q.pSequence.length ∧ 2 ≤ q.sequenceLength.toNat

/-- The arrays of the table have the sizes that the driver compares its indices with. -/
structure PS2KeyboardScanCodes.Sized (t : PS2KeyboardScanCodes) : Prop where
  keys : t.numKeysPerByte.toNat = t.pKeysPerByte.length
  extendCodes : t.numByteExtendCodes.toNat = t.pByteExtendCodes.length
  extendedTables : t.numByteExtendCodes.toNat = t.pByteExtendedScanCodes.length
  sequences : t.numSpecialSequences.toNat = t.pSpecialSequences.length
  sequenceBytes : ∀ q ∈ t.pSpecialSequences, q.Sized

end Accesses

section Tables

variable (t : PS2KeyboardScanCodes) (code : UInt8)

def tracedExtended : Traced KeyboardAccess (Option PS2KeyboardScanCodes) :=
  (List.range t.numByteExtendCodes.toNat).findSomeM? fun i => do
    let extendCode ← access (.byteExtendCode t i) t.pByteExtendCodes[i]?
    if extendCode = some code then
      access (.byteExtendedScanCodes t i) t.pByteExtendedScanCodes[i]?
    else pure none

def tracedSpecial : Traced KeyboardAccess (Option PS2KeyboardSpecialSequence) :=
  (List.range t.numSpecialSequences.toNat).findSomeM? fun i => do
    let pSequence ← access (.specialSequence t i) t.pSpecialSequences[i]?
    match pSequence with
    | none => pure none
    | some q =>
        if 0 < q.sequenceLength then do
          let first ← access (.sequenceByte q 0) q.pSequence[0]?
          pure (if first = some code then some q else none)
        else pure none

def tracedLookup : Traced KeyboardAccess PS2KeyboardMapKey :=
  if code < t.numKeysPerByte then
    access (.keyPerByte t code.toNat) (t.pKeysPerByte[code.toNat]?.getD ⟨0, .none⟩)
  else pure ⟨0, .none⟩

@[simp] theorem result_tracedExtended :
    (tracedExtended t code).result = t.extended code := by
  refine result_findSomeM? (fun i => ?_) _
  rw [result_bind, result_access]
  split
  · rfl
  · rfl

@[simp] theorem result_tracedSpecial :
    (tracedSpecial t code).result = t.special code := by
  refine result_findSomeM? (fun i => ?_) _
  rw [result_bind, result_access]
  cases t.pSpecialSequences[i]? with
  | none => rfl
  | some q =>
      by_cases hpos : 0 < q.sequenceLength
      · simp [hpos, Option.filter]
      · simp [hpos, Option.filter]

@[simp] theorem result_tracedLookup :
    (tracedLookup t code).result = t.lookup code := by
  unfold tracedLookup PS2KeyboardScanCodes.lookup
  split
  · rfl
  · rfl

variable {t}

theorem within_tracedExtended
    (ht : t.Sized) :
    (tracedExtended t code).Within KeyboardAccess.InBounds := by
  refine within_findSomeM? fun i hi => ?_
  have hlt := List.mem_range.mp hi
  rw [within_bind_iff, within_access_iff]
  refine ⟨Nat.lt_of_lt_of_eq hlt ht.extendCodes, ?_⟩
  split
  · exact (within_access_iff _ _).mpr (Nat.lt_of_lt_of_eq hlt ht.extendedTables)
  · exact within_pure _

theorem within_tracedSpecial
    (ht : t.Sized) :
    (tracedSpecial t code).Within KeyboardAccess.InBounds := by
  refine within_findSomeM? fun i hi => ?_
  have hlt := List.mem_range.mp hi
  rw [within_bind_iff, within_access_iff, result_access]
  refine ⟨Nat.lt_of_lt_of_eq hlt ht.sequences, ?_⟩
  cases hq : t.pSpecialSequences[i]? with
  | none => exact within_pure _
  | some q =>
      obtain ⟨hlength, htwo⟩ := ht.sequenceBytes q (List.mem_of_getElem? hq)
      have hfirst : 0 < q.pSequence.length := by omega
      dsimp only
      split
      · exact (within_bind_iff _ _).mpr ⟨(within_access_iff _ _).mpr hfirst, within_pure _⟩
      · exact within_pure _

/-- The lookup compares the code with the number of keys before it uses it as an index. -/
theorem within_tracedLookup
    (ht : t.Sized) :
    (tracedLookup t code).Within KeyboardAccess.InBounds := by
  unfold tracedLookup
  split
  · rename_i hlt
    have hindex : code.toNat < t.numKeysPerByte.toNat := UInt8.lt_iff_toNat_lt.mp hlt
    exact (within_access_iff _ _).mpr (Nat.lt_of_lt_of_eq hindex ht.keys)
  · exact within_pure _

end Tables

section Decoding

variable (code : UInt8) (s : PS2KeyboardState)

def tracedProcessPS2KCodeByLookup : Traced KeyboardAccess
    (PS2KeyboardState × PS2KeyboardCodeProcessResult × PS2KeyboardMapKey) :=
  match s.pCurrentSubScanCodeSetTable with
  | none => pure (s, .failure, ⟨0, .none⟩)
  | some t => do
      let extendedTable ← tracedExtended t code
      match extendedTable with
      | some t' =>
          pure ({ s with pCurrentSubScanCodeSetTable := some t' }, .partiallyDecoded, ⟨0, .none⟩)
      | none => do
          let sequence ← tracedSpecial t code
          match sequence with
          | some q =>
              if q.sequenceLength > 1 then
                pure ({ s with
                    listeningMode := .byteSequence
                    pCurrentSpecialSequence := some q
                    specialSequenceByteIndex := 1 }, .partiallyDecoded, ⟨0, .none⟩)
              else pure (s, keyResult q.key, q.key)
          | none => do
              let key ← tracedLookup t code
              pure (s, keyResult key, key)

def tracedProcessPS2KByteSequenceCode : Traced KeyboardAccess
    (PS2KeyboardState × PS2KeyboardCodeProcessResult × PS2KeyboardMapKey) :=
  match s.pCurrentSpecialSequence with
  | none => pure (s, .failure, ⟨0, .none⟩)
  | some q => do
      let seqIndex := s.specialSequenceByteIndex
      let expected ← access (.sequenceByte q seqIndex) q.pSequence[seqIndex]?
      if expected ≠ some code then pure (s, .failure, ⟨0, .none⟩)
      else if seqIndex + 1 = q.sequenceLength.toNat then pure (s, keyResult q.key, q.key)
      else
        pure ({ s with specialSequenceByteIndex := s.specialSequenceByteIndex + 1 },
          .partiallyDecoded, ⟨0, .none⟩)

def tracedDecodeCode :
    Traced KeyboardAccess (PS2KeyboardState × Option PS2KeyboardMapKey) := do
  let r ←
    match s.listeningMode with
    | .tableCharacterLookup => tracedProcessPS2KCodeByLookup code s
    | .byteSequence => tracedProcessPS2KByteSequenceCode code s
  let s' :=
    if r.2.1 = .decodedToKey ∨ r.2.1 = .failure then
      { r.1 with
        listeningMode := .tableCharacterLookup
        pCurrentSubScanCodeSetTable := r.1.pGlobalScanCodeSetTable }
    else r.1
  pure (s', if r.2.1 = .failure then none else some r.2.2)

@[simp] theorem result_tracedProcessPS2KCodeByLookup :
    (tracedProcessPS2KCodeByLookup code s).result = processPS2KCodeByLookup code s := by
  unfold tracedProcessPS2KCodeByLookup processPS2KCodeByLookup
  cases s.pCurrentSubScanCodeSetTable with
  | none => rfl
  | some t =>
      simp only [result_bind, result_tracedExtended]
      cases t.extended code with
      | some t' => rfl
      | none =>
          simp only [result_bind, result_tracedSpecial]
          cases t.special code with
          | some q =>
              dsimp only
              split
              · rfl
              · rfl
          | none => simp only [result_bind, result_tracedLookup, result_pure]

@[simp] theorem result_tracedProcessPS2KByteSequenceCode :
    (tracedProcessPS2KByteSequenceCode code s).result = processPS2KByteSequenceCode code s := by
  unfold tracedProcessPS2KByteSequenceCode processPS2KByteSequenceCode
  cases s.pCurrentSpecialSequence with
  | none => rfl
  | some q =>
      simp only [result_bind, result_access]
      split
      · rfl
      · split
        · rfl
        · rfl

@[simp] theorem result_tracedDecodeCode :
    (tracedDecodeCode code s).result = decodeCode code s := by
  unfold tracedDecodeCode decodeCode
  cases s.listeningMode with
  | tableCharacterLookup =>
      simp only [result_bind, result_pure, result_tracedProcessPS2KCodeByLookup]
  | byteSequence =>
      simp only [result_bind, result_pure, result_tracedProcessPS2KByteSequenceCode]

variable {s}

theorem within_tracedProcessPS2KCodeByLookup
    (hs : ∀ t, s.pCurrentSubScanCodeSetTable = some t → t.Sized) :
    (tracedProcessPS2KCodeByLookup code s).Within KeyboardAccess.InBounds := by
  unfold tracedProcessPS2KCodeByLookup
  cases htable : s.pCurrentSubScanCodeSetTable with
  | none => exact within_pure _
  | some t =>
      have ht := hs t htable
      dsimp only
      rw [within_bind_iff]
      refine ⟨within_tracedExtended code ht, ?_⟩
      cases (tracedExtended t code).result with
      | some t' => exact within_pure _
      | none =>
          dsimp only
          rw [within_bind_iff]
          refine ⟨within_tracedSpecial code ht, ?_⟩
          cases (tracedSpecial t code).result with
          | some q =>
              dsimp only
              split
              · exact within_pure _
              · exact within_pure _
          | none =>
              dsimp only
              rw [within_bind_iff]
              exact ⟨within_tracedLookup code ht, within_pure _⟩

theorem within_tracedProcessPS2KByteSequenceCode
    (hs : ∀ q, s.pCurrentSpecialSequence = some q →
      s.specialSequenceByteIndex < q.pSequence.length) :
    (tracedProcessPS2KByteSequenceCode code s).Within KeyboardAccess.InBounds := by
  unfold tracedProcessPS2KByteSequenceCode
  cases hsequence : s.pCurrentSpecialSequence with
  | none => exact within_pure _
  | some q =>
      dsimp only
      rw [within_bind_iff, within_access_iff]
      refine ⟨hs q hsequence, ?_⟩
      split
      · exact within_pure _
      · split
        · exact within_pure _
        · exact within_pure _

/-- A driver with a table or a position in a sequence whose sizes are right leaves none of the
arrays. -/
theorem within_tracedDecodeCode
    (htable : s.listeningMode = .tableCharacterLookup →
      ∀ t, s.pCurrentSubScanCodeSetTable = some t → t.Sized)
    (hsequence : s.listeningMode = .byteSequence →
      ∀ q, s.pCurrentSpecialSequence = some q →
        s.specialSequenceByteIndex < q.pSequence.length) :
    (tracedDecodeCode code s).Within KeyboardAccess.InBounds := by
  unfold tracedDecodeCode
  cases hmode : s.listeningMode with
  | tableCharacterLookup =>
      rw [within_bind_iff]
      exact ⟨within_tracedProcessPS2KCodeByLookup code (htable hmode), within_pure _⟩
  | byteSequence =>
      rw [within_bind_iff]
      exact ⟨within_tracedProcessPS2KByteSequenceCode code (hsequence hmode), within_pure _⟩

end Decoding

section Keys

variable (key : PS2KeyboardMapKey) (keyID : KeyID) (m : Machine)

def tracedUpdatePS2KeyboardKeyState (s : PS2KeyboardState) :
    Traced KeyboardAccess PS2KeyboardState :=
  if key.keyAction = .none then pure s
  else access (.keyState key.keyID) (updatePS2KeyboardKeyState key s)

/-- The keys whose states the cases of `UpdatePS2KeyboardModifierState` read. -/
def modifierReads : List KeyID :=
  if keyID = keyCapsLock ∨ keyID = keyNumLock ∨ keyID = keyScrollLock then [keyID]
  else if keyID = keyLeftShift ∨ keyID = keyRightShift then [keyLeftShift, keyRightShift]
  else if keyID = keyLeftControl ∨ keyID = keyRightControl then
    [keyLeftControl, keyRightControl]
  else if keyID = keyLeftAlt ∨ keyID = keyRightAlt then [keyID]
  else []

def tracedUpdatePS2KeyboardModifierState : Traced KeyboardAccess Machine := do
  tell ((modifierReads keyID).map .keyState)
  pure (updatePS2KeyboardModifierState keyID m)

def tracedProcessKeyToUnicodeCharacter : Traced KeyboardAccess Machine :=
  match m.state.pUnicodeTable with
  | none => pure m
  | some table =>
      if keyID = 0 ∨ keyID > keyMax then pure m
      else do
        let state ← access (.keyState keyID) (m.state.keyStates keyID)
        if state = .pressed ∨ state = .repeated then do
          let keyEntry ← access (.unicodeEntry keyID) (table keyID)
          let codepoint := keyCodepoint m.state keyEntry
          pure (if codepoint ≠ 0 then { m with shell := m.shell ++ [.characterEvent codepoint] }
            else m)
        else pure m

def tracedApplyKey : Traced KeyboardAccess Machine := do
  let s ← tracedUpdatePS2KeyboardKeyState key m.state
  let m ← tracedUpdatePS2KeyboardModifierState key.keyID
    { m with
      state := s
      applied := m.applied ++ [key] }
  let state ← access (.keyState key.keyID) (m.state.keyStates key.keyID)
  tracedProcessKeyToUnicodeCharacter key.keyID
    { m with shell := m.shell ++ [.keyEvent key.keyID state] }

@[simp] theorem result_tracedUpdatePS2KeyboardKeyState
    (s : PS2KeyboardState) :
    (tracedUpdatePS2KeyboardKeyState key s).result = updatePS2KeyboardKeyState key s := by
  unfold tracedUpdatePS2KeyboardKeyState
  split
  · rename_i hnone
    simp [updatePS2KeyboardKeyState, hnone, keyStateAfter]
  · rfl

@[simp] theorem result_tracedUpdatePS2KeyboardModifierState :
    (tracedUpdatePS2KeyboardModifierState keyID m).result =
      updatePS2KeyboardModifierState keyID m :=
  (rfl)

@[simp] theorem result_tracedProcessKeyToUnicodeCharacter :
    (tracedProcessKeyToUnicodeCharacter keyID m).result =
      processKeyToUnicodeCharacter keyID m := by
  unfold tracedProcessKeyToUnicodeCharacter processKeyToUnicodeCharacter
  cases m.state.pUnicodeTable with
  | none => rfl
  | some table =>
      dsimp only
      split
      · rfl
      · rw [result_bind, result_access]
        split
        · rfl
        · rfl

@[simp] theorem result_tracedApplyKey :
    (tracedApplyKey key m).result = applyKey key m := by
  simp only [tracedApplyKey, applyKey, result_bind, result_access,
    result_tracedUpdatePS2KeyboardKeyState, result_tracedUpdatePS2KeyboardModifierState,
    result_tracedProcessKeyToUnicodeCharacter]

theorem modifierReads_lt
    (hkey : keyID < keyMax) :
    ∀ other ∈ modifierReads keyID, other < keyMax := by
  have hshift : ∀ other ∈ [keyLeftShift, keyRightShift], other < keyMax := by
    simp [keyLeftShift, keyRightShift, keyMax]
  have hcontrol : ∀ other ∈ [keyLeftControl, keyRightControl], other < keyMax := by
    simp [keyLeftControl, keyRightControl, keyMax]
  have hself : ∀ other ∈ [keyID], other < keyMax := by
    simpa using hkey
  unfold modifierReads
  split
  · exact hself
  split
  · exact hshift
  split
  · exact hcontrol
  split
  · exact hself
  · exact fun other hother => absurd hother List.not_mem_nil

variable {key}

/-- A key below `keyMax` has a state and an entry in the layout. -/
theorem within_tracedApplyKey
    (hkey : key.keyID < keyMax) :
    (tracedApplyKey key m).Within KeyboardAccess.InBounds := by
  have hreads : ∀ made ∈ (modifierReads key.keyID).map KeyboardAccess.keyState,
      made.InBounds := by
    intro made hmade
    obtain ⟨other, hother, rfl⟩ := List.mem_map.mp hmade
    exact modifierReads_lt key.keyID hkey other hother
  unfold tracedApplyKey
  rw [within_bind_iff, within_bind_iff, within_bind_iff, within_access_iff]
  refine ⟨?_, ?_, hkey, ?_⟩
  · unfold tracedUpdatePS2KeyboardKeyState
    split
    · exact within_pure _
    · exact (within_access_iff _ _).mpr hkey
  · unfold tracedUpdatePS2KeyboardModifierState
    rw [within_bind_iff, within_tell_iff]
    exact ⟨hreads, within_pure _⟩
  · unfold tracedProcessKeyToUnicodeCharacter
    split
    · exact within_pure _
    split
    · exact within_pure _
    rw [within_bind_iff, within_access_iff]
    refine ⟨hkey, ?_⟩
    split
    · rw [within_bind_iff, within_access_iff]
      exact ⟨hkey, within_pure _⟩
    · exact within_pure _

end Keys

section Interrupt

/-- Responses of the keyboard use the command queue only. -/
def tracedProcessPS2KeyboardInterrupt (code : UInt8) (m : Machine) :
    Traced KeyboardAccess Machine :=
  if isResponse code then pure (processPS2KeyboardInterrupt code m)
  else do
    let r ← tracedDecodeCode code m.state
    match r.2 with
    | none => pure { m with state := r.1 }
    | some key => tracedApplyKey key { m with state := r.1 }

def tracedRunInterrupts (bytes : List UInt8) (m : Machine) : Traced KeyboardAccess Machine :=
  bytes.foldlM (fun m code => tracedProcessPS2KeyboardInterrupt code m) m

@[simp] theorem result_tracedProcessPS2KeyboardInterrupt
    (code : UInt8) (m : Machine) :
    (tracedProcessPS2KeyboardInterrupt code m).result = processPS2KeyboardInterrupt code m := by
  unfold tracedProcessPS2KeyboardInterrupt
  cases hcode : isResponse code with
  | true => rfl
  | false =>
      rw [if_neg Bool.false_ne_true, result_bind, result_tracedDecodeCode, interrupt_code hcode]
      cases (decodeCode code m.state).2 with
      | none => rfl
      | some key => exact result_tracedApplyKey key _

@[simp] theorem result_tracedRunInterrupts
    (bytes : List UInt8) (m : Machine) :
    (tracedRunInterrupts bytes m).result = runInterrupts bytes m :=
  result_foldlM (fun m code => result_tracedProcessPS2KeyboardInterrupt code m) bytes m

end Interrupt

end Keyboard
end DexprOS
