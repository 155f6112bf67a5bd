import DexprOS.Console

/-!
# Typing at the console

A keystroke presses a key, perhaps with a shift key held down, repeats it while it is held,
and releases it again.  What a user types is a sequence of keystrokes; what the keyboard sends
for it is their words of scan code set 2, with its responses anywhere between.  The shift codes
that some keyboards put around the words of the keys behind `E0` are no part of these words.

Main facts:
* `callsFrom_keystroke`: a keystroke gives its character once for each press, and leaves the
  modifiers as they were;
* `console_keystrokes`: the shell is where these characters take it, and no key is held down;
* `console_types_text`: every text of printable characters and newlines can be typed.
-/

namespace DexprOS
namespace Shell

open Kernel Keyboard

section Keystrokes

inductive ShiftKey where
  | left
  | right
deriving DecidableEq

def ShiftKey.key : ShiftKey → KeyID
  | left => keyLeftShift
  | right => keyRightShift

/-- The keys that change what other keys give. -/
def modifierKeys : List KeyID :=
  [keyLeftShift, keyRightShift, keyLeftControl, keyRightControl, keyLeftAlt, keyRightAlt,
    keyCapsLock, keyNumLock, keyScrollLock]

/-- A key by what the keyboard sends for it: one byte, a byte behind `E0`, or a sequence. -/
inductive KeyCode where
  | single (code : UInt8)
      (used : (tableEntry scanCode2SingleByteSet code).keyID ≠ 0)
  | extended (code : UInt8)
      (used : (tableEntry scanCode2TwoBytesSet code).keyID ≠ 0)
  | printScreen
  | pause

def KeyCode.key : KeyCode → KeyID
  | single code _ => (tableEntry scanCode2SingleByteSet code).keyID
  | extended code _ => (tableEntry scanCode2TwoBytesSet code).keyID
  | printScreen => keyPrintScreen
  | pause => keyPause

/-- A press of a key that is no modifier, with the typematic repeats while it is held. -/
structure Keystroke where
  code : KeyCode
  shift : Option ShiftKey
  repeats : Nat
  plain : code.key ∉ modifierKeys

def Keystroke.key (k : Keystroke) : KeyID :=
  k.code.key

/-- A property of all entries and of the empty one holds of what a code gives. -/
theorem tableEntry_rule
    {P : PS2KeyboardMapKey → Prop} (table : List PS2KeyboardMapKey)
    (hempty : P ⟨0, .none⟩) (hentries : ∀ key ∈ table, P key) (code : UInt8) :
    P (tableEntry table code) := by
  unfold tableEntry
  cases hentry : table[code.toNat]? with
  | none => exact hempty
  | some key => exact hentries key (List.mem_of_getElem? hentry)

/-- The used codes of a table that has one action only. -/
theorem tableEntry_used_eq
    {table : List PS2KeyboardMapKey} {action : PS2KeyboardKeyAction}
    (hentries : ∀ key ∈ table, key.keyID ≠ 0 → key.keyAction = action) {code : UInt8}
    (used : (tableEntry table code).keyID ≠ 0) :
    tableEntry table code = ⟨(tableEntry table code).keyID, action⟩ := by
  have haction := tableEntry_rule (P := fun key => key.keyID ≠ 0 → key.keyAction = action)
    table (fun hzero => absurd rfl hzero) hentries code used
  rw [← haction]

theorem keyID_tableEntry
    (table : List PS2KeyboardMapKey) (code : UInt8) :
    (tableEntry table code).keyID = (table.map (·.keyID))[code.toNat]?.getD 0 := by
  unfold tableEntry
  rw [List.getElem?_map]
  cases table[code.toNat]? with
  | none => rfl
  | some key => rfl

/-- Presses and releases have the same keys. -/
theorem keyID_singleByteRelease
    (code : UInt8) :
    (tableEntry scanCode2SingleByteReleaseSet code).keyID =
      (tableEntry scanCode2SingleByteSet code).keyID := by
  have hkeys : scanCode2SingleByteReleaseSet.map (·.keyID) =
      scanCode2SingleByteSet.map (·.keyID) := rfl
  rw [keyID_tableEntry, keyID_tableEntry, hkeys]

theorem keyID_twoBytesRelease
    (code : UInt8) :
    (tableEntry scanCode2TwoBytesReleaseSet code).keyID =
      (tableEntry scanCode2TwoBytesSet code).keyID := by
  have hkeys : scanCode2TwoBytesReleaseSet.map (·.keyID) =
      scanCode2TwoBytesSet.map (·.keyID) := rfl
  rw [keyID_tableEntry, keyID_tableEntry, hkeys]

def KeyCode.press : KeyCode → CodeWord
  | single code used => .press code used
  | extended code used => .extendedPress code used
  | printScreen => .printScreenPress
  | pause => .pause

/-- The word for Pause is its release too. -/
def KeyCode.release : KeyCode → List CodeWord
  | single code used => [.release code (keyID_singleByteRelease code ▸ used)]
  | extended code used => [.extendedRelease code (keyID_twoBytesRelease code ▸ used)]
  | printScreen => [.printScreenRelease]
  | pause => []

def KeyCode.pressAction : KeyCode → PS2KeyboardKeyAction
  | pause => .pressedReleased
  | _ => .pressed

def KeyCode.releaseKeys (code : KeyCode) : List PS2KeyboardMapKey :=
  match code with
  | pause => []
  | code => [⟨code.key, .released⟩]

theorem KeyCode.key_press
    (code : KeyCode) :
    code.press.key = ⟨code.key, code.pressAction⟩ := by
  have hsingle : ∀ key ∈ scanCode2SingleByteSet, key.keyID ≠ 0 → key.keyAction = .pressed := by
    decide +kernel
  have hextended : ∀ key ∈ scanCode2TwoBytesSet, key.keyID ≠ 0 → key.keyAction = .pressed := by
    decide +kernel
  cases code with
  | single code used => exact tableEntry_used_eq hsingle used
  | extended code used => exact tableEntry_used_eq hextended used
  | printScreen => rfl
  | pause => rfl

theorem KeyCode.map_key_release
    (code : KeyCode) :
    code.release.map CodeWord.key = code.releaseKeys := by
  have hsingle : ∀ key ∈ scanCode2SingleByteReleaseSet,
      key.keyID ≠ 0 → key.keyAction = .released := by
    decide +kernel
  have hextended : ∀ key ∈ scanCode2TwoBytesReleaseSet,
      key.keyID ≠ 0 → key.keyAction = .released := by
    decide +kernel
  cases code with
  | single code used =>
      have hkey := tableEntry_used_eq hsingle (keyID_singleByteRelease code ▸ used)
      rw [keyID_singleByteRelease] at hkey
      exact congrArg (fun key => [key]) hkey
  | extended code used =>
      have hkey := tableEntry_used_eq hextended (keyID_twoBytesRelease code ▸ used)
      rw [keyID_twoBytesRelease] at hkey
      exact congrArg (fun key => [key]) hkey
  | printScreen => rfl
  | pause => rfl

def ShiftKey.press : ShiftKey → CodeWord
  | left => .press 0x12 (by decide +kernel)
  | right => .press 0x59 (by decide +kernel)

def ShiftKey.release : ShiftKey → CodeWord
  | left => .release 0x12 (by decide +kernel)
  | right => .release 0x59 (by decide +kernel)

/-- The words that the keyboard sends for a keystroke. -/
def Keystroke.words (k : Keystroke) : List CodeWord :=
  k.shift.toList.map ShiftKey.press ++ List.replicate (k.repeats + 1) k.code.press ++
    k.code.release ++ k.shift.toList.map ShiftKey.release

def Keystroke.keys (k : Keystroke) : List PS2KeyboardMapKey :=
  k.shift.toList.map (fun shift => ⟨shift.key, .pressed⟩) ++
    List.replicate (k.repeats + 1) ⟨k.key, k.code.pressAction⟩ ++ k.code.releaseKeys ++
    k.shift.toList.map fun shift => ⟨shift.key, .released⟩

theorem map_key_words
    (k : Keystroke) :
    k.words.map CodeWord.key = k.keys := by
  have hshiftPress : CodeWord.key ∘ ShiftKey.press =
      fun shift : ShiftKey => ⟨shift.key, .pressed⟩ := by
    funext shift
    cases shift <;> rfl
  have hshiftRelease : CodeWord.key ∘ ShiftKey.release =
      fun shift : ShiftKey => ⟨shift.key, .released⟩ := by
    funext shift
    cases shift <;> rfl
  unfold Keystroke.words Keystroke.keys Keystroke.key
  simp only [List.map_append, List.map_map, List.map_replicate, k.code.key_press,
    k.code.map_key_release, hshiftPress, hshiftRelease]

/-- Of a machine in the middle of a run too, words are decoded one by one. -/
theorem runInterrupts_words
    {m : Machine} (hhome : AtPosition home m.state) (words : List CodeWord) {bytes : List UInt8}
    (hbytes : (bytes.filter fun b => !isResponse b) = words.flatMap CodeWord.bytes) :
    AtPosition home (runInterrupts bytes m).state ∧
      addedKeys bytes m = words.map CodeWord.key := by
  have hreads := WordDecoder.reads_words codeWord_spells words
  rw [← hbytes] at hreads
  obtain ⟨hat, hkeys⟩ := hreads.simulates (fun m code => processPS2KeyboardInterrupt code m)
    isResponse (fun p m => AtPosition p m.state) Machine.appliedKeys
    (fun _ _ _ => interrupt_ignored) (fun _ _ _ _ => interrupt_moved)
    (fun _ _ _ _ => interrupt_emits) hhome
  refine ⟨hat, List.append_cancel_left ((appliedKeys_run bytes m).symm.trans hkeys)⟩

end Keystrokes

section Reports

/-- The modifiers while a shift key is held, or none. -/
def typingModifiers (shift : Option ShiftKey) (capsLock numLock : Bool) : Modifiers where
  shift := shift.isSome
  control := false
  leftAlt := false
  rightAlt := false
  capsLock := capsLock
  numLock := numLock

/-- What a press of a key edits. -/
def pressEdits (mods : Modifiers) (keyID : KeyID) : List KeyboardEvent :=
  (if keyID = keyBackspace then [.key keyBackspace .pressed] else []) ++
    if mods.codepoint (getKeyboardLayoutUS keyID) = 0 then []
    else [.character (mods.codepoint (getKeyboardLayoutUS keyID))]

/-- What the calls of some keys edit. -/
def editsFrom (before keys : List PS2KeyboardMapKey) : List KeyboardEvent :=
  ((callsFrom (some getKeyboardLayoutUS) before keys).map callEvent).filterMap
    KeyboardEvent.edits

theorem editsFrom_append
    (before keys keys' : List PS2KeyboardMapKey) :
    editsFrom before (keys ++ keys') =
      editsFrom before keys ++ editsFrom (before ++ keys) keys' := by
  unfold editsFrom
  rw [callsFrom_append, List.map_append, List.filterMap_append]

/-- A key edits something while it is held down. -/
theorem editsFrom_singleton
    (before : List PS2KeyboardMapKey) (key : PS2KeyboardMapKey) :
    editsFrom before [key] =
      if keyStatesAfter (before ++ [key]) key.keyID = .released then []
      else pressEdits (modifiersAfter (before ++ [key])) key.keyID := by
  unfold editsFrom pressEdits
  rw [callsFrom_singleton]
  unfold callsOf characterCalls
  dsimp only
  generalize keyStatesAfter (before ++ [key]) key.keyID = state
  generalize (modifiersAfter (before ++ [key])).codepoint (getKeyboardLayoutUS key.keyID) =
    codepoint
  cases state <;> by_cases hbackspace : key.keyID = keyBackspace <;>
    by_cases hcodepoint : codepoint = 0 <;>
    simp [callEvent, KeyboardEvent.edits, hbackspace, hcodepoint]

theorem keyStatesAfter_concat
    (keys : List PS2KeyboardMapKey) (key : PS2KeyboardMapKey) :
    keyStatesAfter (keys ++ [key]) =
      Function.update (keyStatesAfter keys) key.keyID
        (keyStateAfter (keyStatesAfter keys key.keyID) key.keyAction) := by
  unfold keyStatesAfter
  rw [List.foldl_append]
  rfl

theorem lockedAfter_concat
    {l : PS2KLock} {key : PS2KeyboardMapKey} (hkey : key.keyID ≠ l.key)
    (keys : List PS2KeyboardMapKey) :
    lockedAfter (keys ++ [key]) l = lockedAfter keys l := by
  unfold lockedAfter lockActions
  rw [List.filter_append, List.filter_cons_of_neg (by simpa using hkey), List.filter_nil,
    List.append_nil]

/-- The states while a shift key is held, or none. -/
def shiftStates (shift : Option ShiftKey) (keyID : KeyID) : KeyState :=
  if shift.map ShiftKey.key = some keyID then .pressed else .released

/-- Behind the keys, nothing is held down but a shift key and one other key. -/
structure Held (shift : Option ShiftKey) (keyID : KeyID) (state : KeyState)
    (locked : PS2KLock → Bool) (keys : List PS2KeyboardMapKey) : Prop where
  states : keyStatesAfter keys = Function.update (shiftStates shift) keyID state
  locks : ∀ l, lockedAfter keys l = locked l

variable {shift : Option ShiftKey} {keyID : KeyID} {state : KeyState} {locked : PS2KLock → Bool}
variable {keys : List PS2KeyboardMapKey}

theorem shiftStates_plain
    (hplain : keyID ∉ modifierKeys) :
    shiftStates shift keyID = .released := by
  refine if_neg fun hshift => hplain ?_
  obtain ⟨key, -, rfl⟩ := Option.map_eq_some_iff.mp hshift
  cases key <;> simp [ShiftKey.key, modifierKeys]

theorem update_shiftStates
    (hplain : keyID ∉ modifierKeys) :
    Function.update (shiftStates shift) keyID .released = shiftStates shift := by
  rw [← shiftStates_plain hplain, Function.update_eq_self]

/-- The key that is typed does not count for the modifiers. -/
theorem Held.modifiers
    (hkeys : Held shift keyID state locked keys) (hplain : keyID ∉ modifierKeys) :
    modifiersAfter keys = typingModifiers shift (locked .caps) (locked .num) := by
  have hheld {modifier : KeyID} (hmem : modifier ∈ modifierKeys) :
      heldAfter keys modifier = (shiftStates shift modifier != .released) := by
    have hne : modifier ≠ keyID := fun heq => hplain (heq ▸ hmem)
    rw [heldAfter, hkeys.states, Function.update_of_ne hne]
  unfold modifiersAfter typingModifiers
  rw [hheld (by decide), hheld (by decide), hheld (by decide), hheld (by decide),
    hheld (by decide), hheld (by decide), hkeys.locks, hkeys.locks]
  rcases shift with _ | ⟨_ | _⟩ <;> rfl

theorem Held.concat
    (hkeys : Held shift keyID state locked keys) (hplain : keyID ∉ modifierKeys)
    (action : PS2KeyboardKeyAction) :
    Held shift keyID (keyStateAfter state action) locked (keys ++ [⟨keyID, action⟩]) := by
  refine ⟨?_, fun l => ?_⟩
  · rw [keyStatesAfter_concat, hkeys.states, Function.update_self, Function.update_idem]
  · have hlock : l.key ∈ modifierKeys := by
      cases l <;> decide
    have hne : keyID ≠ l.key := fun heq => hplain (heq ▸ hlock)
    rw [lockedAfter_concat hne, hkeys.locks]

/-- A key that is released as soon as it is pressed has no character. -/
theorem KeyCode.press_cases
    (code : KeyCode) (mods : Modifiers) :
    (∀ state, keyStateAfter state code.pressAction ≠ .released) ∨
      (∀ state, keyStateAfter state code.pressAction = .released) ∧
        pressEdits mods code.key = [] := by
  have hpressed : ∀ state, keyStateAfter state .pressed ≠ .released := by
    intro state
    cases state <;> decide
  cases code with
  | pause => exact Or.inr ⟨fun _ => rfl, rfl⟩
  | single code used => exact Or.inl hpressed
  | extended code used => exact Or.inl hpressed
  | printScreen => exact Or.inl hpressed

variable {code : KeyCode}

/-- One press. -/
theorem Held.press
    (hkeys : Held shift code.key state locked keys) (hplain : code.key ∉ modifierKeys) :
    editsFrom keys [⟨code.key, code.pressAction⟩] =
      pressEdits (typingModifiers shift (locked .caps) (locked .num)) code.key := by
  have hnext := hkeys.concat hplain code.pressAction
  rw [editsFrom_singleton, hnext.modifiers hplain, hnext.states, Function.update_self]
  rcases code.press_cases (typingModifiers shift (locked .caps) (locked .num)) with
    hheld | ⟨hreleased, hnone⟩
  · rw [if_neg (hheld state)]
  · rw [if_pos (hreleased state), hnone]

/-- The press and its repeats. -/
theorem Held.presses
    (hkeys : Held shift code.key state locked keys) (hplain : code.key ∉ modifierKeys)
    (n : Nat) :
    editsFrom keys (List.replicate n ⟨code.key, code.pressAction⟩) =
        (List.replicate n
          (pressEdits (typingModifiers shift (locked .caps) (locked .num)) code.key)).flatten ∧
      Held shift code.key ((fun state => keyStateAfter state code.pressAction)^[n] state) locked
        (keys ++ List.replicate n ⟨code.key, code.pressAction⟩) := by
  induction n generalizing state keys with
  | zero =>
      rw [List.replicate_zero, List.append_nil]
      exact ⟨rfl, hkeys⟩
  | succ n ih =>
      obtain ⟨hedits, hheld⟩ := ih (hkeys.concat hplain code.pressAction)
      rw [List.append_assoc] at hheld
      rw [List.replicate_succ, List.replicate_succ, List.flatten_cons]
      refine ⟨?_, hheld⟩
      have hcons := editsFrom_append keys [⟨code.key, code.pressAction⟩]
        (List.replicate n ⟨code.key, code.pressAction⟩)
      rw [hkeys.press hplain, hedits] at hcons
      exact hcons

/-- A release edits nothing. -/
theorem Held.release
    (hkeys : Held shift keyID state locked keys) (hplain : keyID ∉ modifierKeys) :
    editsFrom keys [⟨keyID, .released⟩] = [] ∧
      Held shift keyID .released locked (keys ++ [⟨keyID, .released⟩]) := by
  have hnext := hkeys.concat hplain .released
  have hstate : keyStateAfter state .released = .released := rfl
  rw [hstate] at hnext
  refine ⟨?_, hnext⟩
  rw [editsFrom_singleton, hnext.states, Function.update_self, if_pos rfl]

/-- Behind the presses, the key is released, or has been already. -/
theorem Held.releases
    {n : Nat}
    (hkeys : Held shift code.key ((fun state => keyStateAfter state code.pressAction)^[n] .released)
      locked keys)
    (hplain : code.key ∉ modifierKeys) :
    editsFrom keys code.releaseKeys = [] ∧
      Held shift code.key .released locked (keys ++ code.releaseKeys) := by
  cases code with
  | pause =>
      have hstate : (fun state => keyStateAfter state .pressedReleased)^[n] .released =
          KeyState.released :=
        Function.iterate_fixed rfl n
      rw [KeyCode.releaseKeys, List.append_nil]
      exact ⟨rfl, hstate ▸ hkeys⟩
  | single code used => exact hkeys.release hplain
  | extended code used => exact hkeys.release hplain
  | printScreen => exact hkeys.release hplain

/-- The shift keys have no characters. -/
theorem pressEdits_shift
    (mods : Modifiers) (shift : ShiftKey) :
    pressEdits mods shift.key = [] := by
  cases shift <;> rfl

theorem editsFrom_shift
    (keys : List PS2KeyboardMapKey) (shift : ShiftKey) (action : PS2KeyboardKeyAction) :
    editsFrom keys [⟨shift.key, action⟩] = [] := by
  rw [editsFrom_singleton, pressEdits_shift]
  split <;> rfl

/-- Nothing is held down behind the keys. -/
def Idle (keys : List PS2KeyboardMapKey) : Prop :=
  keyStatesAfter keys = fun _ => .released

theorem ShiftKey.concat
    (shift : ShiftKey) (action : PS2KeyboardKeyAction) (keys : List PS2KeyboardMapKey)
    (l : PS2KLock) :
    lockedAfter (keys ++ [⟨shift.key, action⟩]) l = lockedAfter keys l := by
  have hne : shift.key ≠ l.key := by
    cases shift <;> cases l <;> decide
  exact lockedAfter_concat hne keys

/-- A shift key is pressed first, if there is one. -/
theorem held_shiftPress
    (hidle : Idle keys) (hplain : keyID ∉ modifierKeys) (shift : Option ShiftKey) :
    Held shift keyID .released (lockedAfter keys)
      (keys ++ shift.toList.map fun shift => ⟨shift.key, .pressed⟩) := by
  cases shift with
  | none =>
      rw [Option.toList_none, List.map_nil, List.append_nil]
      refine ⟨?_, fun _ => rfl⟩
      rw [update_shiftStates hplain, hidle]
      rfl
  | some shift =>
      rw [Option.toList_some, List.map_singleton]
      refine ⟨?_, shift.concat _ keys⟩
      rw [update_shiftStates hplain, keyStatesAfter_concat, hidle]
      funext other
      by_cases hother : other = shift.key
      · simp [shiftStates, hother, keyStateAfter]
      · simp [shiftStates, hother, Ne.symm hother]

/-- And released last. -/
theorem idle_shiftRelease
    {shift : Option ShiftKey} (hkeys : Held shift keyID .released locked keys)
    (hplain : keyID ∉ modifierKeys) :
    Idle (keys ++ shift.toList.map fun shift => ⟨shift.key, .released⟩) := by
  have hstates := hkeys.states
  rw [update_shiftStates hplain] at hstates
  cases shift with
  | none =>
      rw [Option.toList_none, List.map_nil, List.append_nil]
      exact hstates
  | some shift =>
      rw [Option.toList_some, List.map_singleton, Idle, keyStatesAfter_concat, hstates]
      funext other
      by_cases hother : other = shift.key
      · simp [hother, keyStateAfter]
      · simp [shiftStates, hother, Ne.symm hother]

/-- What a keystroke edits. -/
def Keystroke.edits (capsLock numLock : Bool) (k : Keystroke) : List KeyboardEvent :=
  (List.replicate (k.repeats + 1)
    (pressEdits (typingModifiers k.shift capsLock numLock) k.key)).flatten

/-- A keystroke gives its character once for each press, and leaves everything released and
the locks as they were. -/
theorem callsFrom_keystroke
    (hidle : Idle keys) (k : Keystroke) :
    editsFrom keys k.keys = k.edits (lockedAfter keys .caps) (lockedAfter keys .num) ∧
      Idle (keys ++ k.keys) ∧
      lockedAfter (keys ++ k.keys) = lockedAfter keys := by
  have hshift := held_shiftPress hidle k.plain k.shift
  obtain ⟨hpresses, hheld⟩ := hshift.presses k.plain (k.repeats + 1)
  obtain ⟨hrelease, hreleased⟩ := hheld.releases k.plain
  have hsilent (before : List PS2KeyboardMapKey) (action : PS2KeyboardKeyAction) :
      editsFrom before (k.shift.toList.map fun shift => ⟨shift.key, action⟩) = [] := by
    cases k.shift with
    | none => rfl
    | some shift => exact editsFrom_shift before shift action
  have hlocks (l : PS2KLock) (before : List PS2KeyboardMapKey) :
      lockedAfter (before ++ k.shift.toList.map fun shift => ⟨shift.key, .released⟩) l =
        lockedAfter before l := by
    cases k.shift with
    | none => rw [Option.toList_none, List.map_nil, List.append_nil]
    | some shift => exact shift.concat _ before l
  unfold Keystroke.keys Keystroke.edits Keystroke.key
  refine ⟨?_, ?_, funext fun l => ?_⟩
  · rw [editsFrom_append, editsFrom_append, editsFrom_append, hsilent, hsilent, hpresses,
      ← List.append_assoc, hrelease, List.append_nil, List.append_nil, List.nil_append]
  · simp only [← List.append_assoc]
    exact idle_shiftRelease hreleased k.plain
  · simp only [← List.append_assoc]
    rw [hlocks, hreleased.locks]

/-- Keystrokes are typed one after another. -/
theorem callsFrom_keystrokes
    (hidle : Idle keys) (strokes : List Keystroke) :
    editsFrom keys (strokes.flatMap Keystroke.keys) =
        strokes.flatMap (Keystroke.edits (lockedAfter keys .caps) (lockedAfter keys .num)) ∧
      Idle (keys ++ strokes.flatMap Keystroke.keys) ∧
      lockedAfter (keys ++ strokes.flatMap Keystroke.keys) = lockedAfter keys := by
  induction strokes generalizing keys with
  | nil =>
      rw [List.flatMap_nil, List.flatMap_nil, List.append_nil]
      exact ⟨rfl, hidle, rfl⟩
  | cons k strokes ih =>
      obtain ⟨hedits, hidle', hlocks⟩ := callsFrom_keystroke hidle k
      obtain ⟨hrest, hidle'', hlocks'⟩ := ih hidle'
      rw [List.flatMap_cons, List.flatMap_cons, editsFrom_append, hedits, hrest, hlocks,
        ← List.append_assoc]
      exact ⟨rfl, hidle'', hlocks'.trans hlocks⟩

end Reports

section Console

variable (font : BitmapFont)

/-- No key is held down and no code is unfinished. -/
structure Console.AtRest (c : Console) : Prop where
  home : AtPosition home c.keyboard.state
  released : Idle c.keyboard.appliedKeys

theorem interruptBytes_map
    (bytes : List UInt8) :
    interruptBytes (bytes.map .interrupt) = bytes := by
  unfold interruptBytes
  rw [List.filterMap_map]
  exact List.filterMap_some

/-- The keys of the keystrokes are applied, and the driver is home again. -/
theorem keyboard_keystrokes
    {c : Console} (hrest : c.AtRest) (strokes : List Keystroke) {bytes : List UInt8}
    (hbytes : (bytes.filter fun b => !isResponse b) =
      strokes.flatMap fun k => k.words.flatMap CodeWord.bytes) :
    addedKeys bytes c.keyboard = strokes.flatMap Keystroke.keys ∧
      AtPosition home (runInterrupts bytes c.keyboard).state := by
  have hwords : (bytes.filter fun b => !isResponse b) =
      (strokes.flatMap Keystroke.words).flatMap CodeWord.bytes := by
    rw [hbytes, List.flatMap_assoc]
  have hkeys : (strokes.flatMap Keystroke.words).map CodeWord.key =
      strokes.flatMap Keystroke.keys := by
    rw [List.map_flatMap]
    exact congrArg (strokes.flatMap ·) (funext map_key_words)
  obtain ⟨hhome, hadded⟩ := runInterrupts_words hrest.home _ hwords
  exact ⟨hadded.trans hkeys, hhome⟩

theorem shell_keystrokes
    {c : Console} (hkeyboard : CallsInvariant (some getKeyboardLayoutUS) c.keyboard)
    (hrest : c.AtRest) (strokes : List Keystroke) {bytes : List UInt8}
    (hbytes : (bytes.filter fun b => !isResponse b) =
      strokes.flatMap fun k => k.words.flatMap CodeWord.bytes) :
    (runConsole font (bytes.map .interrupt) c).shell =
      runKeyboard font
        (strokes.flatMap (Keystroke.edits (lockedAfter c.keyboard.appliedKeys .caps)
          (lockedAfter c.keyboard.appliedKeys .num)))
        c.shell := by
  rw [runConsole_interrupts, ← runKeyboard_edits, addedEvents_edits hkeyboard,
    (keyboard_keystrokes hrest strokes hbytes).1,
    ← (callsFrom_keystrokes hrest.released strokes).1]
  rfl

/-- Behind keystrokes nothing is held down, and the locks are as before. -/
theorem atRest_keystrokes
    {c : Console} (hrest : c.AtRest) (strokes : List Keystroke) {bytes : List UInt8}
    (hbytes : (bytes.filter fun b => !isResponse b) =
      strokes.flatMap fun k => k.words.flatMap CodeWord.bytes) :
    (runConsole font (bytes.map .interrupt) c).AtRest ∧
      lockedAfter (runConsole font (bytes.map .interrupt) c).keyboard.appliedKeys =
        lockedAfter c.keyboard.appliedKeys := by
  obtain ⟨hadded, hhome⟩ := keyboard_keystrokes hrest strokes hbytes
  obtain ⟨-, hidle, hlocks⟩ := callsFrom_keystrokes hrest.released strokes
  have hkeyboard : (runConsole font (bytes.map .interrupt) c).keyboard =
      runInterrupts bytes c.keyboard := by
    rw [runConsole_keyboard, interruptBytes_map]
  have happlied : (runConsole font (bytes.map .interrupt) c).keyboard.appliedKeys =
      c.keyboard.appliedKeys ++ strokes.flatMap Keystroke.keys := by
    rw [hkeyboard, appliedKeys_run, hadded]
  refine ⟨⟨?_, ?_⟩, ?_⟩
  · rw [hkeyboard]
    exact hhome
  · rw [happlied]
    exact hidle
  · rw [happlied, hlocks]

/-- Typing at the console.  At any moment when no key is held down, with the locks on or off,
let any sequence of keystrokes come in, each with a shift key or without, repeated as often as
it may be, and with the keyboard's responses anywhere between their bytes.  The shell gets to
where the keystrokes' characters and backspaces take it, and to nowhere else; no key is held
down again, and the locks are as before. -/
theorem console_keystrokes
    (consoleWidth consoleHeight : UInt32) (steps : List ConsoleStep)
    (hrest : (runConsole font steps (initialConsole font consoleWidth consoleHeight)).AtRest)
    (strokes : List Keystroke) (bytes : List UInt8)
    (hbytes : (bytes.filter fun b => !isResponse b) =
      strokes.flatMap fun k => k.words.flatMap CodeWord.bytes) :
    let c := runConsole font steps (initialConsole font consoleWidth consoleHeight)
    let c' := runConsole font (bytes.map .interrupt) c
    c'.shell =
        runKeyboard font
          (strokes.flatMap (Keystroke.edits (c.keyboard.state.lockActive .caps)
            (c.keyboard.state.lockActive .num)))
          c.shell ∧
      c'.AtRest ∧
      ∀ l, c'.keyboard.state.lockActive l = c.keyboard.state.lockActive l := by
  intro c c'
  have hkeyboard : CallsInvariant (some getKeyboardLayoutUS) c.keyboard :=
    runConsole_callsInvariant font consoleWidth consoleHeight steps
  have hkeyboard' : CallsInvariant (some getKeyboardLayoutUS) c'.keyboard := by
    rw [show c' = _ from (runConsole_append font steps (bytes.map .interrupt) _).symm]
    exact runConsole_callsInvariant font consoleWidth consoleHeight _
  obtain ⟨hrest', hlocks⟩ := atRest_keystrokes font hrest strokes hbytes
  refine ⟨?_, hrest', fun l => ?_⟩
  · rw [hkeyboard.lockActive_eq, hkeyboard.lockActive_eq]
    exact shell_keystrokes font hkeyboard hrest strokes hbytes
  · rw [hkeyboard.lockActive_eq, hkeyboard'.lockActive_eq]
    exact congrFun hlocks l

theorem atRest_promptConsole
    (consoleWidth consoleHeight : UInt32) :
    (promptConsole font consoleWidth consoleHeight []).AtRest :=
  ⟨SameDecoder.atPosition (SameDecoder.of_keyView (push_keyView _ _ _)) ⟨rfl, rfl, rfl⟩, rfl⟩

def strokeA (shift : Option ShiftKey) (repeats : Nat) : Keystroke where
  code := .single 0x1C (by decide +kernel)
  shift := shift
  repeats := repeats
  plain := by decide +kernel

/-- Enter on the number pad, and Pause. -/
def longStrokes : List Keystroke :=
  [⟨.extended 0x5A (by decide +kernel), none, 0, by decide +kernel⟩,
    ⟨.pause, none, 0, by decide +kernel⟩]

/-- Behind an a on the prompt line, the key is held down with a shift key until it repeats;
Enter on the number pad and Pause follow, and responses come in between. -/
theorem console_keystrokes_mixed :
    let c := runConsole blankFont [.call .activatePrompt, .interrupt 0x1C, .interrupt 0xF0,
      .interrupt 0x1C] (initialConsole blankFont 900 600)
    let c' := runConsole blankFont
      ([0x59, 0x1C, 0xFA, 0x1C, 0xF0, 0xFA, 0x1C, 0xF0, 0x59, 0xE0, 0x5A, 0xE0, 0xF0, 0x5A,
        0xE1, 0x14, 0x77, 0xE1, 0xF0, 0x14, 0xF0, 0x77].map .interrupt) c
    c'.shell =
        runKeyboard blankFont [.character 65, .character 65, .character 10] c.shell ∧
      c'.AtRest ∧
      ∀ l, c'.keyboard.state.lockActive l = c.keyboard.state.lockActive l := by
  have hrest : (runConsole blankFont ([0x1C, 0xF0, 0x1C].map .interrupt)
      (promptConsole blankFont 900 600 [])).AtRest :=
    (atRest_keystrokes blankFont (atRest_promptConsole blankFont 900 600) [strokeA none 0]
      (by decide +kernel)).1
  exact console_keystrokes blankFont 900 600 _ hrest (strokeA (some .right) 1 :: longStrokes) _
    (by decide +kernel)

end Console

section Text

/-- The keystroke of a code, if the code has a key that is neither a modifier nor on the
number pad. -/
def keystrokeOf (shift : Option ShiftKey) (code : UInt8) : Option Keystroke :=
  if used : (tableEntry scanCode2SingleByteSet code).keyID ≠ 0 then
    if h : (KeyCode.single code used).key ∉ modifierKeys ∧
        (getKeyboardLayoutUS (KeyCode.single code used).key).conversionType ≠ .numberpad then
      some ⟨.single code used, shift, 0, h.1⟩
    else none
  else none

/-- The keystroke gives the character, and nothing else. -/
def Keystroke.types (capsLock : Bool) (codepoint : UInt32) (k : Keystroke) : Bool :=
  k.key != keyBackspace &&
    (typingModifiers k.shift capsLock false).codepoint (getKeyboardLayoutUS k.key) == codepoint

/-- The caps of a US keyboard: the code of a key, and its characters without and with
Shift. -/
def keyCapsUS : List (UInt8 × UInt32 × UInt32) :=
  [(0x0E, 96, 126), (0x16, 49, 33), (0x1E, 50, 64), (0x26, 51, 35), (0x25, 52, 36),
    (0x2E, 53, 37), (0x36, 54, 94), (0x3D, 55, 38), (0x3E, 56, 42), (0x46, 57, 40),
    (0x45, 48, 41), (0x4E, 45, 95), (0x55, 61, 43), (0x15, 113, 81), (0x1D, 119, 87),
    (0x24, 101, 69), (0x2D, 114, 82), (0x2C, 116, 84), (0x35, 121, 89), (0x3C, 117, 85),
    (0x43, 105, 73), (0x44, 111, 79), (0x4D, 112, 80), (0x54, 91, 123), (0x5B, 93, 125),
    (0x5D, 92, 124), (0x1C, 97, 65), (0x1B, 115, 83), (0x23, 100, 68), (0x2B, 102, 70),
    (0x34, 103, 71), (0x33, 104, 72), (0x3B, 106, 74), (0x42, 107, 75), (0x4B, 108, 76),
    (0x4C, 59, 58), (0x52, 39, 34), (0x1A, 122, 90), (0x22, 120, 88), (0x21, 99, 67),
    (0x2A, 118, 86), (0x32, 98, 66), (0x31, 110, 78), (0x3A, 109, 77), (0x41, 44, 60),
    (0x49, 46, 62), (0x4A, 47, 63), (0x29, 32, 32), (0x5A, 10, 10)]

/-- The key with this character on its cap, pressed with or without the left Shift key. -/
def keystrokeUS (capsLock : Bool) (codepoint : UInt32) : Option Keystroke :=
  keyCapsUS.findSome? fun cap =>
    if codepoint = cap.2.1 ∨ codepoint = cap.2.2 then
      [none, some ShiftKey.left].findSome? fun shift =>
        (keystrokeOf shift cap.1).filter (Keystroke.types capsLock codepoint)
    else none

/-- Off the number pad Num Lock makes no difference. -/
theorem codepoint_numLock
    {e : KeyToUnicodeEntry} (he : e.conversionType ≠ .numberpad) (shift : Option ShiftKey)
    (capsLock numLock : Bool) :
    (typingModifiers shift capsLock numLock).codepoint e =
      (typingModifiers shift capsLock false).codepoint e := by
  rcases e with ⟨conversionType, standardCode, upperCaseCode, altGrCode, altGrUpperCaseCode⟩
  cases conversionType with
  | numberpad => exact absurd rfl he
  | invalid => rfl
  | capsLockAffected => rfl
  | capsLockUnaffected => rfl
  | enter => rfl

theorem keystrokeUS_edits
    {capsLock : Bool} {codepoint : UInt32} {k : Keystroke}
    (hk : keystrokeUS capsLock codepoint = some k) (hne : codepoint ≠ 0) (numLock : Bool) :
    k.edits capsLock numLock = [.character codepoint] := by
  unfold keystrokeUS at hk
  obtain ⟨cap, -, hcap⟩ := List.exists_of_findSome?_eq_some hk
  rw [Option.ite_none_right_eq_some] at hcap
  obtain ⟨shift, -, hshift⟩ := List.exists_of_findSome?_eq_some hcap.2
  rw [Option.filter_eq_some_iff] at hshift
  obtain ⟨hstroke, htypes⟩ := hshift
  unfold keystrokeOf at hstroke
  split at hstroke
  case isFalse => cases hstroke
  split at hstroke
  case isFalse => cases hstroke
  case isTrue used hplain =>
    obtain rfl := Option.some.inj hstroke
    simp only [Keystroke.types, Bool.and_eq_true, bne_iff_ne, beq_iff_eq] at htypes
    have hcodepoint := (codepoint_numLock hplain.2 shift capsLock numLock).trans htypes.2
    unfold Keystroke.edits pressEdits
    dsimp only
    rw [if_neg htypes.1, show Keystroke.key _ = (KeyCode.single _ used).key from rfl, hcodepoint,
      if_neg hne]
    rfl

/-- Every printable ASCII character and the newline has a keystroke. -/
theorem keystrokeUS_isSome
    (capsLock : Bool) {codepoint : UInt32} (hcodepoint : Typable codepoint) :
    ∃ k, keystrokeUS capsLock codepoint = some k := by
  have hall : ∀ n < 127, Typable n.toUInt32 →
      ((keystrokeUS false n.toUInt32).isSome && (keystrokeUS true n.toUInt32).isSome) = true := by
    decide +kernel
  have hlt : codepoint.toNat < 127 := by
    rcases hcodepoint with rfl | ⟨-, hle⟩
    · decide
    · exact Nat.lt_succ_of_le (UInt32.le_iff_toNat_le.mp hle)
  have hboth := hall codepoint.toNat hlt (by rwa [Nat.toUInt32_eq, UInt32.ofNat_toNat])
  rw [Nat.toUInt32_eq, UInt32.ofNat_toNat, Bool.and_eq_true] at hboth
  cases capsLock with
  | false => exact Option.isSome_iff_exists.mp hboth.1
  | true => exact Option.isSome_iff_exists.mp hboth.2

/-- The bytes that the keyboard sends for a text. -/
def typeText (capsLock : Bool) (characters : List UInt32) : List UInt8 :=
  characters.flatMap fun codepoint =>
    (keystrokeUS capsLock codepoint).elim [] fun k => k.words.flatMap CodeWord.bytes

theorem typeText_keystrokes
    (capsLock : Bool) {characters : List UInt32}
    (hcharacters : ∀ codepoint ∈ characters, Typable codepoint) :
    ∃ strokes : List Keystroke,
      typeText capsLock characters = strokes.flatMap (fun k => k.words.flatMap CodeWord.bytes) ∧
        ∀ numLock, strokes.flatMap (Keystroke.edits capsLock numLock) =
          characters.map .character := by
  induction characters with
  | nil => exact ⟨[], rfl, fun _ => rfl⟩
  | cons codepoint characters ih =>
      obtain ⟨strokes, hbytes, hedits⟩ :=
        ih fun other hother => hcharacters other (List.mem_cons_of_mem _ hother)
      have hcodepoint := hcharacters codepoint List.mem_cons_self
      obtain ⟨k, hk⟩ := keystrokeUS_isSome capsLock hcodepoint
      refine ⟨k :: strokes, ?_, fun numLock => ?_⟩
      · rw [typeText, List.flatMap_cons, hk, ← typeText, hbytes]
        rfl
      · rw [List.flatMap_cons, keystrokeUS_edits hk hcodepoint.ne_zero, hedits]
        rfl

variable (font : BitmapFont)

theorem shell_typeText
    {c : Console} (hkeyboard : CallsInvariant (some getKeyboardLayoutUS) c.keyboard)
    (hrest : c.AtRest) {characters : List UInt32}
    (hcharacters : ∀ codepoint ∈ characters, Typable codepoint) {bytes : List UInt8}
    (hbytes : (bytes.filter fun b => !isResponse b) =
      typeText (lockedAfter c.keyboard.appliedKeys .caps) characters) :
    (runConsole font (bytes.map .interrupt) c).shell =
      runKeyboard font (characters.map .character) c.shell := by
  obtain ⟨strokes, hstrokes, hedits⟩ := typeText_keystrokes
    (lockedAfter c.keyboard.appliedKeys .caps) hcharacters
  rw [shell_keystrokes font hkeyboard hrest strokes (hbytes.trans hstrokes), hedits]

/-- Every text can be typed: at the prompt, with no key held down and whether Caps Lock is on
or off, there are bytes of the keyboard for each text of printable ASCII characters and
newlines, and the shell gets exactly the text, wherever the keyboard's responses come between
the bytes. -/
theorem console_types_text
    (consoleWidth consoleHeight : UInt32) (steps : List ConsoleStep)
    (hrest : (promptConsole font consoleWidth consoleHeight steps).AtRest)
    (characters : List UInt32) (hcharacters : ∀ codepoint ∈ characters, Typable codepoint)
    (bytes : List UInt8)
    (hbytes : (bytes.filter fun b => !isResponse b) = typeText
      (lockedAfter (promptConsole font consoleWidth consoleHeight steps).keyboard.appliedKeys
        .caps)
      characters) :
    let atPrompt := promptConsole font consoleWidth consoleHeight steps
    (runConsole font (bytes.map .interrupt) atPrompt).shell =
      runKeyboard font (characters.map .character) atPrompt.shell :=
  shell_typeText font (promptConsole_keyboard font consoleWidth consoleHeight steps) hrest
    hcharacters hbytes

/-- A capital letter and a digit are typed. -/
theorem console_types_text_mixed :
    (runConsole blankFont
      ([0x12, 0x33, 0xF0, 0xFA, 0x33, 0xF0, 0x12, 0x16, 0xF0, 0x16].map .interrupt)
      (promptConsole blankFont 900 600 [])).shell =
      runKeyboard blankFont [.character 72, .character 49]
        (promptConsole blankFont 900 600 []).shell := by
  have hcharacters : ∀ codepoint ∈ [(72 : UInt32), 49], Typable codepoint :=
    typable_of_all (by decide +kernel)
  exact console_types_text blankFont 900 600 [] (atRest_promptConsole blankFont 900 600) [72, 49]
    hcharacters _ (by decide +kernel)

end Text

end Shell
end DexprOS
