import DexprOS.Shell
import Mathlib.Data.List.TakeWhile

/-!
# The display ring as a log

Whatever is printed, deleted and cleared, the display ring holds the newest characters
of a plain list.

Main facts:
* `storeDisplayChars_eq_foldl`: the local copies of the ring's indices that the output
  functions work on make no difference;
* `shellPuts_eq_foldl`, `shellPutsUTF32_eq_foldl`: a message is its characters one by
  one;
* `runDisplayOps_log`: the ring refines the log.
-/

namespace DexprOS
namespace Shell

open Kernel

section Log

/-- The characters from the start of the ring up to its end. -/
def ShellState.log (s : ShellState) : List UInt32 :=
  Ring.contents numMaxDisplayCharacters s.displayCharacters s.displayRingBufferStart
    s.displayRingBufferEnd

/-- All three indices lie inside of the array. -/
structure ShellState.IndicesInRange (s : ShellState) : Prop where
  start_lt : s.displayRingBufferStart < numMaxDisplayCharacters
  end_lt : s.displayRingBufferEnd < numMaxDisplayCharacters
  first_lt : s.firstDisplayChar < numMaxDisplayCharacters

/-- The reference for one stored character. -/
def appendToLog (log : List UInt32) (character : UInt32) : List UInt32 :=
  Ring.append (numMaxDisplayCharacters - 1) log character

theorem IndicesInRange_createShell
    (font : BitmapFont) (consoleWidth consoleHeight : UInt32) :
    (createShell font consoleWidth consoleHeight).IndicesInRange := by
  constructor <;> exact Nat.zero_lt_succ _

theorem log_createShell
    (font : BitmapFont) (consoleWidth consoleHeight : UInt32) :
    (createShell font consoleWidth consoleHeight).log = [] := by
  show Ring.contents numMaxDisplayCharacters _ 0 0 = []
  rw [Ring.contents, Ring.indices_self (by decide), List.map_nil]

end Log

section Store

/-- The loop does not read the indices that the state keeps. -/
theorem foldl_storeDisplayChar_update
    (characters : List UInt32) (s : ShellState) (start' end' bufferStart currentChar : Nat) :
    characters.foldl storeDisplayChar
        ({ s with displayRingBufferStart := start', displayRingBufferEnd := end' },
          bufferStart, currentChar) =
      let r := characters.foldl storeDisplayChar (s, bufferStart, currentChar)
      ({ r.1 with displayRingBufferStart := start', displayRingBufferEnd := end' }, r.2) := by
  induction characters generalizing s bufferStart currentChar with
  | nil =>
      rfl
  | cons c characters ih =>
      simp only [List.foldl_cons]
      exact ih (storeDisplayChar (s, bufferStart, currentChar) c).1 _ _

theorem storeDisplayChars_nil
    (s : ShellState) :
    storeDisplayChars [] s = s :=
  rfl

theorem storeDisplayChars_cons
    (c : UInt32) (characters : List UInt32) (s : ShellState) :
    storeDisplayChars (c :: characters) s =
      storeDisplayChars characters (storeDisplayChars [c] s) := by
  let writeBack (r : ShellState × Nat × Nat) : ShellState :=
    { r.1 with displayRingBufferStart := r.2.1, displayRingBufferEnd := r.2.2 }
  let r := storeDisplayChar (s, s.displayRingBufferStart, s.displayRingBufferEnd) c
  have hloop := foldl_storeDisplayChar_update characters r.1 r.2.1 r.2.2 r.2.1 r.2.2
  calc
    storeDisplayChars (c :: characters) s
        = writeBack (characters.foldl storeDisplayChar (r.1, r.2.1, r.2.2)) := rfl
    _ = storeDisplayChars characters (writeBack r) := (congrArg writeBack hloop).symm

/-- Storing a message is storing its characters one by one. -/
theorem storeDisplayChars_eq_foldl
    (characters : List UInt32) (s : ShellState) :
    storeDisplayChars characters s =
      characters.foldl (fun s c => storeDisplayChars [c] s) s := by
  induction characters generalizing s with
  | nil =>
      rfl
  | cons c characters ih =>
      rw [storeDisplayChars_cons, ih, List.foldl_cons]

theorem storeDisplayChars_eq_shellPutChar
    {characters : List UInt32}
    (hcharacters : ∀ c ∈ characters, c ≠ 0) (s : ShellState) :
    storeDisplayChars characters s = characters.foldl (fun s c => shellPutChar c s) s := by
  rw [storeDisplayChars_eq_foldl]
  refine List.foldl_ext _ _ _ fun s c hc => ?_
  rw [shellPutChar, if_neg (hcharacters c hc)]

theorem toShellChar_ne_zero
    {c : UInt8}
    (hc : c ≠ 0) :
    toShellChar c ≠ 0 := by
  have hall : ∀ n : Fin 256, n ≠ 0 → toShellChar (UInt8.ofFin n) ≠ 0 := by
    decide +kernel
  refine hall c.toFin fun h => hc ?_
  exact UInt8.toFin_inj.mp h

theorem messageCharacters_ne_zero
    {msg : List UInt8} {c : UInt32}
    (hc : c ∈ messageCharacters msg) :
    c ≠ 0 := by
  obtain ⟨b, hb, rfl⟩ := List.mem_map.mp hc
  have hb := List.mem_takeWhile_imp hb
  exact toShellChar_ne_zero (by simpa using hb)

theorem shellPuts_eq_foldl
    (msg : List UInt8) (s : ShellState) :
    shellPuts (some msg) s =
      (messageCharacters msg).foldl (fun s c => shellPutChar c s) s :=
  storeDisplayChars_eq_shellPutChar (fun _ => messageCharacters_ne_zero) s

theorem shellPutsUTF32_eq_foldl
    (msg : List UInt32) (s : ShellState) :
    shellPutsUTF32 (some msg) s =
      (msg.takeWhile (· ≠ 0)).foldl (fun s c => shellPutChar c s) s :=
  storeDisplayChars_eq_shellPutChar
    (fun _ hc => by simpa using List.mem_takeWhile_imp hc) s

end Store

section Step

variable {s : ShellState}

theorem IndicesInRange_store
    (hrange : s.IndicesInRange) (c : UInt32) :
    (storeDisplayChars [c] s).IndicesInRange := by
  have hlt (i : Nat) : (i + 1) % numMaxDisplayCharacters < numMaxDisplayCharacters :=
    Nat.mod_lt _ (by decide)
  refine ⟨?_, hlt _, ?_⟩
  · show (if _ then _ else _) < _
    split
    · exact hlt _
    · exact hrange.start_lt
  · show (if _ then _ else _) < _
    split
    · exact hlt _
    · exact hrange.first_lt

theorem log_store
    (hrange : s.IndicesInRange) (c : UInt32) :
    (storeDisplayChars [c] s).log = appendToLog s.log c :=
  Ring.contents_append (by decide) hrange.start_lt hrange.end_lt

theorem IndicesInRange_putChar
    (hrange : s.IndicesInRange) (c : UInt32) :
    (shellPutChar c s).IndicesInRange := by
  unfold shellPutChar
  split
  · exact hrange
  · exact IndicesInRange_store hrange c

theorem log_putChar
    (hrange : s.IndicesInRange) (c : UInt32) :
    (shellPutChar c s).log = if c = 0 then s.log else appendToLog s.log c := by
  unfold shellPutChar
  split
  · rfl
  · exact log_store hrange c

theorem IndicesInRange_storeAll
    (hrange : s.IndicesInRange) (characters : List UInt32) :
    (storeDisplayChars characters s).IndicesInRange := by
  rw [storeDisplayChars_eq_foldl]
  exact List.foldlRecOn characters _ hrange fun s hs c _ => IndicesInRange_store hs c

theorem log_storeAll
    (hrange : s.IndicesInRange) (characters : List UInt32) :
    (storeDisplayChars characters s).log = characters.foldl appendToLog s.log := by
  induction characters generalizing s with
  | nil =>
      rw [storeDisplayChars_nil, List.foldl_nil]
  | cons c characters ih =>
      rw [storeDisplayChars_cons, ih (IndicesInRange_store hrange c), log_store hrange,
        List.foldl_cons]

theorem IndicesInRange_delete
    (hrange : s.IndicesInRange) :
    (shellDeleteLastDisplayChar s).IndicesInRange := by
  obtain ⟨hstart, hend, hfirst⟩ := hrange
  unfold shellDeleteLastDisplayChar
  repeat' split
  · exact ⟨hstart, hend, hfirst⟩
  · exact ⟨hstart, Nat.sub_lt (by decide) Nat.zero_lt_one, hfirst⟩
  · exact ⟨hstart, Nat.lt_of_le_of_lt (Nat.sub_le _ _) hend, hfirst⟩

/-- The end that a deletion leaves behind. -/
theorem shellDeleteLastDisplayChar_of_ne
    (hne : s.displayRingBufferStart ≠ s.displayRingBufferEnd) :
    shellDeleteLastDisplayChar s =
      { s with
        displayRingBufferEnd := Ring.prev numMaxDisplayCharacters s.displayRingBufferEnd } := by
  unfold shellDeleteLastDisplayChar Ring.prev
  rw [if_neg hne]
  split <;> rfl

theorem log_delete
    (hrange : s.IndicesInRange) :
    (shellDeleteLastDisplayChar s).log = s.log.dropLast := by
  by_cases hne : s.displayRingBufferStart = s.displayRingBufferEnd
  · have hempty : s.log = [] := by
      rw [ShellState.log, hne, Ring.contents, Ring.indices_self hrange.end_lt, List.map_nil]
    rw [shellDeleteLastDisplayChar, if_pos hne, hempty]
    rfl
  · rw [shellDeleteLastDisplayChar_of_ne hne]
    exact Ring.contents_pop hrange.start_lt hrange.end_lt hne

theorem IndicesInRange_clear
    (font : BitmapFont) (arg : List UInt32) (s : ShellState) :
    (shellClear font arg s).IndicesInRange := by
  constructor <;> exact Nat.zero_lt_succ _

theorem log_clear
    (font : BitmapFont) (arg : List UInt32) (s : ShellState) :
    (shellClear font arg s).log = [] := by
  show Ring.contents numMaxDisplayCharacters _ 0 0 = []
  rw [Ring.contents, Ring.indices_self (by decide), List.map_nil]

end Step

section Run

/-- The operations on the display ring. -/
inductive DisplayOp where
  | putChar (character : UInt32)
  | puts (msg : Option (List UInt8))
  | putsUTF32 (msg : Option (List UInt32))
  | deleteLast
  | clear (arg : List UInt32)

variable (font : BitmapFont)

def DisplayOp.run : DisplayOp → ShellState → ShellState
  | putChar character => shellPutChar character
  | puts msg => shellPuts msg
  | putsUTF32 msg => shellPutsUTF32 msg
  | deleteLast => shellDeleteLastDisplayChar
  | clear arg => shellClear font arg

/-- What the operation does to the reference log. -/
def DisplayOp.runLog : DisplayOp → List UInt32 → List UInt32
  | putChar character, log => if character = 0 then log else appendToLog log character
  | puts none, log => log
  | puts (some msg), log => (messageCharacters msg).foldl appendToLog log
  | putsUTF32 none, log => log
  | putsUTF32 (some msg), log => (msg.takeWhile (· ≠ 0)).foldl appendToLog log
  | deleteLast, log => log.dropLast
  | clear _, _ => []

theorem IndicesInRange_run
    {s : ShellState}
    (hrange : s.IndicesInRange) (op : DisplayOp) :
    (op.run font s).IndicesInRange := by
  cases op with
  | putChar character =>
      exact IndicesInRange_putChar hrange character
  | puts msg =>
      cases msg with
      | none => exact hrange
      | some msg => exact IndicesInRange_storeAll hrange _
  | putsUTF32 msg =>
      cases msg with
      | none => exact hrange
      | some msg => exact IndicesInRange_storeAll hrange _
  | deleteLast => exact IndicesInRange_delete hrange
  | clear arg => exact IndicesInRange_clear font arg s

theorem log_run
    {s : ShellState}
    (hrange : s.IndicesInRange) (op : DisplayOp) :
    (op.run font s).log = op.runLog s.log := by
  cases op with
  | putChar character =>
      exact log_putChar hrange character
  | puts msg =>
      cases msg with
      | none => rfl
      | some msg => exact log_storeAll hrange _
  | putsUTF32 msg =>
      cases msg with
      | none => rfl
      | some msg => exact log_storeAll hrange _
  | deleteLast => exact log_delete hrange
  | clear arg => exact log_clear font arg s

def runDisplayOps (ops : List DisplayOp) (s : ShellState) : ShellState :=
  ops.foldl (fun s op => op.run font s) s

/-- The run lemma. -/
theorem runDisplayOps_refines
    (ops : List DisplayOp) {s : ShellState}
    (hrange : s.IndicesInRange) :
    (runDisplayOps font ops s).IndicesInRange ∧
      (runDisplayOps font ops s).log = ops.foldl (fun log op => op.runLog log) s.log := by
  unfold runDisplayOps
  induction ops generalizing s with
  | nil =>
      rw [List.foldl_nil, List.foldl_nil]
      exact ⟨hrange, rfl⟩
  | cons op ops ih =>
      rw [List.foldl_cons, List.foldl_cons, ← log_run font hrange op]
      exact ih (IndicesInRange_run font hrange op)

/-- After every sequence of operations the ring holds the reference log, its indices are
inside of the array, and a message gives the state that its characters give one by
one. -/
theorem runDisplayOps_log
    (consoleWidth consoleHeight : UInt32) (ops : List DisplayOp) :
    let s := runDisplayOps font ops (createShell font consoleWidth consoleHeight)
    s.log = ops.foldl (fun log op => op.runLog log) [] ∧
      s.displayRingBufferStart < numMaxDisplayCharacters ∧
      s.displayRingBufferEnd < numMaxDisplayCharacters ∧
      s.firstDisplayChar < numMaxDisplayCharacters ∧
      (∀ msg, shellPuts (some msg) s =
        (messageCharacters msg).foldl (fun s c => shellPutChar c s) s) ∧
      (∀ msg, shellPutsUTF32 (some msg) s =
        (msg.takeWhile (· ≠ 0)).foldl (fun s c => shellPutChar c s) s) := by
  intro s
  obtain ⟨hrange, hlog⟩ := runDisplayOps_refines font ops
    (IndicesInRange_createShell font consoleWidth consoleHeight)
  rw [log_createShell] at hlog
  exact ⟨hlog, hrange.start_lt, hrange.end_lt, hrange.first_lt,
    fun msg => shellPuts_eq_foldl msg s, fun msg => shellPutsUTF32_eq_foldl msg s⟩

end Run

section Commands

variable (font : BitmapFont) {P : ShellState → Prop}

/-- A built-in command prints, clears the display or resets the machine. -/
theorem builtInCommand_rule
    (hputChar : ∀ c s, P s → P (shellPutChar c s))
    (hputs : ∀ msg s, P s → P (shellPuts msg s))
    (hclear : ∀ arg s, P s → P (shellClear font arg s))
    (hresets : ∀ resets s, P s → P { s with resets := resets })
    {f : List UInt8 × (List UInt32 → ShellState → ShellState)}
    (hf : f ∈ shellBuiltInCommands font) (arg : List UInt32) {s : ShellState} (hs : P s) :
    P (f.2 arg s) := by
  have hfunc : f.2 ∈ (shellBuiltInCommands font).map Prod.snd := List.mem_map_of_mem hf
  simp only [shellBuiltInCommands, List.map_cons, List.map_nil, List.mem_cons,
    List.not_mem_nil, or_false] at hfunc
  obtain h | h | h | h | h | h := hfunc <;> rw [h]
  · exact hputChar 10 _ (List.foldlRecOn arg _ hs fun s hs c _ => hputChar c s hs)
  · exact hclear arg s hs
  · exact hputs (some helpMessage) s hs
  · exact hputs (some (text "DexprOS version: pre-release 0.1.2\n")) s hs
  · exact hresets _ s hs
  · exact hresets _ s hs

/-- The invariant rule of the command interpreter. -/
theorem shellInterpretCommand_rule
    (hputChar : ∀ c s, P s → P (shellPutChar c s))
    (hputs : ∀ msg s, P s → P (shellPuts msg s))
    (hclear : ∀ arg s, P s → P (shellClear font arg s))
    (hresets : ∀ resets s, P s → P { s with resets := resets })
    (command : List UInt32) {s : ShellState} (hs : P s) :
    P (shellInterpretCommand font command s) := by
  unfold shellInterpretCommand
  split
  · exact hs
  · split
    · exact hs
    · split
      · rename_i f hf
        exact builtInCommand_rule font hputChar hputs hclear hresets
          (List.mem_of_find?_eq_some hf) _ hs
      · exact hputs _ s hs

end Commands

end Shell
end DexprOS
