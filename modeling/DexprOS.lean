import DexprOS.Library.FuelLoop
import DexprOS.Library.ByteCopy
import DexprOS.Library.BitMask
import DexprOS.Library.Spans
import DexprOS.Library.LowestFirst
import DexprOS.Library.FiniteWalk
import DexprOS.Efi.EfiDef
import DexprOS.Kernel.Memory.MemoryDef
import DexprOS.Kernel.KstdlibString
import DexprOS.Kernel.KstdlibMemset
import DexprOS.Kernel.KstdlibMemcmp
import DexprOS.Kernel.Memory.InitialMemMap
import DexprOS.Kernel.Efi.InitialMemMapGenEfi
import DexprOS.Library.Overlay
import DexprOS.Kernel.Efi.InitialMemMapCreation
import DexprOS.Kernel.Efi.InitialMemMapTermination
import DexprOS.Kernel.Memory.PhysicalMemTree
import DexprOS.Kernel.Memory.TreeLevels
import DexprOS.Kernel.Memory.PhysicalMemTreeGen
import DexprOS.Kernel.Memory.PhysicalMemTreeLayout
import DexprOS.Library.RoundUp
import DexprOS.Kernel.Memory.TreeGeometry
import DexprOS.Kernel.Memory.PhysicalMemMapGen
import DexprOS.Library.HalvingSummary
import DexprOS.Kernel.Memory.PhysicalMemTreeMark
import DexprOS.Kernel.Memory.PhysicalMemStructsGen
import DexprOS.Kernel.Memory.PhysicalMemStructsSize
import DexprOS.Kernel.Memory.PhysicalMemTreeRoom
import DexprOS.Kernel.Memory.PhysicalMemTreeShape
import DexprOS.Kernel.Memory.PhysicalMemTreeAccel
import DexprOS.Kernel.Memory.PhysicalMemTreePages
import DexprOS.Kernel.KeyboardInput
import DexprOS.Drivers.Keyboard.PS2KeyboardScanCodes
import DexprOS.Drivers.Keyboard.PS2KeyboardDriver
import DexprOS.Drivers.Keyboard.PS2KeyboardCommands
import DexprOS.Drivers.Keyboard.PS2KeyboardIndicators
import DexprOS.Library.RetransmitQueue
import DexprOS.Library.WordDecoder
import DexprOS.Library.WordMemory
import DexprOS.Drivers.Keyboard.PS2KeyboardDecoding
import DexprOS.Drivers.Keyboard.PS2KeyboardLink
import DexprOS.Library.RingLog
import DexprOS.Drivers.Graphics.GraphicsDriver
import DexprOS.Kernel.BuiltInBitmapFont
import DexprOS.Shell
import DexprOS.ShellLog
import DexprOS.ShellWindow
import DexprOS.ShellPrompt
import DexprOS.Library.Damage
import DexprOS.Library.Word32
import DexprOS.Drivers.Graphics.CpuGraphicsDriver
import DexprOS.Drivers.Graphics.CpuGraphicsSwapping
import DexprOS.Library.RadixTree
import DexprOS.Library.OrWords
import DexprOS.Boot.InitialPageMapSetup
import DexprOS.Boot.PageMapTables
import DexprOS.Boot.PageMapMapping
import DexprOS.Boot.PageMapIdentity
import DexprOS.Boot.PageMapSize
import DexprOS.Boot.PageMapAgreement
import DexprOS.Boot.PageMapFramebuffer
import DexprOS.Library.Dialogue
import DexprOS.Boot.EndBootPhase
import DexprOS.Boot.EndBootPhaseOwnership
import DexprOS.Boot.PageMapSwitch
import DexprOS.Kernel.Memory.PhysicalMemTreeMarking
import DexprOS.Kernel.Memory.PhysicalMemTreeAccesses
import DexprOS.Kernel.Memory.PhysicalMemTreeWrites
import DexprOS.Kernel.Memory.PhysicalMemTreeComplete
import DexprOS.Boot.UefiBoot
import DexprOS.Kernel.Memory.CombinedPhysRanges
import DexprOS.Kernel.Memory.PhysicalMemTreeBounds
import DexprOS.Kernel.Memory.TreeEntryGeometry
import DexprOS.Library.Painting
import DexprOS.Drivers.Graphics.CpuGraphicsPainting
import DexprOS.Drivers.Graphics.CpuGraphicsClipping
import DexprOS.Drivers.Graphics.CpuGraphicsClearing
import DexprOS.Drivers.Graphics.CpuGraphicsBlitting
import DexprOS.ShellErasing
import DexprOS.Library.GreedyWrap
import DexprOS.ShellScrolling
import DexprOS.Library.FirstWord
import DexprOS.ShellCommands
import DexprOS.Drivers.Keyboard.PS2KeyboardLocks
import DexprOS.Drivers.Keyboard.PS2KeyboardAccesses
import DexprOS.Drivers.Keyboard.PS2KeyboardRobustness
import DexprOS.Library.BitFields
import DexprOS.Library.RecordedArray
import DexprOS.Library.LittleEndian
import DexprOS.Kernel.X8664.TaskStateSegment
import DexprOS.Kernel.X8664.GdtCreator
import DexprOS.Kernel.X8664.IdtCreator
import DexprOS.Library.ShelfPacking
import DexprOS.Util.DexprBitmapFontGenerator
import DexprOS.Library.AccessLog
import DexprOS.Kernel.KstdlibAccesses
import DexprOS.Kernel.KstdlibAlignment
import DexprOS.Library.AccessTrace
import DexprOS.ShellBounds
import DexprOS.Drivers.Keyboard.USKeyboardLayout
import DexprOS.Drivers.Keyboard.PS2KeyboardCharacters
import DexprOS.Console
import DexprOS.ConsoleTyping
import DexprOS.ConsoleEcho
import DexprOS.ConsoleWindow
import DexprOS.ConsoleBounds
import DexprOS.Drivers.Graphics.CpuGraphicsInit
import DexprOS.ConsolePicture
import DexprOS.Library.StackCode
import DexprOS.Kernel.X8664.Interrupts
import DexprOS.Library.PriorityLines
import DexprOS.Drivers.PICDriver
import DexprOS.Kernel.X8664.InterruptHandlers
import DexprOS.Library.ServedDialogue
import DexprOS.Drivers.PS2ControllerDriver
import DexprOS.Drivers.PS2ControllerSetup
