import Apple2ix.Disk.WriteBackSafety
import Apple2ix.Disk.UnsavedWrites
import Apple2ix.Foundations.Flags
import Apple2ix.Vm.Switches
import Apple2ix.Video.Scanner
import Apple2ix.Vm.Memory
import Apple2ix.Vm.SwitchHandlers
import Apple2ix.Vm.Softswitch
import Apple2ix.Vm.StoreHandlers
import Apple2ix.Vm.Runs
import Apple2ix.Vm.Frames
import Apple2ix.Vm.MemoryMap
import Apple2ix.Vm.WriteEnable
import Apple2ix.Vm.LanguageCard
import Apple2ix.Video.DirtyTracking
import Apple2ix.Vm.Reachable
import Apple2ix.Vm.SaveState
import Apple2ix.Vm.RomDispatch
import Apple2ix.Audio.PlayQueue
import Apple2ix.Audio.PlayQueueInvariant
import Apple2ix.Audio.PlayQueueCalls
import Apple2ix.Prefs.Sync
import Apple2ix.Prefs.SyncCoverage
import Apple2ix.Video.ScanLoop
import Apple2ix.Video.ScannerCalls
import Apple2ix.Video.ScannerSafety
import Apple2ix.Video.ScannerRuns
import Apple2ix.Video.ScannerFaults
import Apple2ix.Video.FrameClock
import Apple2ix.Video.ScanlineCoverage
import Apple2ix.Json.Jsmn
import Apple2ix.Json.Grammar
import Apple2ix.Json.Lexemes
import Apple2ix.Json.ParserState
import Apple2ix.Json.ParserSteps
import Apple2ix.Json.Reading
import Apple2ix.Json.Accepting
import Apple2ix.Json.Create
import Apple2ix.Json.Map
import Apple2ix.Json.Members
import Apple2ix.Json.MapLookup
import Apple2ix.Json.MapSet
import Apple2ix.Json.MapParse
import Apple2ix.Json.SetFrame
import Apple2ix.Json.Nesting
import Apple2ix.Json.PrettyPrint
import Apple2ix.Json.PrettyTree
import Apple2ix.Json.SetThenGet
import Apple2ix.Audio.OpenSles
import Apple2ix.Audio.OpenSlesRing
import Apple2ix.Audio.OpenSlesStream
import Apple2ix.Audio.OpenAl
import Apple2ix.Audio.OpenAlStream
import Apple2ix.Audio.Speaker
import Apple2ix.Audio.SpeakerFlush
import Apple2ix.Audio.Mockingboard
import Apple2ix.Audio.MockingboardState
import Apple2ix.Audio.MockingboardInterrupts
import Apple2ix.Audio.MockingboardAsserts
import Apple2ix.Audio.MockingboardTimers
import Apple2ix.Audio.MockingboardRestore
import Apple2ix.Disk.SaveState
import Apple2ix.Disk.InsertedImages
import Apple2ix.Disk.StateFile
import Apple2ix.Disk.SavedFields
import Apple2ix.Disk.SaveLoad
import Apple2ix.Disk.HostileState
import Apple2ix.Json.MapUpdate
import Apple2ix.Vm.HostileState
import Apple2ix.Misc.DiskPaths
import Apple2ix.Vm.Font
import Apple2ix.Vm.GuestMemory
import Apple2ix.Cpu.Bus
import Apple2ix.Cpu.Flags
import Apple2ix.Cpu.Opcodes
import Apple2ix.Cpu.X86
import Apple2ix.Cpu.Instructions
import Apple2ix.Cpu.X86Flags
import Apple2ix.Cpu.X86Break
import Apple2ix.Cpu.X86Exec
import Apple2ix.Cpu.X86Interrupt
import Apple2ix.Json.Arrays
import Apple2ix.Json.Descriptor
import Apple2ix.Json.Serialize
import Apple2ix.Json.Unescape
import Apple2ix.Json.Numbers
import Apple2ix.Prefs.Values
import Apple2ix.Disk.Recompression
import Apple2ix.Misc.InflateAgreement
import Apple2ix.Vm.PaddleRuns
import Apple2ix.Cpu.Arm
import Apple2ix.Cpu.ArmDecimal
import Apple2ix.Cpu.MultiByte
import Apple2ix.Cpu.ArmLoop
import Apple2ix.Cpu.ArmRange
import Apple2ix.Audio.OpenAlFailures
import Apple2ix.Foundations.Rounding
import Apple2ix.Meta.Debugger
import Apple2ix.Prefs.CopyJson
import Apple2ix.Timing.Timespec
import Apple2ix.Video.FloatingBus
import Apple2ix.Audio.MockingboardBatches
import Apple2ix.Audio.SpeakerSamples
import Apple2ix.Timing.MotorQuiet
import Apple2ix.Foundations.BitStreams
import Apple2ix.Timing.SpeedRestore
import Apple2ix.Timing.SpeedSaved
import Apple2ix.Video.ColourCalls
import Apple2ix.Foundations.Matching
import Apple2ix.Foundations.Walks
import Apple2ix.Meta.Search
import Apple2ix.Meta.Stepping
import Apple2ix.Meta.Bload
import Apple2ix.Disk.SectorWalk
import Apple2ix.Cpu.ArmRefines
import Apple2ix.Cpu.ArmShifts
import Apple2ix.Cpu.ArmOperations
import Apple2ix.Cpu.ArmExec
import Apple2ix.Cpu.Meters
import Apple2ix.Cpu.Hosts
import Apple2ix.Cpu.CycleBudget
import Apple2ix.Foundations.Simulations
import Apple2ix.Cpu.CoresAgree
import Apple2ix.Timing.CycleClock
import Apple2ix.Misc.Saver
import Apple2ix.Misc.Framing
import Apple2ix.Misc.SectionFrames
import Apple2ix.Misc.EmulatorState
import Apple2ix.Misc.SavedEmulator
import Apple2ix.Vm.StateLoader
import Apple2ix.Cpu.SavedRegisters
import Apple2ix.Cpu.Guest
import Apple2ix.Cpu.HostChange
