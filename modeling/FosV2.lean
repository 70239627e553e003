import FosV2.AlignedWord
import FosV2.AllocatePage
import FosV2.AllocatePageCommand
import FosV2.ArgumentVector
import FosV2.BitFields
import FosV2.BootHandover
import FosV2.BootImage
import FosV2.BootLoader
import FosV2.BootMapping
import FosV2.BootPermissions
import FosV2.BootRanges
import FosV2.BootRequests
import FosV2.BootUnmapped
import FosV2.BumpAllocator
import FosV2.CachedMap
import FosV2.ChunkedOutput
import FosV2.CommandPrompt
import FosV2.ConsoleDisplay
import FosV2.ConsoleInput
import FosV2.ConsolePrinting
import FosV2.CputsDisclosure
import FosV2.CputsExact
import FosV2.DebugInfo
import FosV2.Descriptors
import FosV2.DetectedMemory
import FosV2.EnvironmentIds
import FosV2.EnvironmentPool
import FosV2.Environments
import FosV2.ExecuteCommand
import FosV2.FormatComposition
import FosV2.FormatDirective
import FosV2.FormatEscapes
import FosV2.FormatLoop
import FosV2.FrameAccounting
import FosV2.HeldKeys
import FosV2.HeldModifiers
import FosV2.IndexScan
import FosV2.InitializePaging
import FosV2.IntrusiveList
import FosV2.KernelBoot
import FosV2.KernelCheck
import FosV2.KernelIntegrity
import FosV2.KernelSpace
import FosV2.KernelVM
import FosV2.Keyboard
import FosV2.LiteralText
import FosV2.MemoryCommands
import FosV2.MemoryCopy
import FosV2.MemoryLayout
import FosV2.MemoryManagerCore
import FosV2.MemoryManagerInvariant
import FosV2.MemoryManagerSpecs
import FosV2.MemoryManagerSteps
import FosV2.MemoryMove
import FosV2.MemoryWrites
import FosV2.NumberDigits
import FosV2.NumberRoundTrip
import FosV2.NumberWidth
import FosV2.Occurrences
import FosV2.PageCheck
import FosV2.PageIsolation
import FosV2.PageMapRefinement
import FosV2.PagePermissions
import FosV2.PagingSwitch
import FosV2.PrintFormat
import FosV2.PrintNumber
import FosV2.PrintText
import FosV2.ProgramSegments
import FosV2.PromptSafety
import FosV2.Readline
import FosV2.ReadlineBounds
import FosV2.ReferenceCounters
import FosV2.ReferenceLineEdit
import FosV2.ReferenceTerminal
import FosV2.RingBuffer
import FosV2.Runs
import FosV2.ScreenTerminal
import FosV2.SparseBisection
import FosV2.SprintfBuffer
import FosV2.StabContaining
import FosV2.StabSearch
import FosV2.StabTable
import FosV2.StringField
import FosV2.StringLibrary
import FosV2.StringSplit
import FosV2.Syscall
import FosV2.SystemCallStubs
import FosV2.TlbCoherence
import FosV2.TokenRuns
import FosV2.TracedRun
import FosV2.TrapEntry
import FosV2.TwoLevelTable
import FosV2.TypedCommands
import FosV2.Typing
import FosV2.UserExecution
import FosV2.UserInput
import FosV2.VirtualPageTable
import FosV2.WhileLoop
import FosV2.WordStack
