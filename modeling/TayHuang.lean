import TayHuang.AtaChannels
import TayHuang.AtaCommands
import TayHuang.BlockFiling
import TayHuang.Blocks
import TayHuang.BootPaging
import TayHuang.Buffers
import TayHuang.Census
import TayHuang.Console
import TayHuang.CreatedSignals
import TayHuang.Directives
import TayHuang.DirectorySteps
import TayHuang.DoublyLinked
import TayHuang.EchoRuns
import TayHuang.FailedMapping
import TayHuang.Fat32
import TayHuang.Fat32Agreement
import TayHuang.Fat32Chains
import TayHuang.Fat32Directory
import TayHuang.Fat32Following
import TayHuang.Fat32Lookup
import TayHuang.Fat32Mounting
import TayHuang.Fat32Names
import TayHuang.Fat32Probing
import TayHuang.Fat32Readers
import TayHuang.Fat32Searching
import TayHuang.Fat32Windows
import TayHuang.Fifo
import TayHuang.FifoQueries
import TayHuang.FifoRecords
import TayHuang.FifoRuns
import TayHuang.FifoStruct
import TayHuang.FormatParsing
import TayHuang.FormattedOutput
import TayHuang.FramebufferRuns
import TayHuang.Framebuffers
import TayHuang.FreeLists
import TayHuang.FreeNodeRuns
import TayHuang.FreeNodes
import TayHuang.FreedRecords
import TayHuang.Fuel
import TayHuang.FullHeap
import TayHuang.GrowthTally
import TayHuang.HeapGrowth
import TayHuang.HeapRuns
import TayHuang.HeapSearch
import TayHuang.InitBlocks
import TayHuang.InterruptController
import TayHuang.InterruptFrames
import TayHuang.IpcWakeups
import TayHuang.IrqHandlers
import TayHuang.Kernel
import TayHuang.KernelFrames
import TayHuang.KernelHeap
import TayHuang.KernelMemory
import TayHuang.KernelRuns
import TayHuang.KernelSteps
import TayHuang.KeyLatches
import TayHuang.KeyParser
import TayHuang.KeyRuns
import TayHuang.KmallocService
import TayHuang.LevelQueues
import TayHuang.LineInput
import TayHuang.LinkedCells
import TayHuang.LinkedTrees
import TayHuang.LittleEndian
import TayHuang.LoaderDisk
import TayHuang.LoaderHeap
import TayHuang.LoaderHeapRuns
import TayHuang.MailAdmission
import TayHuang.MailHeaders
import TayHuang.Mailbox
import TayHuang.MailboxRuns
import TayHuang.Marshalling
import TayHuang.MemoryMap
import TayHuang.MessageLoop
import TayHuang.ModuleImages
import TayHuang.ModuleLoader
import TayHuang.NumberRendering
import TayHuang.PageAccount
import TayHuang.PageConservation
import TayHuang.PageDirectories
import TayHuang.PageExhaustion
import TayHuang.PageInit
import TayHuang.PageMap
import TayHuang.PagePool
import TayHuang.PageSharing
import TayHuang.Paging
import TayHuang.Permissions
import TayHuang.Polling
import TayHuang.PostOffice
import TayHuang.Printf
import TayHuang.Quanta
import TayHuang.Radix
import TayHuang.RangeMapping
import TayHuang.ReadyOrder
import TayHuang.ReadyQueues
import TayHuang.ReadyRuns
import TayHuang.RecordReuse
import TayHuang.RecordWrites
import TayHuang.Records
import TayHuang.Refiling
import TayHuang.Registers
import TayHuang.Ring
import TayHuang.RpcAgreement
import TayHuang.RpcAnswers
import TayHuang.RpcCalls
import TayHuang.RpcReceived
import TayHuang.RpcRegistry
import TayHuang.RpcServers
import TayHuang.RpcStubs
import TayHuang.Runs
import TayHuang.SearchTrees
import TayHuang.SegmentContents
import TayHuang.SegmentLoading
import TayHuang.SegmentPages
import TayHuang.Segments
import TayHuang.SetupDisk
import TayHuang.SharedMemory
import TayHuang.SignalTree
import TayHuang.SignalTreeInsert
import TayHuang.SignalTreeOrders
import TayHuang.SignalTreeRepairs
import TayHuang.SignalTreeRuns
import TayHuang.SignalTreeShape
import TayHuang.Signals
import TayHuang.StackAreas
import TayHuang.StringCopies
import TayHuang.Stubs
import TayHuang.Switching
import TayHuang.SyscallMarshalling
import TayHuang.SyscallReads
import TayHuang.SyscallRobust
import TayHuang.SyscallTouches
import TayHuang.Terminal
import TayHuang.TextScreen
import TayHuang.ThreadContexts
import TayHuang.ThreadListRuns
import TayHuang.ThreadLists
import TayHuang.ThreadSwitch
import TayHuang.Tilings
import TayHuang.Tostring
import TayHuang.UserChunks
import TayHuang.UserFreeRuns
import TayHuang.UserFrees
import TayHuang.UserHeapRuns
import TayHuang.UserHeapSteps
import TayHuang.UserMalloc
import TayHuang.VirtualBytes
import TayHuang.VirtualMemory
import TayHuang.VirtualPages
import TayHuang.VirtualTables
import TayHuang.WaitQueue
import TayHuang.WaitQueueRuns
