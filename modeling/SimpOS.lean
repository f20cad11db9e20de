import SimpOS.Machine
import SimpOS.Runs
import SimpOS.Extents
import SimpOS.HeapBlocks
import SimpOS.HeapLayout
import SimpOS.HeapRuns
import SimpOS.Memory
import SimpOS.Paging
import SimpOS.AddressSpaces
import SimpOS.KernelHeap
import SimpOS.PageDirectories
import SimpOS.ProcessMemory
import SimpOS.ProcessAllocations
import SimpOS.Isolation
import SimpOS.IsolationRuns
import SimpOS.LinkedLists
import SimpOS.TaskList
import SimpOS.Strings
import SimpOS.PathParser
import SimpOS.ParsedPaths
import SimpOS.FileLayer
import SimpOS.FileTable
import SimpOS.DiskStreams
import SimpOS.Fat16
import SimpOS.FatChains
import SimpOS.FatReads
import SimpOS.FatDirectories
import SimpOS.DirectoryCounts
import SimpOS.FatPaths
import SimpOS.FatSystem
import SimpOS.OpenFiles
import SimpOS.FailedOpens
import SimpOS.OpenLeaks
import SimpOS.ElfLoader
import SimpOS.ElfMapping
import SimpOS.TaskMemory
import SimpOS.Processes
import SimpOS.ProcessLoads
import SimpOS.BinaryLoads
import SimpOS.ProcessTable
import SimpOS.Rings
import SimpOS.Keyboard
import SimpOS.Terminal
import SimpOS.CommandParser
import SimpOS.ClusterWalks
import SimpOS.HeapExhaustion
import SimpOS.DirectoryLookups
import SimpOS.ProcessCalls
import SimpOS.ProgramArguments
import SimpOS.CurrentProcess
import SimpOS.PageMapping
import SimpOS.FlatBinaries
import SimpOS.ElfSegments
import SimpOS.ElfHeaders
import SimpOS.HeapRequests
import SimpOS.TaskStrings
import SimpOS.ProcessFrees
import SimpOS.ProcessGrants
import SimpOS.LoadLeaks
import SimpOS.FailedLoads
import SimpOS.FailedCommands
import SimpOS.PathBlocks
import SimpOS.ArgumentWalks
import SimpOS.LineEditor
import SimpOS.DirectoryNames
import SimpOS.VolumeMounts
import SimpOS.FileInvariants
import SimpOS.ClusterDivision
import SimpOS.LoadedDirectories
import SimpOS.DirectoryTrees
import SimpOS.StringOrder
import SimpOS.SectorReads
import SimpOS.RoundRobin
import SimpOS.ElfExtents
import SimpOS.Numerals
import SimpOS.FormatStrings
import SimpOS.SegmentTable
import SimpOS.PathBuffers
import SimpOS.ItemKinds
import SimpOS.LoadFrames
import SimpOS.NewProcesses
import SimpOS.CopiedArguments
import SimpOS.ArgumentPassing
import SimpOS.StackCode
import SimpOS.TrapStubs
import SimpOS.InterruptTables
import SimpOS.KeyboardDriver
import SimpOS.Traps
import SimpOS.OrderedTasks
import SimpOS.TrapRuns
import SimpOS.AtaDisk
import SimpOS.ProgramImages
import SimpOS.OpenedFiles
import SimpOS.VolumePrograms
