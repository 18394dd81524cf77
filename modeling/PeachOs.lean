import PeachOs.Keyboard
import PeachOs.Terminal
import PeachOs.HeapLayout
import PeachOs.HeapExhaustion
import PeachOs.PagingBuild
import PeachOs.PagingRefinement
import PeachOs.TaskCopy
import PeachOs.KernelPages
import PeachOs.TaskList
import PeachOs.PathList
import PeachOs.FatLayout
import PeachOs.OpenFile
import PeachOs.ProcessSwitch
import PeachOs.TaskReturn
import PeachOs.PathWritten
import PeachOs.PagingFree
import PeachOs.FatNames
import PeachOs.ClusterMarks
import PeachOs.WindowBytes
import PeachOs.HandlerRuns
import PeachOs.FreadBounds
import PeachOs.FailedLoad
import PeachOs.HeapEdges
import PeachOs.PagingEdges
import PeachOs.SeekRuns
import PeachOs.DirectoryLoad
import PeachOs.FailedOpen
import PeachOs.DescriptorRuns
import PeachOs.DirectoryTree
import PeachOs.SectorRequests
import PeachOs.KeyboardEdits
import PeachOs.Gdt
import PeachOs.TerminalText
import PeachOs.TaskFailure
import PeachOs.RefusedMount
import PeachOs.PathRestored
import PeachOs.InterruptEntry
import PeachOs.NameCompare
import PeachOs.ClusterWalk
import PeachOs.PrintedString
import PeachOs.ProcessTable
import PeachOs.SystemCall
import PeachOs.DiskStream
import PeachOs.UserRuns
import PeachOs.SharedHeap
import PeachOs.BoundedHeap
import PeachOs.TablesKept
import PeachOs.LoadRequests
import PeachOs.LoadedProgram
import PeachOs.Registration
import PeachOs.KeyDelivery
import PeachOs.BootRead
import PeachOs.KernelMain
import PeachOs.VolumeCalls
