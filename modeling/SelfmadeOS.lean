import SelfmadeOS.RadixTree
import SelfmadeOS.Orbits
import SelfmadeOS.StateRuns
import SelfmadeOS.Words
import SelfmadeOS.Machine
import SelfmadeOS.PageAllocator
import SelfmadeOS.Mmu
import SelfmadeOS.KernelAllocator
import SelfmadeOS.Translation
import SelfmadeOS.AddressSpace
import SelfmadeOS.TableMemory
import SelfmadeOS.TableCalls
import SelfmadeOS.BlockMapping
import SelfmadeOS.NewTables
import SelfmadeOS.Grafting
import SelfmadeOS.RunRecord
import SelfmadeOS.MappingInvariant
import SelfmadeOS.MappingRuns
import SelfmadeOS.Boot
import SelfmadeOS.Walks
import SelfmadeOS.PresentTables
import SelfmadeOS.SmallKernel
import SelfmadeOS.SelfMapping
import SelfmadeOS.IdentityMapping
import SelfmadeOS.RequestedMappings
import SelfmadeOS.FreshTables
import SelfmadeOS.TemporaryTables
import SelfmadeOS.TableAccesses
import SelfmadeOS.CStrings
import SelfmadeOS.Formating
import SelfmadeOS.Rendering
import SelfmadeOS.Numerals
import SelfmadeOS.FormatValues
import SelfmadeOS.Writes
import SelfmadeOS.ScratchArrays
import SelfmadeOS.FormatAccesses
import SelfmadeOS.Terminal
import SelfmadeOS.TerminalRows
import SelfmadeOS.Drawing
import SelfmadeOS.Painting
import SelfmadeOS.Uart
import SelfmadeOS.KernelLogger
import SelfmadeOS.MessageTexts
import SelfmadeOS.LogReturns
import SelfmadeOS.Transitions
import SelfmadeOS.Virtqueue
import SelfmadeOS.QueueChains
import SelfmadeOS.QueueOrder
import SelfmadeOS.ContinuousBlocks
import SelfmadeOS.PciFunction
import SelfmadeOS.PciCapabilities
import SelfmadeOS.CapabilityCycles
import SelfmadeOS.Handshake
import SelfmadeOS.HeapUse
import SelfmadeOS.HeapBounds
import SelfmadeOS.TableCosts
import SelfmadeOS.MmuEnable
import SelfmadeOS.DeviceRanges
import SelfmadeOS.HeapBlocks
import SelfmadeOS.BarSize
import SelfmadeOS.BarMemory
import SelfmadeOS.BarRegions
import SelfmadeOS.BarDecoding
import SelfmadeOS.BarTraces
import SelfmadeOS.RegisterAddresses
import SelfmadeOS.FirstMatch
import SelfmadeOS.PciSearch
import SelfmadeOS.ByteMemory
import SelfmadeOS.Records
import SelfmadeOS.GpuRequests
import SelfmadeOS.GpuDevice
import SelfmadeOS.GpuCommands
import SelfmadeOS.GpuSession
import SelfmadeOS.GpuRefinement
import SelfmadeOS.GpuProgress
import SelfmadeOS.QueueMemory
import SelfmadeOS.QueueMemoryRuns
import SelfmadeOS.GpuAnswers
import SelfmadeOS.GpuPicture
import SelfmadeOS.Font
import SelfmadeOS.GpuScreen
import SelfmadeOS.ScreenText
import SelfmadeOS.Rectangles
import SelfmadeOS.SessionHeap
import SelfmadeOS.AccessRights
import SelfmadeOS.BlockAccesses
import SelfmadeOS.RegisterAccesses
import SelfmadeOS.QueueHeap
import SelfmadeOS.KernelMain
import SelfmadeOS.Exceptions
import SelfmadeOS.FreeListAllocator
import SelfmadeOS.FreeListBlocks
