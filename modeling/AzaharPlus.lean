import AzaharPlus.Poke.Pk6
import AzaharPlus.Kernel.HandleTable
import AzaharPlus.Kernel.VmManager
import AzaharPlus.Kernel.VmAreas
import AzaharPlus.Kernel.PageMap
import AzaharPlus.Kernel.HandleTransfer
import AzaharPlus.Core.Timing
import AzaharPlus.Core.Ledger
import AzaharPlus.Core.EventQueues
import AzaharPlus.Core.TimingRuns
import AzaharPlus.Core.RunLoop
import AzaharPlus.Core.CoresTogether
import AzaharPlus.FileSys.SaveData
import AzaharPlus.FileSys.XoredDiskFile
import AzaharPlus.Lib.BlockMemory
import AzaharPlus.Lib.SortedSet
import AzaharPlus.Lib.SlotArray
import AzaharPlus.Poke.Pocket
import AzaharPlus.Poke.Routes
import AzaharPlus.Poke.Species
import AzaharPlus.Poke.Looks
import AzaharPlus.Poke.CaptureLimit
import AzaharPlus.Poke.Savestate
import AzaharPlus.Common.ThreadQueueList
import AzaharPlus.Kernel.Threads
import AzaharPlus.Kernel.ReadyQueues
import AzaharPlus.Kernel.Inheritance
import AzaharPlus.Kernel.InheritedRuns
import AzaharPlus.Common.StaticLRUCache
import AzaharPlus.FileSys.ArticCache
import AzaharPlus.Core.MemorySystem
import AzaharPlus.Core.WordAccess
import AzaharPlus.Kernel.ProcessMemory
import AzaharPlus.Kernel.AddressSpace
import AzaharPlus.Kernel.ControlMemory
import AzaharPlus.Lib.Edits
import AzaharPlus.Poke.BallsRestored
import AzaharPlus.Poke.DeadShedinja
import AzaharPlus.Poke.DeathsOnce
import AzaharPlus.Poke.LevelCap
import AzaharPlus.Core.FiringOrder
import AzaharPlus.Core.TimingSavestate
import AzaharPlus.Lib.Updates
import AzaharPlus.Video.PixelCodec
import AzaharPlus.Video.TextureDecode
import AzaharPlus.Video.TextureCodec
import AzaharPlus.Video.TileCopy
import AzaharPlus.Video.MortonCopy
import AzaharPlus.Video.Textures
import AzaharPlus.Audio.Signal
import AzaharPlus.Audio.Source
import AzaharPlus.Audio.SourceSavestate
import AzaharPlus.Audio.SavestateProbes
import AzaharPlus.Poke.LineLookups
import AzaharPlus.Core.Durations
import AzaharPlus.Core.Slices
import AzaharPlus.Kernel.FirstFit
import AzaharPlus.Kernel.MappedBlocks
import AzaharPlus.Kernel.MemoryCalls
import AzaharPlus.Kernel.MemoryRuns
import AzaharPlus.Kernel.FailedCalls
import AzaharPlus.Kernel.MapUnmap
import AzaharPlus.Kernel.MappingFrame
import AzaharPlus.Kernel.BlockLifeCycle
import AzaharPlus.Kernel.BlockMapping
import AzaharPlus.Kernel.MemoryQueries
import AzaharPlus.Kernel.Acquisitions
import AzaharPlus.Kernel.FifoOrder
import AzaharPlus.Kernel.Semaphores
import AzaharPlus.Kernel.Arbitration
import AzaharPlus.Kernel.ArbiterLists
import AzaharPlus.FileSys.Patch
import AzaharPlus.FileSys.PatchSafety
import AzaharPlus.FileSys.IpsMeaning
import AzaharPlus.FileSys.BpsMeaning
import AzaharPlus.FileSys.PathParser
import AzaharPlus.FileSys.Lzss
import AzaharPlus.FileSys.RomFSReader
import AzaharPlus.FileSys.LayeredFS
import AzaharPlus.Video.FillSurface
import AzaharPlus.Video.SurfaceParams
import AzaharPlus.Video.SubRect
import AzaharPlus.Video.DrawnRegion
import AzaharPlus.Lib.GappedLines
import AzaharPlus.Pica.PrimitiveAssembly
import AzaharPlus.Video.TextureCopy
import AzaharPlus.Pica.AttributeQueues
import AzaharPlus.Pica.CommandLists
import AzaharPlus.Pica.GeometryPipeline
import AzaharPlus.Pica.GeometryBuffers
import AzaharPlus.Lib.SlotCache
import AzaharPlus.Pica.VertexLoader
import AzaharPlus.Pica.VertexCache
import AzaharPlus.Pica.ShaderInterpreter
import AzaharPlus.Pica.ShaderFlow
import AzaharPlus.Pica.ShaderBounds
import AzaharPlus.Pica.LoopNests
import AzaharPlus.Pica.NestedLoops
import AzaharPlus.Hw.Arithmetic128
import AzaharPlus.Common.ParamPackage
import AzaharPlus.Audio.AdpcmWidth
import AzaharPlus.Hw.Y2r
import AzaharPlus.Core.Movie
import AzaharPlus.Audio.Resampling
import AzaharPlus.Lib.RingQueue
import AzaharPlus.Service.GspInterrupts
import AzaharPlus.Service.ConfigBlocks
import AzaharPlus.Service.ConfigRuns
import AzaharPlus.FileSys.TitleFiles
import AzaharPlus.FileSys.CiaContainer
import AzaharPlus.Service.ImportCopies
import AzaharPlus.Common.CacheHistory
import AzaharPlus.Core.CopyBlocks
import AzaharPlus.Service.IrBuffer
import AzaharPlus.Loader.Threedsx
import AzaharPlus.Loader.ThreedsxImage
import AzaharPlus.Loader.ThreedsxRelocs
import AzaharPlus.Service.FileSessions
import AzaharPlus.Lib.Streams
import AzaharPlus.Service.NcchCrypto
import AzaharPlus.Service.NcchStream
import AzaharPlus.Kernel.Sessions
import AzaharPlus.Kernel.SessionInvariants
import AzaharPlus.Kernel.SessionRuns
import AzaharPlus.Common.RingBuffer
