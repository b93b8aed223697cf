import LinuxRecovery.Loops
import LinuxRecovery.ByteMemory
import LinuxRecovery.GoodBlocks
import LinuxRecovery.Attempts
import LinuxRecovery.Libmtd
import LinuxRecovery.BlockMap
import LinuxRecovery.Sysinfo
import LinuxRecovery.BasicWrite
import LinuxRecovery.PieceWrites
import LinuxRecovery.BasicRead
import LinuxRecovery.ProgrammablePages
import LinuxRecovery.PageOutcomes
import LinuxRecovery.FaultyWrite
import LinuxRecovery.Relocation
import LinuxRecovery.BlockScan
import LinuxRecovery.SysinfoSave
import LinuxRecovery.BasicErase
import LinuxRecovery.BadBlocks
import LinuxRecovery.EraseCoverage
import LinuxRecovery.ScanResult
import LinuxRecovery.Traces
import LinuxRecovery.UpdateFile
import LinuxRecovery.UpdateRun
import LinuxRecovery.CircularLists
import LinuxRecovery.MergeImages
import LinuxRecovery.MergeRuns
import LinuxRecovery.KeptImages
import LinuxRecovery.SysinfoHook
import LinuxRecovery.PageWrites
import LinuxRecovery.ShortTransfers
import LinuxRecovery.BlockRewrite
import LinuxRecovery.SysinfoSet
import LinuxRecovery.SysinfoFlag
import LinuxRecovery.SysinfoSurvival
import LinuxRecovery.SysinfoPlaces
import LinuxRecovery.NetlinkHandlers
import LinuxRecovery.NumberText
import LinuxRecovery.Mxml
import LinuxRecovery.ManifestRead
import LinuxRecovery.Packager
import LinuxRecovery.ManifestRoundTrip
import LinuxRecovery.DeviceCheck
import LinuxRecovery.ImageAttachment
import LinuxRecovery.PackagedImages
import LinuxRecovery.PackageFiles
import LinuxRecovery.PackageWalk
import LinuxRecovery.WritePackage
import LinuxRecovery.PartitionProtocol
import LinuxRecovery.VolumeSearch
import LinuxRecovery.Ubigen
import LinuxRecovery.UbiPrepare
import LinuxRecovery.VolumeSize
import LinuxRecovery.UbiPeb
import LinuxRecovery.LayoutBypass
import LinuxRecovery.RequestLog
import LinuxRecovery.RecordedBlocks
import LinuxRecovery.RecordedRuns
import LinuxRecovery.UbiVolume
import LinuxRecovery.MtdBlock
import LinuxRecovery.ProgressDivisor
import LinuxRecovery.WriteUnits
import LinuxRecovery.PartitionNames
import LinuxRecovery.Verifier
import LinuxRecovery.TypeList
import LinuxRecovery.ManifestShape
import LinuxRecovery.OffsetWidth
import LinuxRecovery.SysinfoRollback
import LinuxRecovery.PartialSteps
import LinuxRecovery.MtdManager
import LinuxRecovery.PrepareRuns
import LinuxRecovery.PrepareOrder
import LinuxRecovery.Extraction
import LinuxRecovery.Uevent
import LinuxRecovery.IcmpEcho
import LinuxRecovery.Drawing
import LinuxRecovery.DeviceLayout
import LinuxRecovery.CapacityRule
import LinuxRecovery.SliceSizes
import LinuxRecovery.UbiImage
import LinuxRecovery.ArchiveDirectory
import LinuxRecovery.PartitionTable
import LinuxRecovery.IcmpChecksum
import LinuxRecovery.ChunkPlacement
import LinuxRecovery.SysinfoAttempts
import LinuxRecovery.Montgomery
import LinuxRecovery.RsaWords
import LinuxRecovery.RsaPower
import LinuxRecovery.BlockStream
import LinuxRecovery.Sha1
import LinuxRecovery.Sha1Standard
import LinuxRecovery.Sha1Unrolled
import LinuxRecovery.RsaTrapdoor
import LinuxRecovery.RsaVerify
import LinuxRecovery.SignedFile
import LinuxRecovery.SignPackage
import LinuxRecovery.LoadKeys
import LinuxRecovery.DumpPublicKey
import LinuxRecovery.CertifiedPackages
import LinuxRecovery.ShiftRegister
import LinuxRecovery.Crc32
import LinuxRecovery.EraseCounts
import LinuxRecovery.UbiScan
import LinuxRecovery.Rescan
import LinuxRecovery.DirectoryTree
import LinuxRecovery.MortalPrograms
import LinuxRecovery.MountManager
import LinuxRecovery.StorageCycle
import LinuxRecovery.Hotplug
import LinuxRecovery.MainTask
