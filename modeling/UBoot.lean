import UBoot.Runs
import UBoot.Memory
import UBoot.Words
import UBoot.Octets
import UBoot.Montgomery
import UBoot.RsaModExp
import UBoot.RsaVerify
import UBoot.RsaPss
import UBoot.Ring
import UBoot.Membuf
import UBoot.MembufReadline
import UBoot.DhcpOptions
import UBoot.Bloblist
import UBoot.BloblistBounds
import UBoot.BloblistResize
import UBoot.Intervals
import UBoot.Lmb
import UBoot.LmbLists
import UBoot.LmbRuns
import UBoot.LmbUndo
import UBoot.LmbAlloc
import UBoot.LmbSound
import UBoot.Hashtable
import UBoot.EnvText
import UBoot.EnvComplete
import UBoot.EnvEarly
import UBoot.EnvExport
import UBoot.RecoveryHttpd
import UBoot.RecoveryRuns
import UBoot.RecoveryOwnership
import UBoot.RecoveryIsolation
import UBoot.RecoveryFlash
import UBoot.EnvRedund
import UBoot.EnvUbi
import UBoot.EnvSf
import UBoot.EnvMtd
import UBoot.EfiMemory
import UBoot.EfiLmb
import UBoot.EfiPagesUndo
import UBoot.KeyedLists
import UBoot.EfiVarMem
import UBoot.EfiVarCommon
import UBoot.EfiVariable
import UBoot.EfiVarMap
import UBoot.EfiSecureState
import UBoot.EfiAuthenticated
import UBoot.EfiVarFile
import UBoot.EfiVarRuntime
import UBoot.Buffers
import UBoot.Charset
import UBoot.EfiLoadOptions
import UBoot.CharsetLengths
import UBoot.Utf8Stream
import UBoot.PowerCuts
import UBoot.AndroidAb
import UBoot.AndroidAbRuns
import UBoot.Fwu
import UBoot.ImageSparse
import UBoot.EfiPe
import UBoot.EfiImageParse
import UBoot.EfiLoadPe
import UBoot.FitRequiredKeys
import UBoot.Uuid
import UBoot.PartEfi
import UBoot.Fdt
import UBoot.FdtRegion
import UBoot.FitConfigSig
import UBoot.EfiDevicePath
import UBoot.EfiCapsule
import UBoot.EfiSignature
import UBoot.EfiWincerts
import UBoot.DeviceBind
import UBoot.DeviceProbe
import UBoot.Tftp
import UBoot.OfNode
import UBoot.UplHandoff
import UBoot.UplRoundTrip
import UBoot.FwEnv
import UBoot.FwEnvRuns
import UBoot.Fat
import UBoot.FatFile
import UBoot.FatFileWrite
import UBoot.RecoveryUpload
import UBoot.RecoveryValidator
import UBoot.RecoveryResolve
import UBoot.RecoveryBuffer
import UBoot.RecoveryBackup
import UBoot.RecoveryWrite
import UBoot.DhcpServer
import UBoot.NetLwip
import UBoot.EnvEntries
import UBoot.EnvCrlf
import UBoot.TftpPut
import UBoot.PartDos
import UBoot.PartDosTables
import UBoot.UenvTrigger
import UBoot.EfiVarRestore
import UBoot.UbiSpace
import UBoot.RecoveryUbi
import UBoot.EnvEarly
import UBoot.AlistGrowth
import UBoot.GptBounds
import UBoot.GptRepair
import UBoot.GptLayout
import UBoot.BestPick
import UBoot.FitConfigCompat
import UBoot.FatSectors
import UBoot.EfiRevocation
import UBoot.EfiSigstore
import UBoot.FwEnvBlock
import UBoot.CliReadline
import UBoot.RtcDates
import UBoot.TftpGaps
import UBoot.PartDosWalk
import UBoot.EfiRelocate
import UBoot.DeviceQuiesce
import UBoot.FatRuns
