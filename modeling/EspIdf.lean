import EspIdf.Lhdc.RiceLazy
import EspIdf.Lhdc.Quotients
import EspIdf.Lhdc.Window
import EspIdf.Lhdc.Mantissa
import EspIdf.Lhdc.Sns
import EspIdf.Lhdc.OverlapAdd
import EspIdf.Console.Quoting
import EspIdf.WearLevelling.Transparent
import EspIdf.Lib.RotatingGap
import EspIdf.WearLevelling.Geometry
import EspIdf.WearLevelling.Steps
import EspIdf.WearLevelling.Access
import EspIdf.WearLevelling.Mount
import EspIdf.WearLevelling.Transparent
import EspIdf.WearLevelling.Phases
import EspIdf.WearLevelling.Recovery
import EspIdf.WearLevelling.PowerLoss
import EspIdf.WearLevelling.Unaligned
import EspIdf.WearLevelling.ExtPerf
import EspIdf.WearLevelling.ExtSafe
import EspIdf.Ota.TeeOtaData
import EspIdf.Ota.OtaData
import EspIdf.Ota.OtaEntries
import EspIdf.Ota.OtaRuns
import EspIdf.Ota.Rollback
import EspIdf.Ota.OtaTorn
import EspIdf.Ota.OtaPower
import EspIdf.Ota.PowerCuts
import EspIdf.Ota.OtaWrite
import EspIdf.Ota.OtaWritten
import EspIdf.Ota.OtaChunks
import EspIdf.Ota.OtaInstalled
import EspIdf.A2dp.CodecInfo
import EspIdf.A2dp.RoundTrip
import EspIdf.A2dp.SinkConfig
import EspIdf.A2dp.SinkSound
import EspIdf.LogLevel.TagCache
import EspIdf.Lib.MinHeap
import EspIdf.LogLevel.CacheArray
import EspIdf.LogLevel.CacheHeap
import EspIdf.Blufi.BlufiPrf
import EspIdf.Blufi.Framing
import EspIdf.Blufi.Reassembly
import EspIdf.A2dp.AvCo
import EspIdf.A2dp.AvCoTables
import EspIdf.A2dp.Sink
import EspIdf.A2dp.SinkQueue
import EspIdf.EspTimer.Lists
import EspIdf.EspTimer.Interleavings
import EspIdf.EspTimer.Firing
import EspIdf.BleLog.Checksum
import EspIdf.BleLog.Frame
import EspIdf.BleLog.Delivery
import EspIdf.BleLog.DeliveryRuns
import EspIdf.Httpd.Blocks
import EspIdf.Httpd.Parse
import EspIdf.A2dp.SinkFlush
import EspIdf.Efuse.Batch
import EspIdf.Efuse.Transaction
import EspIdf.EspEvent.Edits
import EspIdf.EspEvent.Refinement
import EspIdf.Httpd.Sessions
import EspIdf.Httpd.WsRecv
import EspIdf.Mesh.Rpl
import EspIdf.EspEvent.InForce
import EspIdf.EspEvent.Legacy
import EspIdf.EspEvent.Tasks
import EspIdf.Osi.Config
import EspIdf.Osi.ConfigRoundTrip
import EspIdf.Httpd.WsSend
import EspIdf.Httpd.Uri
import EspIdf.Httpd.Query
import EspIdf.Hid.History
import EspIdf.Flash.Rows
import EspIdf.Flash.Encrypted
import EspIdf.Osi.ThreadEvent
import EspIdf.Efuse.Coding
import EspIdf.Hid.Lengths
import EspIdf.Nvs.Skipped
import EspIdf.Nvs.Collected
import EspIdf.WearLevelling.EraseRange
import EspIdf.Ota.BootAgree
import EspIdf.Lhdc.PacketWalk
import EspIdf.A2dp.BuiltConfig
import EspIdf.WearLevelling.Upgrade
import EspIdf.A2dp.LatmExact
import EspIdf.A2dp.LatmHistory
import EspIdf.LogLevel.Eviction
import EspIdf.WearLevelling.Footprint
import EspIdf.Mmu.Allocator
import EspIdf.Image.SegmentReads
import EspIdf.Httpd.AnyBlocks
