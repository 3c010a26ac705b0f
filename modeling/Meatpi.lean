import Meatpi.Autopid.Sched
import Meatpi.Autopid.RespPlain
import Meatpi.Autopid.DbcAccepted
import Meatpi.Autopid.J1939Expr
import Meatpi.Autopid.StdFreeze
import Meatpi.Autopid.DtcClear
import Meatpi.Autopid.FilterStream
import Meatpi.Autopid.NamesRepair
import Meatpi.Autopid.VehicleMatch
import Meatpi.Autopid.Fingerprint
import Meatpi.Autopid.VehicleTables
import Meatpi.Autopid.Chain
import Meatpi.Autopid.DtcDbLoad
import Meatpi.J1939.TpAbort
import Meatpi.J1939.TpPacing
import Meatpi.J1939.TpStreams
import Meatpi.J1939.ClaimRuns
import Meatpi.J1939.Tx
import Meatpi.J1939.CacheMap
import Meatpi.ObdChip.Claim
import Meatpi.ObdChip.Fanout
import Meatpi.CanManager.Recovery
import Meatpi.CanManager.Silence
import Meatpi.BleHttp.Flow
import Meatpi.BleHttp.Resync
import Meatpi.BleHttp.Head
import Meatpi.J2534.FrameStream
import Meatpi.J2534.Filters
import Meatpi.EspnetlinkLink.Cycles
import Meatpi.EventManager.While
import Meatpi.EventManager.Workers
import Meatpi.DataLogger.Writer
import Meatpi.DataLogger.Repair
import Meatpi.DataLogger.StoreOrder
import Meatpi.SettingsManager.RestoreBoot
import Meatpi.SettingsManager.Fields
import Meatpi.ConfigBackup.ScanJson
import Meatpi.ConfigBackup.Restore
import Meatpi.ConfigBackup.Redact
import Meatpi.ConfigBackup.Hold
import Meatpi.MqttCan.Reassembly
import Meatpi.ObdGate.Gate
import Meatpi.RestartTracker.Brake
import Meatpi.SleepManager.ActivityCap
import Meatpi.DataDestinations.TestCall
import Meatpi.UdsManager.AtPrint
import Meatpi.UdsManager.AtTransceive
import Meatpi.FwUpdate.VersionText
import Meatpi.FwUpdate.Path
import Meatpi.WifiManager.Starved
import Meatpi.WifiManager.Trial
import Meatpi.MultipartUpload.Travels
import Meatpi.MultipartUpload.Portions
import Meatpi.Translator.SlcanRoundTrip
import Meatpi.Translator.GvretStream
import Meatpi.Translator.Realdash
import Meatpi.BridgeManager.Config
import Meatpi.BridgeManager.Pump
import Meatpi.PartitionMigrate.Table
import Meatpi.FlashJobs.Worker
