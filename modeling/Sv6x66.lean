import Sv6x66.Lib.NorFlash
import Sv6x66.Lib.RunningMin
import Sv6x66.Lib.Run
import Sv6x66.Colink.FlagLog
import Sv6x66.Colink.FlagLogRefinement
import Sv6x66.Colink.MinTime
import Sv6x66.Colink.TimerEvents
import Sv6x66.Colink.Mytime
import Sv6x66.Colink.UpTimer
import Sv6x66.Colink.UartData
import Sv6x66.Lib.VirtualRing
import Sv6x66.Lib.BoundedQueue
import Sv6x66.Lib.CString
import Sv6x66.Lib.ByteFile
import Sv6x66.Lib.KeyTable
import Sv6x66.Lib.Loop
import Sv6x66.Colink.OtaHttp
import Sv6x66.Colink.OtaDownload
import Sv6x66.Colink.OtaComplete
import Sv6x66.Colink.OtaUpgrade
import Sv6x66.Colink.OtaAuthentic
import Sv6x66.Cli.RxRing
import Sv6x66.Lib.IntrusiveList
import Sv6x66.Atcmd.SocketList
import Sv6x66.Atcmd.SocketOrder
import Sv6x66.Atcmd.RecvTask
import Sv6x66.Atcmd.Cursor
import Sv6x66.Atcmd.Realization
import Sv6x66.Atcmd.CloseRequest
import Sv6x66.Atcmd.Ownership
import Sv6x66.Colink.Clock
import Sv6x66.Colink.EspTouch
import Sv6x66.Colink.EspComplete
import Sv6x66.Colink.EspDecode
import Sv6x66.Colink.EspRun
import Sv6x66.Colink.EspFinish
import Sv6x66.Colink.EspGuide
import Sv6x66.Colink.EspSession
import Sv6x66.Atcmd.CommandLine
import Sv6x66.Atcmd.Handlers
import Sv6x66.Atcmd.CommandTable
import Sv6x66.Atcmd.ArgumentSafety
import Sv6x66.Colink.TimerText
import Sv6x66.Colink.CronText
import Sv6x66.Colink.TimerStore
import Sv6x66.Colink.KeyLedQueue
import Sv6x66.Colink.RecvUpdate
import Sv6x66.Lib.CJson
import Sv6x66.Lib.FrontFill
import Sv6x66.Colink.UpdateExact
import Sv6x66.Colink.StoreAgreement
import Sv6x66.Colink.CloudSafety
import Sv6x66.Colink.DivisionFree
import Sv6x66.Colink.Schedule
import Sv6x66.Lib.Fair
import Sv6x66.Atcmd.Serving
import Sv6x66.Atcmd.ServingInvariant
import Sv6x66.Atcmd.Termination
import Sv6x66.Atcmd.ServingReturns
import Sv6x66.Atcmd.ServingRefinement
import Sv6x66.Colink.KeyLed
import Sv6x66.Colink.RelayState
import Sv6x66.Colink.KeyLedConfig
import Sv6x66.Colink.LinkStatus
import Sv6x66.Colink.ConfigMode
import Sv6x66.Colink.PowerLoss
import Sv6x66.Lib.StreamRing
import Sv6x66.Colink.UartFifo
import Sv6x66.Lib.SeenMask
import Sv6x66.Lib.ShiftWindow
import Sv6x66.Colink.MaoxinCommand
import Sv6x66.Colink.DlRequest
import Sv6x66.Colink.DlLength
import Sv6x66.Colink.DlAccept
import Sv6x66.Utils.SpiBurn
import Sv6x66.Lib.Framing
import Sv6x66.Tylink.McuLink
import Sv6x66.Tylink.FrameDispatch
import Sv6x66.Tylink.FirmwareRelay
import Sv6x66.Tylink.Datapoints
import Sv6x66.Libc.Vsnprintf
import Sv6x66.Tylink.UniStorge
import Sv6x66.Tylink.FlashPort
import Sv6x66.Udhcp.Packet
import Sv6x66.Udhcp.Leases
import Sv6x66.Udhcp.Dhcpd
import Sv6x66.Udhcp.MessageFilter
import Sv6x66.Udhcp.OwnReply
import Sv6x66.Udhcp.LeaseTable
import Sv6x66.Udhcp.LeaseExclusive
import Sv6x66.Udhcp.OfferHonoured
import Sv6x66.Udhcp.Lifecycle
import Sv6x66.Colink.DelayPeriod
import Sv6x66.Colink.DueActions
import Sv6x66.Colink.DisabledTimers
import Sv6x66.Colink.OneAction
import Sv6x66.Lib.Gregorian
import Sv6x66.Colink.Calendar
import Sv6x66.Lib.LinkedQueue
import Sv6x66.Ayla.AdaCall
import Sv6x66.Ayla.AdaLoop
import Sv6x66.Ayla.PfmNetTcp
import Sv6x66.Lib.Fields
import Sv6x66.Atcmd.ArgumentSplit
import Sv6x66.Atcmd.ListenLookup
import Sv6x66.Atcmd.ApSelection
import Sv6x66.Colink.KeyCheck
import Sv6x66.Lib.Deadline
import Sv6x66.Colink.TimeoutWrap
import Sv6x66.Cli.LineEditor
import Sv6x66.Colink.OtaServer
import Sv6x66.Colink.OtaMemory
import Sv6x66.Colink.EspBounds
import Sv6x66.Colink.OtaDigest
import Sv6x66.Cfg.SectorWrite
import Sv6x66.Cfg.UserFlash
import Sv6x66.Lib.Words
import Sv6x66.Atcmd.IpText
import Sv6x66.Cfg.MacText
import Sv6x66.Cfg.JsonText
import Sv6x66.Cfg.MacConfig
import Sv6x66.Atcmd.NumberText
import Sv6x66.Udhcp.LeaseList
import Sv6x66.Udhcp.HostName
import Sv6x66.Udhcp.LeaseClock
import Sv6x66.Udhcp.SetInfo
import Sv6x66.Ayla.Clock
import Sv6x66.Ayla.Persist
import Sv6x66.Ayla.PfmOta
import Sv6x66.Ayla.FailedWrite
import Sv6x66.Ayla.TlsSend
import Sv6x66.Colink.FlagSearch
import Sv6x66.Cli.Tokenizer
import Sv6x66.Ayla.Timer
import Sv6x66.Ayla.SyncReturns
import Sv6x66.Tylink.DatapointCodec
import Sv6x66.Colink.PowerOnGesture
import Sv6x66.Tylink.TuyaKey
import Sv6x66.Udhcp.OptionCodec
import Sv6x66.Udhcp.Availability
import Sv6x66.Cjson.RoundTrip
