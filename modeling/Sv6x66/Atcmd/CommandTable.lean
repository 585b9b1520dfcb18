import Sv6x66.Atcmd.Handlers

/-! The command table of `atcmd.c`, as the project is configured, with the
user configuration command. -/
namespace Sv6x66.Atcmd.CommandTable
open Sv6x66.Lib.CString CommandLine Handlers

inductive Handler where
  | atReboot | atGetVersion | atGetManufactureInfo | atNetScan | atSetWifiConfig
  | atSetWifiConfig2 | atGetConfigure | atConnect | atConnect2 | atDisconnect | atDisconnect2
  | atSetIfConfigure | atSetIfConfigure2 | atGetNetStatus | atGetNetStatus2 | atShowConnectAp
  | atShowAllAp | atDutstart | atConnectActive | atPing | atApExit | atSetApconfig | atAp
  | atGetApmode | atHkap | atTcpConnect | atTcpSend | atTcpDisconnect | atTcpListen
  | atTcpUnlisten | atUdpCreate | atUdpSend | atUdpClose | atCfgParser | atCfgTester
  | atCfgWifiTester | atUserFlsh | atShowRfCommand | atRadioRfStart | atRadioChannel
  | atRadioRfRate | atRadioRfBandGain | atRadioRfGain | atRadioRfRateGain | atRadioRfReadTempcs
  | atRadioRfStop | atRadioRfReset | atRadioRfCount | atRadioEnableTcsr | atRadioRfDump
  | atRfCaliDpd | atRfManuDpd | atRadioRfFreqoffset | atRadioRfFreqoffsetReadxo
  | atRadioRfFreqoffsetReadxi | atRadioRf2Gpa1 | atRadioRf2Gpa2 | atRadioRf2Gpa3
  | atRadioRf2GpaBias | atRadioRf2GpaCell | atRadioRf2GpaCap | atRadioRfLdo | atRadioRfDcdc
  | atRadioRfDcdcv | atRadioRfDldov | atRadioRfXoldo | atRadioRfRxPadCh13
  | atRadioRfTempBoundary | atRfTableRt | atRfTableHt | atRfTableLt | atRfTableGain
  | atRfTableBRateGain | atRfTableGRateGain | atRfTable20NRateGain | atRfTable40NRateGain
  | atRadioWriteMac1 | atRadioReadMac1 | atRadioWriteMac2 | atRadioReadMac2
  | atEfuseEnableWrite | atEfuseWriteMac | atEfuseReadMac | atEfuseDump | atRf5GbbScale
  | atRf5GBias1 | atRf5GBias2 | atRf5GTableRt | atRf5GTableHt | atRf5GTableLt
  | atRf5GTableBias1 | atRf5GTableBias2 | atRf5GBandThreshold | atRfSingleTone | atSslTest
  | atSmartConfig | atSetAutoConnect | atOtaSetServer | atOtaSetParam | atOtaStart
  | atSetGpioTriState | atSetGpioLogic | atSetGpioPull | atReadGpio | atSetGpioInt | atSetPwm
  | atSetPwmDisable | atSetPwmEnable | atSetPwmReconfig | atFixrate | atRcmask
  | atCmdSetCountryCode | atMacHwQueue | atMacHwmib | atCmdList
deriving DecidableEq

/-- The handlers that are linked from a library. -/
inductive LibraryHandler where
  | atHelp | atTestPeripheral | atSysinfo | atMeminfo | atMemdump | atIperf | atWriteReg32
  | atReadReg32 | atPowersave
deriving DecidableEq

/-- `PF_handle`. -/
inductive PfHandle where
  | source (h : Handler)
  | library (h : LibraryHandler)
deriving DecidableEq

def Handler.code [AtoiBeyond] : Handler → Code
  | .atReboot => Handlers.atReboot
  | .atGetVersion => Handlers.atGetVersion
  | .atGetManufactureInfo => Handlers.atGetManufactureInfo
  | .atNetScan => Handlers.atNetScan
  | .atSetWifiConfig => Handlers.atSetWifiConfig
  | .atSetWifiConfig2 => Handlers.atSetWifiConfig2
  | .atGetConfigure => Handlers.atGetConfigure
  | .atConnect => Handlers.atConnect
  | .atConnect2 => Handlers.atConnect2
  | .atDisconnect => Handlers.atDisconnect
  | .atDisconnect2 => Handlers.atDisconnect2
  | .atSetIfConfigure => Handlers.atSetIfConfigure
  | .atSetIfConfigure2 => Handlers.atSetIfConfigure2
  | .atGetNetStatus => Handlers.atGetNetStatus
  | .atGetNetStatus2 => Handlers.atGetNetStatus2
  | .atShowConnectAp => Handlers.atShowConnectAp
  | .atShowAllAp => Handlers.atShowAllAp
  | .atDutstart => Handlers.atDutstart
  | .atConnectActive => Handlers.atConnectActive
  | .atPing => Handlers.atPing
  | .atApExit => Handlers.atApExit
  | .atSetApconfig => Handlers.atSetApconfig
  | .atAp => Handlers.atAp
  | .atGetApmode => Handlers.atGetApmode
  | .atHkap => Handlers.atHkap
  | .atTcpConnect => Handlers.atTcpConnect
  | .atTcpSend => Handlers.atTcpSend
  | .atTcpDisconnect => Handlers.atTcpDisconnect
  | .atTcpListen => Handlers.atTcpListen
  | .atTcpUnlisten => Handlers.atTcpUnlisten
  | .atUdpCreate => Handlers.atUdpCreate
  | .atUdpSend => Handlers.atUdpSend
  | .atUdpClose => Handlers.atUdpClose
  | .atCfgParser => Handlers.atCfgParser
  | .atCfgTester => Handlers.atCfgTester
  | .atCfgWifiTester => Handlers.atCfgWifiTester
  | .atUserFlsh => Handlers.atUserFlsh
  | .atShowRfCommand => Handlers.atShowRfCommand
  | .atRadioRfStart => Handlers.atRadioRfStart
  | .atRadioChannel => Handlers.atRadioChannel
  | .atRadioRfRate => Handlers.atRadioRfRate
  | .atRadioRfBandGain => Handlers.atRadioRfBandGain
  | .atRadioRfGain => Handlers.atRadioRfGain
  | .atRadioRfRateGain => Handlers.atRadioRfRateGain
  | .atRadioRfReadTempcs => Handlers.atRadioRfReadTempcs
  | .atRadioRfStop => Handlers.atRadioRfStop
  | .atRadioRfReset => Handlers.atRadioRfReset
  | .atRadioRfCount => Handlers.atRadioRfCount
  | .atRadioEnableTcsr => Handlers.atRadioEnableTcsr
  | .atRadioRfDump => Handlers.atRadioRfDump
  | .atRfCaliDpd => Handlers.atRfCaliDpd
  | .atRfManuDpd => Handlers.atRfManuDpd
  | .atRadioRfFreqoffset => Handlers.atRadioRfFreqoffset
  | .atRadioRfFreqoffsetReadxo => Handlers.atRadioRfFreqoffsetReadxo
  | .atRadioRfFreqoffsetReadxi => Handlers.atRadioRfFreqoffsetReadxi
  | .atRadioRf2Gpa1 => Handlers.atRadioRf2Gpa1
  | .atRadioRf2Gpa2 => Handlers.atRadioRf2Gpa2
  | .atRadioRf2Gpa3 => Handlers.atRadioRf2Gpa3
  | .atRadioRf2GpaBias => Handlers.atRadioRf2GpaBias
  | .atRadioRf2GpaCell => Handlers.atRadioRf2GpaCell
  | .atRadioRf2GpaCap => Handlers.atRadioRf2GpaCap
  | .atRadioRfLdo => Handlers.atRadioRfLdo
  | .atRadioRfDcdc => Handlers.atRadioRfDcdc
  | .atRadioRfDcdcv => Handlers.atRadioRfDcdcv
  | .atRadioRfDldov => Handlers.atRadioRfDldov
  | .atRadioRfXoldo => Handlers.atRadioRfXoldo
  | .atRadioRfRxPadCh13 => Handlers.atRadioRfRxPadCh13
  | .atRadioRfTempBoundary => Handlers.atRadioRfTempBoundary
  | .atRfTableRt => Handlers.atRfTableRt
  | .atRfTableHt => Handlers.atRfTableHt
  | .atRfTableLt => Handlers.atRfTableLt
  | .atRfTableGain => Handlers.atRfTableGain
  | .atRfTableBRateGain => Handlers.atRfTableBRateGain
  | .atRfTableGRateGain => Handlers.atRfTableGRateGain
  | .atRfTable20NRateGain => Handlers.atRfTable20NRateGain
  | .atRfTable40NRateGain => Handlers.atRfTable40NRateGain
  | .atRadioWriteMac1 => Handlers.atRadioWriteMac1
  | .atRadioReadMac1 => Handlers.atRadioReadMac1
  | .atRadioWriteMac2 => Handlers.atRadioWriteMac2
  | .atRadioReadMac2 => Handlers.atRadioReadMac2
  | .atEfuseEnableWrite => Handlers.atEfuseEnableWrite
  | .atEfuseWriteMac => Handlers.atEfuseWriteMac
  | .atEfuseReadMac => Handlers.atEfuseReadMac
  | .atEfuseDump => Handlers.atEfuseDump
  | .atRf5GbbScale => Handlers.atRf5GbbScale
  | .atRf5GBias1 => Handlers.atRf5GBias1
  | .atRf5GBias2 => Handlers.atRf5GBias2
  | .atRf5GTableRt => Handlers.atRf5GTableRt
  | .atRf5GTableHt => Handlers.atRf5GTableHt
  | .atRf5GTableLt => Handlers.atRf5GTableLt
  | .atRf5GTableBias1 => Handlers.atRf5GTableBias1
  | .atRf5GTableBias2 => Handlers.atRf5GTableBias2
  | .atRf5GBandThreshold => Handlers.atRf5GBandThreshold
  | .atRfSingleTone => Handlers.atRfSingleTone
  | .atSslTest => Handlers.atSslTest
  | .atSmartConfig => Handlers.atSmartConfig
  | .atSetAutoConnect => Handlers.atSetAutoConnect
  | .atOtaSetServer => Handlers.atOtaSetServer
  | .atOtaSetParam => Handlers.atOtaSetParam
  | .atOtaStart => Handlers.atOtaStart
  | .atSetGpioTriState => Handlers.atSetGpioTriState
  | .atSetGpioLogic => Handlers.atSetGpioLogic
  | .atSetGpioPull => Handlers.atSetGpioPull
  | .atReadGpio => Handlers.atReadGpio
  | .atSetGpioInt => Handlers.atSetGpioInt
  | .atSetPwm => Handlers.atSetPwm
  | .atSetPwmDisable => Handlers.atSetPwmDisable
  | .atSetPwmEnable => Handlers.atSetPwmEnable
  | .atSetPwmReconfig => Handlers.atSetPwmReconfig
  | .atFixrate => Handlers.atFixrate
  | .atRcmask => Handlers.atRcmask
  | .atCmdSetCountryCode => Handlers.atCmdSetCountryCode
  | .atMacHwQueue => Handlers.atMacHwQueue
  | .atMacHwmib => Handlers.atMacHwmib
  | .atCmdList => Handlers.atCmdList

def atcmdicommInfoTbl : List (AtCmdInfo PfHandle) := [
  ⟨ofString "AT+REBOOT", .source .atReboot, 0⟩,
  ⟨ofString "help", .library .atHelp, 0⟩,
  ⟨ofString "AT+VERSION", .source .atGetVersion, 0⟩,
  ⟨ofString "AT+MF_INFO", .source .atGetManufactureInfo, 0⟩,
  ⟨ofString "AT+SCAN", .source .atNetScan, 0⟩,
  ⟨ofString "AT+SET_WIFICONFIG", .source .atSetWifiConfig, 0⟩,
  ⟨ofString "AT+SET_WIFICONFIG2", .source .atSetWifiConfig2, 0⟩,
  ⟨ofString "AT+GET_CONFIG", .source .atGetConfigure, 0⟩,
  ⟨ofString "AT+WIFICONNECT", .source .atConnect, 0⟩,
  ⟨ofString "AT+WIFICONNECT2", .source .atConnect2, 0⟩,
  ⟨ofString "AT+WIFIDISCONNECT", .source .atDisconnect, 0⟩,
  ⟨ofString "AT+WIFIDISCONNECT2", .source .atDisconnect2, 0⟩,
  ⟨ofString "AT+SET_IFCONFIG", .source .atSetIfConfigure, 0⟩,
  ⟨ofString "AT+SET_IFCONFIG2", .source .atSetIfConfigure2, 0⟩,
  ⟨ofString "AT+NETSTATUS", .source .atGetNetStatus, 0⟩,
  ⟨ofString "AT+NETSTATUS2", .source .atGetNetStatus2, 0⟩,
  ⟨ofString "AT+SHOWCONNECTAP", .source .atShowConnectAp, 0⟩,
  ⟨ofString "AT+SHOWALLAP", .source .atShowAllAp, 0⟩,
  ⟨ofString "AT+DUT_START", .source .atDutstart, 0⟩,
  ⟨ofString "AT+ACTIVECONNECT", .source .atConnectActive, 0⟩,
  ⟨ofString "testp", .library .atTestPeripheral, 0⟩,
  ⟨ofString "sysinfo", .library .atSysinfo, 0⟩,
  ⟨ofString "meminfo", .library .atMeminfo, 0⟩,
  ⟨ofString "md", .library .atMemdump, 2⟩,
  ⟨ofString "iperf", .library .atIperf, 0⟩,
  ⟨ofString "ping", .source .atPing, 0⟩,
  ⟨ofString "regw", .library .atWriteReg32, 0⟩,
  ⟨ofString "regr", .library .atReadReg32, 2⟩,
  ⟨ofString "AT+AP_EXIT", .source .atApExit, 0⟩,
  ⟨ofString "AT+SET_APCONFIG", .source .atSetApconfig, 0⟩,
  ⟨ofString "AT+AP", .source .atAp, 0⟩,
  ⟨ofString "AT+GET_APMODE", .source .atGetApmode, 0⟩,
  ⟨ofString "AT+HKAP", .source .atHkap, 0⟩,
  ⟨ofString "AT+TCPCONNECT", .source .atTcpConnect, 0⟩,
  ⟨ofString "AT+TCPSEND", .source .atTcpSend, 2⟩,
  ⟨ofString "AT+TCPDISCONNECT", .source .atTcpDisconnect, 0⟩,
  ⟨ofString "AT+TCPLISTEN", .source .atTcpListen, 0⟩,
  ⟨ofString "AT+TCPUNLISTEN", .source .atTcpUnlisten, 0⟩,
  ⟨ofString "AT+UDPCREATE", .source .atUdpCreate, 0⟩,
  ⟨ofString "AT+UDPSEND", .source .atUdpSend, 4⟩,
  ⟨ofString "AT+UDPCLOSE", .source .atUdpClose, 0⟩,
  ⟨ofString "AT+CFGPARSER", .source .atCfgParser, 0⟩,
  ⟨ofString "AT+CFG_TESTER", .source .atCfgTester, 0⟩,
  ⟨ofString "AT+CFG_MAC_TESTER", .source .atCfgWifiTester, 0⟩,
  ⟨ofString "AT+USER_FLASH", .source .atUserFlsh, 0⟩,
  ⟨ofString "rf", .source .atShowRfCommand, 0⟩,
  ⟨ofString "AT+RF_START", .source .atRadioRfStart, 2⟩,
  ⟨ofString "AT+RF_CHANNEL", .source .atRadioChannel, 0⟩,
  ⟨ofString "AT+RF_RATE", .source .atRadioRfRate, 1⟩,
  ⟨ofString "AT+RF_2GBAND_GAIN", .source .atRadioRfBandGain, 1⟩,
  ⟨ofString "AT+RF_GAIN", .source .atRadioRfGain, 1⟩,
  ⟨ofString "AT+RF_RATE_GAIN", .source .atRadioRfRateGain, 2⟩,
  ⟨ofString "AT+RF_READ_TEMPCS", .source .atRadioRfReadTempcs, 0⟩,
  ⟨ofString "AT+RF_STOP", .source .atRadioRfStop, 0⟩,
  ⟨ofString "AT+RF_RESET", .source .atRadioRfReset, 0⟩,
  ⟨ofString "AT+RF_COUNT", .source .atRadioRfCount, 1⟩,
  ⟨ofString "AT+RF_ENABLE_TCSR", .source .atRadioEnableTcsr, 1⟩,
  ⟨ofString "AT+RF_DUMP", .source .atRadioRfDump, 0⟩,
  ⟨ofString "AT+RF_CALI_DPD", .source .atRfCaliDpd, 1⟩,
  ⟨ofString "AT+RF_MANU_DPD", .source .atRfManuDpd, 0⟩,
  ⟨ofString "AT+RF_FREQOFFSET", .source .atRadioRfFreqoffset, 2⟩,
  ⟨ofString "AT+RF_FREQOFFSET_READXO", .source .atRadioRfFreqoffsetReadxo, 0⟩,
  ⟨ofString "AT+RF_FREQOFFSET_READXI", .source .atRadioRfFreqoffsetReadxi, 0⟩,
  ⟨ofString "AT+RF_2GPA1", .source .atRadioRf2Gpa1, 1⟩,
  ⟨ofString "AT+RF_2GPA2", .source .atRadioRf2Gpa2, 1⟩,
  ⟨ofString "AT+RF_2GPA3", .source .atRadioRf2Gpa3, 1⟩,
  ⟨ofString "AT+RF_2GPABIAS", .source .atRadioRf2GpaBias, 1⟩,
  ⟨ofString "AT+RF_2GPACELL", .source .atRadioRf2GpaCell, 1⟩,
  ⟨ofString "AT+RF_2GPACAP", .source .atRadioRf2GpaCap, 1⟩,
  ⟨ofString "AT+RF_LDO", .source .atRadioRfLdo, 1⟩,
  ⟨ofString "AT+RF_DCDC", .source .atRadioRfDcdc, 1⟩,
  ⟨ofString "AT+RF_DCDCV", .source .atRadioRfDcdcv, 1⟩,
  ⟨ofString "AT+RF_DLDOV", .source .atRadioRfDldov, 1⟩,
  ⟨ofString "AT+RF_XOLDO", .source .atRadioRfXoldo, 1⟩,
  ⟨ofString "AT+RF_RXPAD_CH13", .source .atRadioRfRxPadCh13, 1⟩,
  ⟨ofString "AT+RF_TEMP_BOUNDARY", .source .atRadioRfTempBoundary, 2⟩,
  ⟨ofString "AT+RF_TABLE_RT", .source .atRfTableRt, 18⟩,
  ⟨ofString "AT+RF_TABLE_HT", .source .atRfTableHt, 18⟩,
  ⟨ofString "AT+RF_TABLE_LT", .source .atRfTableLt, 18⟩,
  ⟨ofString "AT+RF_TABLE_GAIN", .source .atRfTableGain, 18⟩,
  ⟨ofString "AT+RF_TABLE_BRATE_GAIN", .source .atRfTableBRateGain, 1⟩,
  ⟨ofString "AT+RF_TABLE_GRATE_GAIN", .source .atRfTableGRateGain, 4⟩,
  ⟨ofString "AT+RF_TABLE_20NRATE_GAIN", .source .atRfTable20NRateGain, 4⟩,
  ⟨ofString "AT+RF_TABLE_40NRATE_GAIN", .source .atRfTable40NRateGain, 4⟩,
  ⟨ofString "AT+RF_WRITE_MAC1", .source .atRadioWriteMac1, 1⟩,
  ⟨ofString "AT+RF_READ_MAC1", .source .atRadioReadMac1, 1⟩,
  ⟨ofString "AT+RF_WRITE_MAC2", .source .atRadioWriteMac2, 1⟩,
  ⟨ofString "AT+RF_READ_MAC2", .source .atRadioReadMac2, 1⟩,
  ⟨ofString "AT+EFUSE_ENABLE_WRITE", .source .atEfuseEnableWrite, 0⟩,
  ⟨ofString "AT+EFUSE_WRITE_MAC", .source .atEfuseWriteMac, 1⟩,
  ⟨ofString "AT+EFUSE_READ_MAC", .source .atEfuseReadMac, 1⟩,
  ⟨ofString "AT+EFUSE_DUMP", .source .atEfuseDump, 0⟩,
  ⟨ofString "AT+RF_5G_BB_SCALE", .source .atRf5GbbScale, 0⟩,
  ⟨ofString "AT+RF_5G_BIAS1", .source .atRf5GBias1, 0⟩,
  ⟨ofString "AT+RF_5G_BIAS2", .source .atRf5GBias2, 0⟩,
  ⟨ofString "AT+RF_5GTABLE_RT", .source .atRf5GTableRt, 0⟩,
  ⟨ofString "AT+RF_5GTABLE_HT", .source .atRf5GTableHt, 0⟩,
  ⟨ofString "AT+RF_5GTABLE_LT", .source .atRf5GTableLt, 0⟩,
  ⟨ofString "AT+RF_5GTABLE_BIAS1", .source .atRf5GTableBias1, 0⟩,
  ⟨ofString "AT+RF_5GTABLE_BIAS2", .source .atRf5GTableBias2, 0⟩,
  ⟨ofString "AT+RF_5GTABLE_BAND_THRESHOLD", .source .atRf5GBandThreshold, 0⟩,
  ⟨ofString "AT+RF_TONE_GEN", .source .atRfSingleTone, 0⟩,
  ⟨ofString "AT+POWERSAVE", .library .atPowersave, 0⟩,
  ⟨ofString "AT+SSLTEST", .source .atSslTest, 0⟩,
  ⟨ofString "AT+SC", .source .atSmartConfig, 0⟩,
  ⟨ofString "AT+SET_AUTO_CONNECT", .source .atSetAutoConnect, 1⟩,
  ⟨ofString "AT+OTASETSERVER", .source .atOtaSetServer, 0⟩,
  ⟨ofString "AT+OTASETPARAM", .source .atOtaSetParam, 0⟩,
  ⟨ofString "AT+OTASTART", .source .atOtaStart, 0⟩,
  ⟨ofString "AT+SET_GPIO_TRI_STATE", .source .atSetGpioTriState, 0⟩,
  ⟨ofString "AT+SET_GPIO_LOGIC", .source .atSetGpioLogic, 0⟩,
  ⟨ofString "AT+SET_GPIO_PULL", .source .atSetGpioPull, 0⟩,
  ⟨ofString "AT+READ_GPIO", .source .atReadGpio, 0⟩,
  ⟨ofString "AT+SET_GPIO_INT", .source .atSetGpioInt, 0⟩,
  ⟨ofString "AT+SET_PWM", .source .atSetPwm, 0⟩,
  ⟨ofString "AT+SET_PWM_DISABLE", .source .atSetPwmDisable, 0⟩,
  ⟨ofString "AT+SET_PWM_ENABLE", .source .atSetPwmEnable, 0⟩,
  ⟨ofString "AT+SET_PWM_RECONFIG", .source .atSetPwmReconfig, 0⟩,
  ⟨ofString "fixrate", .source .atFixrate, 0⟩,
  ⟨ofString "rc_mask", .source .atRcmask, 0⟩,
  ⟨ofString "AT+SET_COUNTRY_CODE", .source .atCmdSetCountryCode, 0⟩,
  ⟨ofString "q", .source .atMacHwQueue, 0⟩,
  ⟨ofString "mib", .source .atMacHwmib, 0⟩,
  ⟨ofString "AT+H", .source .atCmdList, 0⟩]

theorem short_ofString {s : String} (h : s.utf8ByteSize < maxCmdLen) :
    (ofString s).length < maxCmdLen :=
  (length_ofString_le s).trans_lt h

theorem names_short : ∀ entry ∈ atcmdicommInfoTbl, entry.atCmd.length < maxCmdLen := by
  simp only [atcmdicommInfoTbl, List.forall_mem_cons]
  and_intros <;> first | exact short_ofString (by decide) | exact List.forall_mem_nil _

/-- No command is allowed more arguments than `argv` holds. -/
theorem maxargu_le : ∀ entry ∈ atcmdicommInfoTbl, entry.maxargu.toNat ≤ maxArgument := by
  decide +kernel

/-- A line runs the handler of its command word, whatever lines came before,
exactly if the word fits into `cmd`. -/
theorem atParser_eq_dispatch_iff (call : PfHandle → Param → Option Int) (line : Bytes) :
    (∀ stack, atParser atcmdicommInfoTbl call stack line = dispatch atcmdicommInfoTbl call line) ↔
      WordFits line := by
  constructor
  · intro h
    by_contra hlong
    have hparser := h (ofString "AT+REBOOT" ++ [0])
    rw [dispatch_of_not_fits names_short hlong] at hparser
    unfold atcmdicommInfoTbl at hparser
    rw [atParser_leftover (by decide) hlong] at hparser
    obtain ⟨nRet, -, heq⟩ := Option.map_eq_some_iff.mp hparser
    cases heq
  · intro hfits stack
    exact atParser_of_fits hfits stack

/-- After a reboot command, a word of 32 characters reboots. -/
theorem long_word_reboots :
    (atParser atcmdicommInfoTbl (fun _ _ => some 0) (ofString "AT+REBOOT" ++ [0])
        (List.replicate 32 65)).map Outcome.ran = some (some (.source .atReboot, .zero)) ∧
      (dispatch atcmdicommInfoTbl (fun _ _ => some 0) (List.replicate 32 65)).map Outcome.ran =
        some none := by
  have hlong : ¬ WordFits (List.replicate 32 65) := by
    rw [wordFits_iff]
    decide
  constructor
  · unfold atcmdicommInfoTbl
    rw [atParser_leftover (by decide) hlong]
    rfl
  · rw [dispatch_of_not_fits names_short hlong]
    rfl

end Sv6x66.Atcmd.CommandTable
