import Sv6x66.Atcmd.CommandLine

/-! The handlers of the AT commands, as far as they read their arguments. What
they call in drivers, the radio and the network returns what the board says. -/
namespace Sv6x66.Atcmd.Handlers
open Sv6x66.Lib.CString CommandLine

/-- The functions and the state whose values decide what a handler returns. -/
inductive Call where
  | scanAp | setWifiConfig | setWifiConfig3 | setIfConfig2 | softapSetCustomConf
  | wifiConnect2 | wifiConnectActive | getWifiStatus | configChannel
  | rfTxStart | rfTxStop | rfRxReset | rfSetCh | rfSetRate | rfEnableTcsr | rfToneGen
  | rfManuPadpdCali | rfFreqoffsetReadxi | rfFreqoffsetReadxo
  | writeRegBandGain | writeRegRfGain | writeRegRateGainB | writeRegRateGainG
  | writeRegRateGain20n | writeRegRateGain40n | writeRegPadpdCali | writeRegFreqXiXo
  | writeReg2gpa | writeReg2gpaCell | writeReg2gpaCap | writeRegRxafe | writeRegDcdc
  | writeRegLdo | writeRegXoldo | writeRegRxpadCh13
  | getCurrentTempeState | writeRegTempeTable | writeRegTempe5gTable
  | writeReg5gBbscale5100 | writeReg5gBbscale5500 | writeReg5gBbscale5700
  | writeReg5gBbscale5900 | writeReg5gBias1 | writeReg5gBias2 | writeReg5gThreeBias
  | writeReg5gBandThreshold
  | wifiCfgInit | memAlloc | bEfuseEnableWrite | efuseWriteMac | efuseReadMac
  | uninitializedAction | cfgUserWriteCfg
  | fdIsset | openSocket | markRmListenSdByPort | send | sendto
  | pingSt | startPing | inetAddr

structure Board where
  call : Call → List Int → List Bytes → Int

/-- A handler: what it returns, unless it reads through a NULL argument. -/
abbrev Code := Board → Param → Option Int

/-! ### Families -/

variable [AtoiBeyond]

def noArgument (result : Board → Int) : Code := fun b _ => some (result b)

/-- `argc` is checked, then the first argument is used. -/
def oneText (result : Board → Bytes → Int) : Code := fun b p =>
  if p.argc < 1 then some errorInvalidParameter
  else (p.deref 0).map (result b)

def oneNumber (result : Board → Int → Int) : Code := oneText fun b text => result b (atoiInt text)

/-- The first `count` arguments. -/
def texts (p : Param) (count : Nat) : Option (List Bytes) := (List.range count).mapM p.deref

def questionMark : Bytes := ofString "?"

/-- A table of the radio: `?` prints it, and `count` numbers replace it. -/
def table (count : Nat) (write : Board → List Int → Int) : Code := fun b p =>
  if p.argc < 1 then some errorInvalidParameter
  else do
    let first ← p.deref 0
    if first = questionMark then pure errorSuccess
    else
      let values ← texts p count
      pure (write b (values.map atoiInt))

/-- A table for 5 GHz. The query is compared before `argc` is checked. -/
def table5G (count : Nat) (value : Bytes → Int) (write : Board → List Int → Int) : Code :=
  fun b p => do
    let first ← p.deref 0
    if first = questionMark then pure errorSuccess
    else if p.argc < count then pure errorInvalidParameter
    else
      let values ← texts p count
      pure (write b (values.map value))

/-- `*text - 0x30`, a `u8`. -/
def digit (text : Bytes) : UInt8 := text.headD 0 - 0x30

/-- A command for one of two stations. The digit is read before `argc` is checked. -/
def station (result : Board → UInt8 → Int) : Code := fun b p => do
  let id := digit (← p.deref 0)
  if p.argc < 1 ∨ (id ≠ 0 ∧ id ≠ 1) then pure errorInvalidParameter else pure (result b id)

/-- Some argument is outside its limit, compared from left to right. -/
def anyOutside (p : Param) : (limits : List (Nat × (Int → Bool))) → Option Bool
  | [] => some false
  | (i, outside) :: rest => do
    if outside (atoiInt (← p.deref i)) then pure true else anyOutside p rest

/-- A command of the gpio or pwm driver, whose result is only printed. -/
def limited (needed : Nat) (limits : List (Nat × (Int → Bool))) : Code := fun _ p =>
  if p.argc < needed then some errorInvalidParameter
  else do
    if ← anyOutside p limits then pure errorInvalidParameter
    else
      let _ ← texts p needed
      pure errorSuccess

/-! ### Wi-Fi -/

def toUint8 (value : Int) : Int := value % 2 ^ 8
def toUint16 (value : Int) : Int := value % 2 ^ 16

/-- `s8`. -/
def toInt8 (value : Int) : Int := (value + 2 ^ 7) % 2 ^ 8 - 2 ^ 7

def atReboot : Code := fun _ p =>
  if p.argc ≥ 1 then (p.deref 0).map fun _ => errorSuccess else some errorSuccess

def atGetVersion : Code := noArgument fun _ => errorSuccess
def atGetManufactureInfo : Code := noArgument fun _ => errorSuccess
def atGetConfigure : Code := noArgument fun _ => errorSuccess
def atGetNetStatus : Code := noArgument fun _ => errorSuccess
def atShowConnectAp : Code := noArgument fun _ => errorSuccess
def atShowAllAp : Code := noArgument fun _ => errorSuccess
def atConnect : Code := noArgument fun _ => errorSuccessNoRsp
def atDisconnect : Code := noArgument fun _ => errorSuccessNoRsp
def atAp : Code := noArgument fun _ => errorSuccessNoRsp
def atApExit : Code := noArgument fun _ => errorSuccessNoRsp
def atHkap : Code := noArgument fun _ => errorSuccessNoRsp
def atGetApmode : Code := noArgument fun _ => 0

def atNetScan : Code := noArgument fun b =>
  if b.call .scanAp [] [] ≠ 0 then errorInvalidParameter else errorSuccessNoRsp

def atConnect2 : Code := station fun b id =>
  if b.call .wifiConnect2 [id.toNat] [] ≠ 0 then errorInvalidParameter else errorSuccessNoRsp

def atDisconnect2 : Code := station fun _ _ => errorSuccessNoRsp
def atGetNetStatus2 : Code := station fun _ _ => errorSuccess

def atDutstart : Code := oneText fun _ text =>
  if digit text > 5 then errorInvalidParameter else errorSuccess

def atSetAutoConnect : Code := oneNumber fun _ _ => errorSuccess
def atCmdSetCountryCode : Code := oneNumber fun b channel => b.call .configChannel [channel] []

def atConnectActive : Code := fun b p =>
  if p.argc < 1 then some errorInvalidParameter
  else do
    let ssid ← p.deref 0
    let webkey := p.deref 1
    pure (b.call .wifiConnectActive [] (ssid :: webkey.toList))

def atSetWifiConfig : Code := fun b p =>
  if p.argc < 2 then some errorInvalidParameter
  else do
    let ssid ← p.deref 1
    let webkey := p.deref 2
    let mac := p.deref 3
    if b.call .setWifiConfig [] (ssid :: webkey.toList ++ mac.toList) ≠ 0 then
      pure errorInvalidParameter
    else pure errorSuccess

def atSetWifiConfig2 : Code := fun b p =>
  if p.argc < 3 then some errorInvalidParameter
  else do
    let ssid ← p.deref 2
    let id := digit (← p.deref 0)
    if id ≠ 0 ∧ id ≠ 1 then pure errorInvalidParameter
    else
      let webkey := p.deref 3
      let mac := p.deref 4
      if b.call .setWifiConfig3 [id.toNat] (ssid :: webkey.toList ++ mac.toList) ≠ 0 then
        pure errorInvalidParameter
      else pure errorSuccess

/-- `ip2int` finds four numbers between spaces and dots. -/
def ip2int (text : Bytes) : Bool :=
  4 ≤ ((text.splitOnP fun byte => byte = 32 || byte = 46).filter (· ≠ [])).length

/-- Address, mask and gateway, from the argument `i` on. -/
def addresses (p : Param) (i : Nat) : Option Bool := do
  if ¬ ip2int (← p.deref i) then pure false
  else if ¬ ip2int (← p.deref (i + 1)) then pure false
  else pure (ip2int (← p.deref (i + 2)))

def atSetIfConfigure : Code := fun _ p =>
  if p.argc < 1 then some errorInvalidParameter
  else do
    let dhcpen := digit (← p.deref 0)
    if dhcpen = 0 ∧ p.argc < 4 then pure errorInvalidParameter
    else if dhcpen = 0 then
      if ¬ (← addresses p 1) then pure errorInvalidParameter else pure errorSuccess
    else pure errorSuccess

def atSetIfConfigure2 : Code := fun b p =>
  if p.argc < 2 then some errorInvalidParameter
  else do
    let id := digit (← p.deref 0)
    let dhcpen := digit (← p.deref 1)
    let set := if b.call .setIfConfig2 [id.toNat, dhcpen.toNat] [] ≠ 0 then errorInvalidParameter
      else errorSuccess
    if (dhcpen = 0 ∧ p.argc < 5) ∨ (id ≠ 0 ∧ id ≠ 1) then pure errorInvalidParameter
    else if dhcpen = 0 then
      if ¬ (← addresses p 2) then pure errorInvalidParameter else pure set
    else pure set

/-- `keylen != strlen(..)`, with the length an `s8`. -/
def lengthDiffers (length : Bytes) (text : Bytes) : Prop :=
  toInt8 (strtoul 10 length) ≠ text.length

instance (length text : Bytes) : Decidable (lengthDiffers length text) :=
  inferInstanceAs (Decidable (_ ≠ _))

def atSetApconfig : Code := fun b p =>
  if p.argc < 9 then some errorInvalidParameter
  else do
    let startIp : Int := strtoul 16 (← p.deref 0)
    let endIp : Int := strtoul 16 (← p.deref 1)
    let gw : Int := strtoul 16 (← p.deref 2)
    let subnet : Int := strtoul 16 (← p.deref 3)
    let maxStaNum := max 1 (min 4 (toInt8 (strtoul 10 (← p.deref 4))))
    let lastIp := (startIp + maxStaNum) % 2 ^ 32
    let endIp := if endIp > lastIp then lastIp else endIp
    let encrytMode := toInt8 (strtoul 10 (← p.deref 5))
    let keylen ← p.deref 6
    let key ← p.deref 7
    if lengthDiffers keylen key then
      -- `error_exit` prints the arguments there are
      let _ ← texts p p.argc
      pure (-1)
    else
      let channel := toUint8 (strtoul 10 (← p.deref 8))
      let ssidLength ← p.deref 9
      let ssid ← p.deref 10
      if lengthDiffers ssidLength ssid then
        let _ ← texts p p.argc
        pure (-2)
      else
        pure (b.call .softapSetCustomConf
          [startIp, endIp, gw, subnet, maxStaNum, encrytMode, channel] [key, ssid])

/-- A prefix of `joylink` needs the key. -/
def atSmartConfig : Code := fun _ p =>
  if p.argc < 1 then some errorInvalidParameter
  else do
    let text ← p.deref 0
    let sc := text.take (text.length % 2 ^ 8)
    if sc <+: ofString "joylink" then
      let _ ← p.deref 1
      pure errorSuccess
    else pure errorSuccess

def atOtaSetServer : Code := fun b p =>
  if b.call .getWifiStatus [] [] ≠ 1 then some errorWifiConnection
  else if p.argc < 3 then some errorInvalidParameter
  else do
    if atoiInt (← p.deref 1) = 0 then pure errorInvalidParameter
    else
      let _ ← p.deref 2
      let _ ← p.deref 0
      pure errorSuccess

/-- NULL arguments are told apart here without `argc`. -/
def atOtaSetParam : Code := fun _ p =>
  match p.deref 0 with
  | none => some 1
  | some _ => some errorSuccess

def atOtaStart : Code := noArgument fun _ => errorSuccess

def atFixrate : Code := fun _ p =>
  if p.argc ≠ 2 then some errorSuccess else (texts p 2).map fun _ => errorSuccess

def atRcmask : Code := fun _ p =>
  if p.argc ≠ 1 then some errorSuccess else (p.deref 0).map fun _ => errorSuccess

def atMacHwQueue : Code := noArgument fun _ => errorSuccess

def atMacHwmib : Code := fun _ p =>
  if p.argc ≠ 1 then some errorSuccess else (p.deref 0).map fun _ => errorSuccess

def atCmdList : Code := noArgument fun _ => errorSuccess

def atSslTest : Code := fun b p =>
  if b.call .getWifiStatus [] [] ≠ 1 then some errorWifiConnection
  else do
    let testType := toUint8 (atoiInt (← p.deref 0))
    if testType = 0 then
      if p.argc < 1 then pure errorInvalidParameter else pure errorSuccess
    else if testType = 1 then
      if p.argc < 4 then pure errorInvalidParameter
      else
        let port := toUint16 (atoiInt (← p.deref 2))
        let _ ← p.deref 3
        if port = 0 then pure errorInvalidParameter
        else
          let _ ← p.deref 1
          pure errorSuccess
    else pure errorInvalidParameter

/-! ### MAC and user configuration -/

def atCfgParser : Code := noArgument fun _ => errorSuccessNoRsp

def atCfgTester : Code := noArgument fun b =>
  if b.call .memAlloc [] [] = 0 then errorMemoryFailed else errorSuccessNoRsp

def atCfgWifiTester : Code := noArgument fun b =>
  if b.call .wifiCfgInit [] [] = 0 then errorMemoryFailed else errorSuccessNoRsp

def atRadioWriteMac1 : Code := oneText fun b mac =>
  if mac.length ≠ 17 then errorInvalidParameter
  else if b.call .wifiCfgInit [] [] = 0 then errorMemoryFailed
  else errorSuccess

def atRadioWriteMac2 : Code := oneText fun b mac =>
  if mac.length ≠ 17 then errorInvalidParameter
  else if b.call .wifiCfgInit [] [] = 0 then errorMemoryFailed
  else errorSuccess

def atRadioReadMac1 : Code := noArgument fun _ => errorSuccess
def atRadioReadMac2 : Code := noArgument fun _ => errorSuccess
def atEfuseEnableWrite : Code := noArgument fun _ => errorSuccess

def atEfuseWriteMac : Code := oneText fun b mac =>
  if mac.length ≠ 17 then errorInvalidParameter
  else if b.call .bEfuseEnableWrite [] [] = 0 then errorNotImplement
  else b.call .efuseWriteMac [] [mac]

def atEfuseReadMac : Code := noArgument fun b => b.call .efuseReadMac [] []
def atEfuseDump : Code := noArgument fun _ => errorSuccess

def rwBlockSize : Nat := 512

/-- `do_At_User_Flsh`; only a write copies from the argument. -/
def doAtUserFlsh (b : Board) (p : Param) (action writeOffset : Int) : Option Int :=
  if b.call .memAlloc [] [] = 0 ∧ (action = 1 ∨ action = 0) then some errorMemoryFailed
  else if action = 1 then
    (p.deref 2).map fun block => b.call .cfgUserWriteCfg [writeOffset] [block]
  else some errorSuccess

def letterW : UInt8 := 119
def letterR : UInt8 := 114

/-- With another first letter `action` keeps what the stack held. -/
def atUserFlsh : Code := fun b p =>
  if p.argc = 0 then some errorInvalidParameter
  else do
    let letter := (← p.deref 0).headD 0
    if letter = letterW then
      if p.argc ≠ 3 then pure errorInvalidParameter
      else
        let writeOffset := toUint8 (atoiInt (← p.deref 1))
        if writeOffset > 3 then pure errorInvalidParameter
        else if (← p.deref 2).length ≠ rwBlockSize then pure errorInvalidParameter
        else doAtUserFlsh b p 1 writeOffset
    else if letter = letterR then doAtUserFlsh b p 0 0
    else doAtUserFlsh b p (b.call .uninitializedAction [] []) 0

/-! ### Radio -/

def atShowRfCommand : Code := noArgument fun _ => errorSuccess
def atRadioRfReadTempcs : Code := noArgument fun _ => errorSuccess
def atRadioRfDump : Code := noArgument fun _ => errorSuccess
def atRadioRfStop : Code := noArgument fun b => b.call .rfTxStop [] []
def atRadioRfReset : Code := noArgument fun b => b.call .rfRxReset [] []
def atRfManuDpd : Code := noArgument fun b => b.call .rfManuPadpdCali [] []
def atRadioRfFreqoffsetReadxi : Code := noArgument fun b => b.call .rfFreqoffsetReadxi [] []
def atRadioRfFreqoffsetReadxo : Code := noArgument fun b => b.call .rfFreqoffsetReadxo [] []

/-- `argc` is not checked. -/
def atRadioRfStart : Code := fun b p => do
  let first ← p.deref 0
  let second ← p.deref 1
  pure (b.call .rfTxStart [atoiInt first, atoiInt second] [])

def nl80211ChanHt20 : Int := 1
def nl80211ChanHt40Minus : Int := 2
def nl80211ChanHt40Plus : Int := 3

def atRadioChannel : Code := fun b p => do
  let ch := atoiInt (← p.deref 0)
  if p.argc < 1 then pure errorInvalidParameter
  else
    let sign ← p.deref 1
    let chType :=
      if sign = ofString "+" then nl80211ChanHt40Plus
      else if sign = ofString "-" then nl80211ChanHt40Minus
      else nl80211ChanHt20
    pure (b.call .rfSetCh [ch, 0, chType] [])

def atRadioRfRate : Code := oneNumber fun b rate => b.call .rfSetRate [rate] []
def atRadioRfBandGain : Code := oneNumber fun b gain => b.call .writeRegBandGain [gain] []
def atRadioRfGain : Code := oneNumber fun b gain => b.call .writeRegRfGain [gain] []
def atRadioRfCount : Code := oneNumber fun _ _ => errorSuccess
def atRadioEnableTcsr : Code := oneNumber fun b value => b.call .rfEnableTcsr [value] []
def atRfCaliDpd : Code := oneNumber fun b value => b.call .writeRegPadpdCali [value] []

def atRadioRfFreqoffset : Code := oneNumber fun b value =>
  b.call .writeRegFreqXiXo [value, value, 0x3] []

def atRadioRf2Gpa1 : Code := oneNumber fun b value => b.call .writeReg2gpa [value, 0, 0, 0, 0x8] []
def atRadioRf2Gpa2 : Code := oneNumber fun b value => b.call .writeReg2gpa [0, value, 0, 0, 0x4] []
def atRadioRf2Gpa3 : Code := oneNumber fun b value => b.call .writeReg2gpa [0, 0, value, 0, 0x2] []
def atRadioRf2GpaBias : Code := oneNumber fun b value =>
  b.call .writeReg2gpa [0, 0, 0, value, 0x1] []
def atRadioRf2GpaCell : Code := oneNumber fun b value => b.call .writeReg2gpaCell [value] []
def atRadioRf2GpaCap : Code := oneNumber fun b value => b.call .writeReg2gpaCap [value] []
def atRadioRfLdo : Code := oneNumber fun b value => b.call .writeRegRxafe [value] []
def atRadioRfDcdc : Code := oneNumber fun b value => b.call .writeRegDcdc [value] []
def atRadioRfDcdcv : Code := oneNumber fun b value => b.call .writeRegLdo [value, 0, 0x2] []
def atRadioRfDldov : Code := oneNumber fun b value => b.call .writeRegLdo [0, value, 0x1] []
def atRadioRfXoldo : Code := oneNumber fun b value => b.call .writeRegXoldo [value] []
def atRadioRfRxPadCh13 : Code := oneNumber fun b value => b.call .writeRegRxpadCh13 [value] []
def atRf5GBias1 : Code := oneText fun b text => b.call .writeReg5gBias1 [strtoul 16 text] []
def atRf5GBias2 : Code := oneText fun b text => b.call .writeReg5gBias2 [strtoul 16 text] []
def atRfSingleTone : Code := oneNumber fun b value => b.call .rfToneGen [value] []

/-- The rates of a mode and their bits. -/
structure RateMode where
  mode : Bytes
  call : Call
  rates : List (Bytes × Int)

def rateModes : List RateMode :=
  [⟨ofString "g", .writeRegRateGainG,
      [(ofString "g6", 0x8), (ofString "g12", 0x4), (ofString "g24", 0x2), (ofString "g48", 0x1)]⟩,
    ⟨ofString "20n", .writeRegRateGain20n,
      [(ofString "20n0", 0x8), (ofString "20n1", 0x4), (ofString "20n3", 0x2),
        (ofString "20n5", 0x1)]⟩,
    ⟨ofString "40n", .writeRegRateGain40n,
      [(ofString "40n0", 0x8), (ofString "40n1", 0x4), (ofString "40n3", 0x2),
        (ofString "40n5", 0x1)]⟩]

def rateGain (b : Board) (name : Bytes) (gain : Int) : Int :=
  if ofString "b" <+: name then b.call .writeRegRateGainB [gain] []
  else
    match rateModes.find? fun mode => mode.mode <+: name with
    | none => errorNotImplement
    | some mode =>
      match mode.rates.find? fun rate => rate.1 = name with
      | none => errorNotImplement
      | some rate => b.call mode.call [gain, rate.2] []

/-- `argc` is checked for one argument, and the second is read. -/
def atRadioRfRateGain : Code := fun b p =>
  if p.argc < 1 then some errorInvalidParameter
  else do
    let gainIdx := atoiInt (← p.deref 1)
    let name ← p.deref 0
    pure (rateGain b name gainIdx)

/-- `argc` is checked for one argument, and two are read. -/
def atRadioRfTempBoundary : Code := fun _ p =>
  if p.argc < 1 then some errorInvalidParameter else (texts p 2).map fun _ => errorSuccess

/-- The registers are written if the table is that of the current temperature. -/
def writeTempeTable (call : Call) (state : Int) (b : Board) (values : List Int) : Int :=
  if b.call .getCurrentTempeState [] [] = state then b.call call values [] else errorSuccess

def atRfTableRt : Code := table 18 (writeTempeTable .writeRegTempeTable 0)
def atRfTableHt : Code := table 18 (writeTempeTable .writeRegTempeTable 1)
def atRfTableLt : Code := table 18 (writeTempeTable .writeRegTempeTable 2)

def atRfTableGain : Code := table 1 fun b values =>
  b.call .writeRegRfGain (values.map toUint8) []
def atRfTableBRateGain : Code := table 1 fun b values =>
  b.call .writeRegRateGainB (values.map toUint8) []
def atRfTableGRateGain : Code := table 4 fun b values => b.call .writeRegRateGainG values []
def atRfTable20NRateGain : Code := table 4 fun b values => b.call .writeRegRateGain20n values []
def atRfTable40NRateGain : Code := table 4 fun b values => b.call .writeRegRateGain40n values []

def atRf5GTableRt : Code := table5G 4 atoiInt (writeTempeTable .writeRegTempe5gTable 0)
def atRf5GTableHt : Code := table5G 4 atoiInt (writeTempeTable .writeRegTempe5gTable 1)
def atRf5GTableLt : Code := table5G 4 atoiInt (writeTempeTable .writeRegTempe5gTable 2)

def atRf5GTableBias1 : Code := table5G 3 (fun text => strtoul 16 text)
  fun b values => b.call .writeReg5gThreeBias values []
def atRf5GTableBias2 : Code := table5G 3 (fun text => strtoul 16 text)
  fun b values => b.call .writeReg5gThreeBias values []
def atRf5GBandThreshold : Code := table5G 3 (fun text => toUint16 (strtoul 10 text))
  fun b values => b.call .writeReg5gBandThreshold values []

/-- The registers one after the other, up to the first that fails. -/
def writeBbscales (b : Board) (p : Param) : (calls : List (Nat × Call)) → Option Int
  | [] => some errorSuccess
  | (i, call) :: rest => do
    if b.call call [atoiInt (← p.deref i)] [] ≠ 0 then pure (-1) else writeBbscales b p rest

def atRf5GbbScale : Code := fun b p =>
  if p.argc < 4 then some errorInvalidParameter
  else writeBbscales b p [(0, .writeReg5gBbscale5100), (1, .writeReg5gBbscale5500),
    (2, .writeReg5gBbscale5700), (3, .writeReg5gBbscale5900)]

/-! ### Gpio and pwm -/

def gpioLimit : Nat × (Int → Bool) := (0, fun pid => pid > 22)
def pwmLimit : Nat × (Int → Bool) := (0, fun id => id > 4)

def pwmLimits : List (Nat × (Int → Bool)) :=
  [pwmLimit, (1, fun freq => freq < 5), (1, fun freq => freq > 4000000),
    (2, fun duty => duty > 100), (3, fun invert => invert > 1)]

def atSetGpioTriState : Code := limited 1 [gpioLimit]
def atSetGpioLogic : Code := limited 2 [gpioLimit, (1, fun logic => logic > 1)]
def atSetGpioPull : Code := limited 2 [gpioLimit, (1, fun pull => pull > 2)]
def atReadGpio : Code := limited 1 [gpioLimit]
def atSetGpioInt : Code := limited 2 [gpioLimit, (1, fun mode => mode > 5), (1, fun mode => mode < 2)]
def atSetPwm : Code := limited 4 pwmLimits
def atSetPwmDisable : Code := limited 1 [pwmLimit]
def atSetPwmEnable : Code := limited 1 [pwmLimit]
def atSetPwmReconfig : Code := limited 4 pwmLimits

/-! ### TCP/IP -/

def atTcpConnect : Code := fun b p =>
  if p.argc < 2 then some errorInvalidParameter
  else do
    let port := toUint16 (atoiInt (← p.deref 1))
    if port = 0 then pure errorInvalidParameter
    else
      let ip ← p.deref 0
      pure (b.call .openSocket [port] [ip])

def atTcpListen : Code := oneText fun b text =>
  let listenport := toUint16 (strtoul 10 text)
  if listenport = 0 then errorInvalidParameter else b.call .openSocket [listenport] []

def atUdpCreate : Code := oneNumber fun b port =>
  if toUint16 port = 0 then errorInvalidParameter else b.call .openSocket [toUint16 port] []

def atTcpUnlisten : Code := oneNumber fun b port =>
  if toUint16 port = 0 then errorInvalidParameter
  else if b.call .markRmListenSdByPort [toUint16 port] [] = -1 then errorInvalidParameter
  else errorSuccess

def atTcpDisconnect : Code := oneNumber fun b conn =>
  if b.call .fdIsset [conn] [] = 0 then errorInvalidParameter else errorSuccess

def atUdpClose : Code := oneNumber fun b sock =>
  if b.call .fdIsset [sock] [] = 0 then errorInvalidParameter else errorSuccess

def atTcpSend : Code := fun b p =>
  if p.argc < 2 then some errorInvalidParameter
  else do
    let conn := atoiInt (← p.deref 0)
    if b.call .fdIsset [conn] [] = 0 then pure errorInvalidParameter
    else
      let pdata ← p.deref 1
      pure (if b.call .send [conn] [pdata] > 0 then errorSuccess else errorTcpConnection)

def atUdpSend : Code := fun b p =>
  if p.argc < 4 then some errorInvalidParameter
  else do
    let peerport := toUint16 (atoiInt (← p.deref 2))
    let sock := atoiInt (← p.deref 0)
    if b.call .fdIsset [sock] [] = 0 then pure errorInvalidParameter
    else
      let ip ← p.deref 1
      let pdata ← p.deref 3
      pure (if b.call .sendto [sock, peerport] [ip, pdata] < 0 then errorUdpConnection
        else errorSuccess)

def pingRun : Int := 1
def maxPingDataSize : Int := 1472
def minPingIntMs : Int := 500
def ipaddrNone : Int := 0xFFFFFFFF

/-- A size above the maximum (a `size_t`, so also a negative one), or a delay
below the minimum. -/
def pingRefuses (option value : Bytes) : Bool :=
  if option = ofString "-s" then atoiInt value < 0 || atoiInt value > maxPingDataSize
  else option = ofString "-d" && 0 ≤ atoiInt value && atoiInt value < minPingIntMs

/-- `ping_opt_parse`, with the number of arguments left. -/
def pingOptParse (b : Board) (p : Param) : (left : Nat) → (i : Nat) → (target : Bool) → Option Unit
  | 0, _, _ => some ()
  | left + 1, i, target => do
    if i ≥ p.argc then pure ()
    else
      let text ← p.deref i
      if text ∈ [ofString "-c", ofString "-s", ofString "-d"] then
        if i + 1 ≥ p.argc then pure ()
        else if pingRefuses text (← p.deref (i + 1)) then pure ()
        else pingOptParse b p left (i + 2) target
      else if target ∨ b.call .inetAddr [] [text] = ipaddrNone then pure ()
      else pingOptParse b p left (i + 1) true

/-- `ping`. -/
def ping (b : Board) (p : Param) : Option Int :=
  if p.argc < 1 then some 0
  else do
    let running : Bool := b.call .pingSt [] [] = pingRun
    let stop : Bool ← if p.argc = 1 then (p.deref 0).map fun text => text = ofString "stop"
      else pure false
    if stop && running then pure 0
    else if running then pure (-1)
    else if b.call .startPing [] [] = 0 then pure (-1)
    else
      pingOptParse b p p.argc 0 false
      pure 0

def atPing : Code := fun b p => do
  if (← ping b p) < 0 then pure errorInvalidParameter else pure errorSuccess

end Sv6x66.Atcmd.Handlers
