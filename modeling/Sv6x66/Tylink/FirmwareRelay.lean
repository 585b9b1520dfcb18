import Mathlib.Tactic
import Sv6x66.Tylink.McuLink

/-! The relay of a firmware file to the MCU: `dev_ug_process_cb` cuts what the
download hands over into pieces, and `upgrade_file_cb` sends a piece in a frame. -/
namespace Sv6x66.Tylink.FirmwareRelay
open Sv6x66.Tylink.McuLink

def sendUnit : UInt32 := 256

inductive FwAckStat where
  | ide | ret | timeOut | fail
  deriving DecidableEq

inductive OperateRet where
  | ok | comError
  deriving DecidableEq

/-- What `upgrade_file_cb` writes to the UART in one go. -/
structure Frame where
  head : List UInt8
  data : List UInt8
  sumCheck : UInt8
  deriving DecidableEq

/-- The fields of `ty_msg` and, from `fileSize` on, of `dev_proc` that the relay
uses. `sent` are the frames of this upgrade. -/
structure Relay where
  prtVer : UInt8
  offset : UInt32
  fwSize : UInt32
  ackStat : FwAckStat
  initFlag : Bool
  isMcuUgReset : Bool
  isInUpgrade : Bool
  fileSize : UInt32
  sendLen : UInt32
  statOk : Bool
  sent : List Frame
  deriving DecidableEq

/-- What the MCU lets the wait for the `n`-th frame see in `ack_stat`, look by look. -/
abbrev Mcu := Nat → List FwAckStat

def headBuf (prtVer : UInt8) (dataLen : UInt16) (offset : UInt32) : List UInt8 :=
  0x55 :: 0xaa :: 0x00 :: 0x0b :: (dataLen >>> 8).toUInt8 :: dataLen.toUInt8 ::
    if prtVer = 0 then [(offset >>> 8).toUInt8, offset.toUInt8]
    else [(offset >>> 24).toUInt8, (offset >>> 16).toUInt8, (offset >>> 8).toUInt8, offset.toUInt8]

/-- The length of the offset field. -/
def fieldLen (prtVer : UInt8) : UInt32 := if prtVer = 0 then 2 else 4

def frame (s : Relay) (data : List UInt8) : Frame :=
  let dataLen := (UInt32.ofNat data.length + fieldLen s.prtVer).toUInt16
  let head := headBuf s.prtVer dataLen s.offset
  ⟨head, data, getCheckSum head head.length + getCheckSum data data.length⟩

/-- The frame without data behind the last piece. -/
def lastPack (s : Relay) : Frame :=
  let head := headBuf s.prtVer (fieldLen s.prtVer).toUInt16 s.offset
  ⟨head, [], getCheckSum head head.length⟩

/-- The wait for the answer: `ack_stat` at its end, and how often the frame goes out
again. `none` while the MCU has not answered. -/
def waitAck : List FwAckStat → UInt8 → Option (FwAckStat × Nat)
  | [], _ => none
  | .ide :: later, icnt => waitAck later icnt
  | .timeOut :: later, icnt =>
    if 3 ≤ icnt + 1 then some (.fail, 0)
    else (waitAck later (icnt + 1)).map fun (stat, again) => (stat, again + 1)
  | stat :: _, _ => some (stat, 0)

def upgradeFileCb (mcu : Mcu) (s : Relay) (data : List UInt8) : Option (OperateRet × Relay) :=
  if s.ackStat = .fail then some (.comError, s)
  else
    match waitAck (mcu s.sent.length) 0 with
    | none => none
    | some (stat, again) =>
      let t := { s with
        ackStat := stat
        offset := s.offset + UInt32.ofNat data.length
        sent := s.sent ++ List.replicate (again + 1) (frame s data) }
      if stat ≠ .ret then some (.comError, t)
      else if t.offset = t.fwSize then
        some (.ok, { t with
          sent := t.sent ++ [lastPack t]
          initFlag := false
          isMcuUgReset := true
          isInUpgrade := false })
      else some (.ok, t)

/-- The loop of `dev_ug_process_cb` over the whole pieces. -/
def sendUnits (mcu : Mcu) (data : List UInt8) (s : Relay) (sendLen : UInt32) :
    Option (OperateRet × UInt32 × Relay) :=
  let len := UInt32.ofNat data.length
  if sendUnit ≤ sendLen then
    match upgradeFileCb mcu s ((data.drop (len - sendLen).toNat).take sendUnit.toNat) with
    | none => none
    | some (.comError, t) => some (.comError, sendLen, { t with isInUpgrade := false })
    | some (.ok, t) =>
      sendUnits mcu data { t with sendLen := t.sendLen + sendUnit } (sendLen - sendUnit)
  else some (.ok, sendLen, s)
termination_by sendLen.toNat
decreasing_by
  rw [UInt32.toNat_sub_of_le _ _ ‹_›]
  have h : sendUnit.toNat ≤ sendLen.toNat := ‹sendUnit ≤ sendLen›
  have hpos : 0 < sendUnit.toNat := by decide
  omega

/-- The result and `*remain_len`, where it is written. -/
def devUgProcessCb (mcu : Mcu) (s : Relay) (data : List UInt8) :
    Option (OperateRet × Option UInt32 × Relay) :=
  let len := UInt32.ofNat data.length
  if ¬ s.statOk then some (.comError, none, s)
  else if len < sendUnit ∧ s.sendLen + len < s.fileSize then some (.ok, some len, s)
  else if s.fileSize ≤ s.sendLen then some (.ok, some 0, s)
  else
    match sendUnits mcu data s len with
    | none => none
    | some (.comError, _, t) => some (.comError, none, t)
    | some (.ok, sendLen, t) =>
      let rest := t.fileSize - t.sendLen
      if rest ≤ sendLen then
        match upgradeFileCb mcu t ((data.drop (len - sendLen).toNat).take rest.toNat) with
        | none => none
        | some (.comError, u) => some (.comError, none, { u with isInUpgrade := false })
        | some (.ok, u) =>
          -- what is taken off `send_len` is computed after `dev_proc.send_len` has grown by it
          let u := { u with sendLen := u.sendLen + (u.fileSize - u.sendLen) }
          some (.ok, some (sendLen - (u.fileSize - u.sendLen)), u)
      else some (.ok, some sendLen, t)

/-- `dev_ug_inform_cb` where the MCU answers the start of the upgrade, with its version. -/
def devUgInformCb (s : Relay) (prtVer : UInt8) (fileSize : UInt32) : Relay :=
  { s with
    prtVer := prtVer
    offset := 0
    fwSize := fileSize
    ackStat := .ide
    isInUpgrade := true
    fileSize := fileSize
    sendLen := 0
    statOk := true
    sent := [] }

/-- A call of `dev_ug_process_cb`. -/
structure Call where
  before : Relay
  passed : List UInt8
  ret : OperateRet
  remain : Option UInt32
  after : Relay

/-- The download hands over chunk after chunk, each behind the bytes reported back. -/
def deliver (mcu : Mcu) : Relay → List UInt8 → List (List UInt8) → Option (List Call × Relay)
  | s, _, [] => some ([], s)
  | s, left, chunk :: chunks =>
    match devUgProcessCb mcu s (left ++ chunk) with
    | none => none
    | some (ret, none, t) => some ([⟨s, left ++ chunk, ret, none, t⟩], t)
    | some (ret, some remain, t) =>
      match deliver mcu t ((left ++ chunk).drop ((left ++ chunk).length - remain.toNat)) chunks with
      | none => none
      | some (calls, final) => some (⟨s, left ++ chunk, ret, some remain, t⟩ :: calls, final)

/-! ### The frames carry the file -/

/-- The bytes of the file that the frames carry. -/
def carried (sent : List Frame) : List UInt8 := sent.flatMap Frame.data

/-- The offset a frame gives. -/
def offsetField (f : Frame) : Nat :=
  (f.head.drop 6).foldl (fun value byte => value * 256 + byte.toNat) 0

def OffsetsRight (sent : List Frame) : Prop :=
  ∀ before f after, sent = before ++ f :: after → f.data ≠ [] →
    offsetField f = (carried before).length

/-- The length reported back and what the call sent make up what was passed. -/
def Call.ReportsRight (call : Call) : Prop :=
  ∃ remain, call.remain = some remain ∧
    (carried call.before.sent).length + call.passed.length =
      (carried call.after.sent).length + remain.toNat

/-- The relay of the file that comes in `chunks`. -/
def RelaysRight (mcu : Mcu) (s : Relay) (prtVer : UInt8) (chunks : List (List UInt8)) : Prop :=
  let start := devUgInformCb s prtVer (UInt32.ofNat chunks.flatten.length)
  ∃ calls final, deliver mcu start [] chunks = some (calls, final) ∧
    (∀ call ∈ calls, call.ReportsRight) ∧
    carried final.sent = chunks.flatten ∧ OffsetsRight final.sent

/-- The MCU acknowledges every frame before the timer runs out. -/
def Acknowledges (mcu : Mcu) : Prop :=
  ∀ n, ∃ idle later, mcu n = List.replicate idle .ide ++ .ret :: later

/-! ### The frames -/

theorem offsetField_headBuf (prtVer : UInt8) (dataLen : UInt16) (offset : UInt32)
    (data : List UInt8) (sumCheck : UInt8) :
    offsetField ⟨headBuf prtVer dataLen offset, data, sumCheck⟩ =
      if prtVer = 0 then offset.toNat % 65536 else offset.toNat := by
  have hlt := offset.toNat_lt
  unfold offsetField headBuf
  split
  · simp
    omega
  · simp
    omega

theorem carried_append (sent more : List Frame) :
    carried (sent ++ more) = carried sent ++ carried more :=
  List.flatMap_append

/-- Frames of at most one unit, with the offset of what was sent before them as far as the
field has room for it. -/
def Placed (prtVer : UInt8) (sent : List Frame) : Prop :=
  ∀ before f after, sent = before ++ f :: after →
    f.data.length ≤ sendUnit.toNat ∧ offsetField f =
      if prtVer = 0 then (carried before).length % 65536 else (carried before).length

theorem Placed.concat {prtVer : UInt8} {sent : List Frame} {f : Frame} (h : Placed prtVer sent)
    (hlen : f.data.length ≤ sendUnit.toNat)
    (hfield : offsetField f =
      if prtVer = 0 then (carried sent).length % 65536 else (carried sent).length) :
    Placed prtVer (sent ++ [f]) := by
  intro before g after heq
  rcases List.eq_nil_or_concat after with rfl | ⟨after, last, rfl⟩
  · obtain ⟨rfl, hg⟩ := List.append_inj' heq rfl
    cases hg
    exact ⟨hlen, hfield⟩
  · rw [List.concat_eq_append, ← List.cons_append, ← List.append_assoc] at heq
    exact h before g after (List.append_inj' heq rfl).1

/-- The last frame with data starts within a unit of the end. -/
theorem exists_last_frame {sent : List Frame} {prtVer : UInt8} (h : Placed prtVer sent)
    (hsome : carried sent ≠ []) :
    ∃ before f after, sent = before ++ f :: after ∧ f.data ≠ [] ∧
      (carried sent).length ≤ (carried before).length + sendUnit.toNat := by
  induction sent using List.reverseRecOn with
  | nil => exact absurd rfl hsome
  | append_singleton sent last ih =>
    have hlast : carried [last] = last.data := List.flatMap_singleton ..
    rw [carried_append, hlast] at hsome ⊢
    by_cases hdata : last.data = []
    · rw [hdata, List.append_nil] at hsome ⊢
      have hplaced : Placed prtVer sent := fun before f after heq =>
        h before f (after ++ [last]) (by rw [heq, List.append_assoc, List.cons_append])
      obtain ⟨before, f, after, heq, hf, hle⟩ := ih hplaced hsome
      exact ⟨before, f, after ++ [last], by rw [heq, List.append_assoc, List.cons_append], hf, hle⟩
    · have hlen := (h sent last [] rfl).1
      refine ⟨sent, last, [], rfl, hdata, ?_⟩
      rw [List.length_append]
      omega

/-! ### A piece -/

variable {mcu : Mcu} {prtVer : UInt8} {file front : List UInt8} {s : Relay}

/-- `front` has been sent; `upgrade_file_cb` and `dev_ug_process_cb` count it apart. -/
structure Sending (prtVer : UInt8) (file front : List UInt8) (s : Relay) : Prop where
  ver : s.prtVer = prtVer
  ack : s.ackStat ≠ .fail
  statOk : s.statOk
  size : s.fileSize.toNat = file.length
  offset : s.offset.toNat = front.length
  carried : carried s.sent = front
  placed : Placed prtVer s.sent

theorem waitAck_acks (idle : Nat) (later : List FwAckStat) (icnt : UInt8) :
    waitAck (List.replicate idle .ide ++ .ret :: later) icnt = some (.ret, 0) := by
  induction idle with
  | zero => rfl
  | succ idle ih => exact ih

theorem toNat_length {data : List UInt8} (h : data.length < 2 ^ 32) :
    (UInt32.ofNat data.length).toNat = data.length := by
  rw [UInt32.toNat_ofNat']
  exact Nat.mod_eq_of_lt h

/-- A frame sent at the end of `front`. -/
theorem Sending.concat (h : Sending prtVer file front s) {data : List UInt8} {dataLen : UInt16}
    {sumCheck : UInt8} {t : Relay} (hlen : data.length ≤ sendUnit.toNat)
    (hver : t.prtVer = s.prtVer) (hack : t.ackStat ≠ .fail) (hstat : t.statOk = s.statOk)
    (hsize : t.fileSize = s.fileSize) (hoffset : t.offset.toNat = front.length + data.length)
    (hsent : t.sent = s.sent ++ [⟨headBuf s.prtVer dataLen s.offset, data, sumCheck⟩]) :
    Sending prtVer file (front ++ data) t := by
  refine ⟨hver.trans h.ver, hack, hstat ▸ h.statOk, hsize ▸ h.size, ?_, ?_, ?_⟩
  · rw [hoffset, List.length_append]
  · rw [hsent, carried_append, h.carried]
    exact congrArg (front ++ ·) (List.flatMap_singleton ..)
  · rw [hsent]
    refine h.placed.concat hlen ?_
    rw [offsetField_headBuf, h.ver, h.offset, h.carried]

theorem upgradeFileCb_sends (hack : Acknowledges mcu) (h : Sending prtVer file front s)
    {data : List UInt8} (hdata : data.length ≤ sendUnit.toNat) (hpre : front ++ data <+: file)
    (hfile : file.length < 2 ^ 32) :
    ∃ t, upgradeFileCb mcu s data = some (.ok, t) ∧ Sending prtVer file (front ++ data) t ∧
      t.sendLen = s.sendLen := by
  obtain ⟨idle, later, hmcu⟩ := hack s.sent.length
  have hle := hpre.length_le
  rw [List.length_append] at hle
  have hoffset : (s.offset + UInt32.ofNat data.length).toNat = front.length + data.length := by
    rw [UInt32.toNat_add, h.offset, toNat_length (by omega)]
    exact Nat.mod_eq_of_lt (by omega)
  have hsending : Sending prtVer file (front ++ data) { s with
      ackStat := .ret
      offset := s.offset + UInt32.ofNat data.length
      sent := s.sent ++ [frame s data] } :=
    h.concat hdata rfl FwAckStat.noConfusion rfl rfl hoffset rfl
  rw [upgradeFileCb, if_neg h.ack, hmcu, waitAck_acks]
  dsimp only
  rw [if_neg (not_not_intro rfl)]
  split
  · -- the frame that ends the file carries nothing more of it
    refine ⟨_, rfl, ?_, rfl⟩
    rw [← List.append_nil (front ++ data)]
    refine hsending.concat (Nat.zero_le _) rfl FwAckStat.noConfusion rfl rfl ?_ rfl
    exact hoffset.trans List.length_append.symm
  · exact ⟨_, rfl, hsending, rfl⟩

/-! ### A call -/

/-- Between two pieces both counts agree. -/
structure Between (prtVer : UInt8) (file front : List UInt8) (s : Relay) : Prop
    extends Sending prtVer file front s where
  sendLen : s.sendLen.toNat = front.length

/-- A piece is sent and counted. -/
theorem Sending.counted (h : Sending prtVer file front s) {n : UInt32}
    (hn : (s.sendLen + n).toNat = front.length) :
    Between prtVer file front { s with sendLen := s.sendLen + n } :=
  ⟨⟨h.ver, h.ack, h.statOk, h.size, h.offset, h.carried, h.placed⟩, hn⟩

/-- What is left of the file. -/
theorem Between.rest (h : Between prtVer file front s) {later : List UInt8}
    (hlater : front ++ later = file) : (s.fileSize - s.sendLen).toNat = later.length := by
  have htotal : front.length + later.length = file.length := by
    rw [← hlater, List.length_append]
  have hle : s.sendLen ≤ s.fileSize := by
    rw [UInt32.le_iff_toNat_le, h.size, h.sendLen]
    omega
  rw [UInt32.toNat_sub_of_le _ _ hle, h.size, h.sendLen]
  omega

theorem toNat_sub_length {data gone left : List UInt8} {n : UInt32} (hdata : gone ++ left = data)
    (hn : n.toNat = left.length) (hlt : data.length < 2 ^ 32) :
    (UInt32.ofNat data.length - n).toNat = gone.length := by
  have hlen : gone.length + left.length = data.length := by
    rw [← hdata, List.length_append]
  have hle : n ≤ UInt32.ofNat data.length := by
    rw [UInt32.le_iff_toNat_le, toNat_length hlt, hn]
    omega
  rw [UInt32.toNat_sub_of_le _ _ hle, toNat_length hlt, hn]
  omega

/-- The whole pieces go out, and less than one is left. -/
theorem sendUnits_sends (hack : Acknowledges mcu) (hfile : file.length < 2 ^ 32)
    {data gone left : List UInt8} {n : UInt32} (h : Between prtVer file front s)
    (hdata : gone ++ left = data) (hn : n.toNat = left.length) (hlt : data.length < 2 ^ 32)
    (hpre : front ++ left <+: file) :
    ∃ whole rest rem t, left = whole ++ rest ∧ 256 ∣ whole.length ∧ rest.length < 256 ∧
      sendUnits mcu data s n = some (.ok, rem, t) ∧ rem.toNat = rest.length ∧
      Between prtVer file (front ++ whole) t := by
  induction hlen : left.length using Nat.strong_induction_on
    generalizing gone left front s n with
  | h len ih =>
    subst hlen
    have hunit : sendUnit.toNat = 256 := rfl
    rw [sendUnits]
    split
    · rename_i hle
      have hle : 256 ≤ left.length := hn ▸ hle
      have hsplit : left.take 256 ++ left.drop 256 = left := List.take_append_drop ..
      have htake : (left.take 256).length = 256 := List.length_take_of_le hle
      have hfront : front ++ left.take 256 <+: file := by
        refine List.IsPrefix.trans ?_ hpre
        exact (List.prefix_append_right_inj front).mpr (List.take_prefix ..)
      obtain ⟨t, hsent, ht, hcount⟩ :=
        upgradeFileCb_sends hack h.toSending (hunit ▸ htake.le) hfront hfile
      have hdrop : data.drop gone.length = left := by rw [← hdata, List.drop_left]
      rw [toNat_sub_length hdata hn hlt, hdrop, hunit, hsent]
      dsimp only
      have hsum : (t.sendLen + sendUnit).toNat = (front ++ left.take 256).length := by
        have hle := hfront.length_le
        rw [List.length_append, htake] at hle
        rw [UInt32.toNat_add, hcount, h.sendLen, hunit, List.length_append, htake]
        exact Nat.mod_eq_of_lt (by omega)
      have hn' : (n - sendUnit).toNat = (left.drop 256).length := by
        rw [UInt32.toNat_sub_of_le _ _ ‹_›, hn, List.length_drop, hunit]
      have hdata' : (gone ++ left.take 256) ++ left.drop 256 = data := by
        rwa [List.append_assoc, hsplit]
      have hpre' : (front ++ left.take 256) ++ left.drop 256 <+: file := by
        rwa [List.append_assoc, hsplit]
      obtain ⟨whole, rest, rem, u, hleft, hwhole, hrest, hloop, hrem, hu⟩ :=
        ih (left.drop 256).length (by rw [List.length_drop]; omega) (ht.counted hsum) hdata' hn'
          hpre' rfl
      refine ⟨left.take 256 ++ whole, rest, rem, u, ?_, ?_, hrest, hloop, hrem, ?_⟩
      · rw [List.append_assoc, ← hleft, hsplit]
      · rw [List.length_append, htake]
        exact (Nat.dvd_add_right (dvd_refl 256)).mpr hwhole
      · rwa [← List.append_assoc]
    · rename_i hlt
      have hlt : left.length < 256 := by
        rw [← hn]
        exact Nat.lt_of_not_le hlt
      exact ⟨[], left, n, s, rfl, Nat.dvd_zero _, hlt, rfl, hn, by rwa [List.append_nil]⟩

/-- Before the end of the file the bytes that do not fill a piece are reported back. -/
theorem devUgProcessCb_before (hack : Acknowledges mcu) (hfile : file.length < 2 ^ 32)
    (h : Between prtVer file front s) {data later : List UInt8}
    (hdata : front ++ data ++ later = file) (hlater : later ≠ []) :
    ∃ whole rest rem t, data = whole ++ rest ∧ 256 ∣ whole.length ∧ rest.length < 256 ∧
      devUgProcessCb mcu s data = some (.ok, some rem, t) ∧ rem.toNat = rest.length ∧
      Between prtVer file (front ++ whole) t := by
  have hpos := List.length_pos_iff.mpr hlater
  have htotal : front.length + data.length + later.length = file.length := by
    rw [← hdata, List.length_append, List.length_append]
  have hlen : (UInt32.ofNat data.length).toNat = data.length := toNat_length (by omega)
  rw [devUgProcessCb]
  dsimp only
  rw [if_neg (not_not_intro h.statOk)]
  split
  · rename_i hshort
    have hlt : (UInt32.ofNat data.length).toNat < 256 := hshort.1
    exact ⟨[], data, _, s, rfl, Nat.dvd_zero _, hlen ▸ hlt, rfl, hlen, by rwa [List.append_nil]⟩
  · have hopen : ¬ s.fileSize ≤ s.sendLen := by
      rw [UInt32.le_iff_toNat_le, h.size, h.sendLen]
      omega
    obtain ⟨whole, rest, rem, t, rfl, hwhole, hrest, hloop, hrem, ht⟩ :=
      sendUnits_sends hack hfile h (List.nil_append data) hlen (by omega) ⟨later, hdata⟩
    have hmore : ¬ t.fileSize - t.sendLen ≤ rem := by
      have hfront : front ++ whole ++ (rest ++ later) = file := by
        rw [← hdata]
        simp only [List.append_assoc]
      have hleft := ht.rest hfront
      rw [UInt32.le_iff_toNat_le, hleft, hrem, List.length_append]
      omega
    rw [if_neg hopen, hloop]
    dsimp only
    rw [if_neg hmore]
    exact ⟨whole, rest, rem, t, rfl, hwhole, hrest, rfl, hrem, ht⟩

/-- The call that completes the file sends all of it and reports the last bytes all the same. -/
theorem devUgProcessCb_last (hack : Acknowledges mcu) (hfile : file.length < 2 ^ 32)
    (h : Between prtVer file front s) {data : List UInt8} (hdata : front ++ data = file)
    (hpos : data ≠ []) :
    ∃ rem t, devUgProcessCb mcu s data = some (.ok, some rem, t) ∧
      rem.toNat = data.length % 256 ∧ Between prtVer file file t := by
  have hpos := List.length_pos_iff.mpr hpos
  have htotal : front.length + data.length = file.length := by
    rw [← hdata, List.length_append]
  have hlen : (UInt32.ofNat data.length).toNat = data.length := toNat_length (by omega)
  have hall : ¬ s.sendLen + UInt32.ofNat data.length < s.fileSize := by
    rw [UInt32.lt_iff_toNat_lt, UInt32.toNat_add, h.sendLen, h.size, hlen, htotal,
      Nat.mod_eq_of_lt hfile]
    exact lt_irrefl _
  have hopen : ¬ s.fileSize ≤ s.sendLen := by
    rw [UInt32.le_iff_toNat_le, h.size, h.sendLen]
    omega
  obtain ⟨whole, rest, rem, t, rfl, ⟨units, hwhole⟩, hrest, hloop, hrem, ht⟩ :=
    sendUnits_sends hack hfile h (List.nil_append data) hlen (by omega) (by rw [hdata])
  have hfront : front ++ whole ++ rest = file := by rw [List.append_assoc, hdata]
  have hleft := ht.rest hfront
  have hpiece : rest.length ≤ sendUnit.toNat := le_of_lt hrest
  obtain ⟨u, hsent, hu, hcount⟩ :=
    upgradeFileCb_sends hack ht.toSending hpiece (by rw [hfront]) hfile
  rw [hfront] at hu
  have hsum : u.sendLen + (u.fileSize - u.sendLen) = u.fileSize := by
    rw [UInt32.add_comm, UInt32.sub_add_cancel]
  have hbetween := hu.counted (by rw [hsum, hu.size])
  have hreport : rem - (u.fileSize - (u.sendLen + (u.fileSize - u.sendLen))) = rem := by
    rw [hsum, UInt32.sub_self, UInt32.sub_zero]
  rw [devUgProcessCb]
  dsimp only
  rw [if_neg (not_not_intro h.statOk), if_neg (fun hshort => hall hshort.2), if_neg hopen, hloop]
  dsimp only
  rw [if_pos (by rw [UInt32.le_iff_toNat_le, hleft, hrem]), hleft,
    toNat_sub_length rfl hrem (by omega), List.drop_left, List.take_length, hsent]
  dsimp only
  rw [hreport]
  refine ⟨rem, _, rfl, ?_, hbetween⟩
  rw [hrem, List.length_append, hwhole]
  omega

/-- With the file sent there is nothing to do. -/
theorem devUgProcessCb_done (h : Between prtVer file file s) :
    devUgProcessCb mcu s [] = some (.ok, some 0, s) := by
  have hdone : s.fileSize ≤ s.sendLen := by
    rw [UInt32.le_iff_toNat_le, h.size, h.sendLen]
  rw [devUgProcessCb]
  dsimp only
  rw [if_neg (not_not_intro h.statOk), if_pos hdone]
  split
  · rfl
  · rfl

/-! ### All calls -/

theorem deliver_cons {left chunk : List UInt8} {ret : OperateRet} {rem : UInt32} {t : Relay}
    (hcall : devUgProcessCb mcu s (left ++ chunk) = some (ret, some rem, t))
    (chunks : List (List UInt8)) :
    deliver mcu s left (chunk :: chunks) =
      (deliver mcu t ((left ++ chunk).drop ((left ++ chunk).length - rem.toNat)) chunks).map
        fun (calls, final) => (⟨s, left ++ chunk, ret, some rem, t⟩ :: calls, final) := by
  rw [deliver, hcall]
  dsimp only
  split
  · rename_i heq
    rw [heq]
    rfl
  · rename_i heq
    rw [heq]
    rfl

/-- A file of whole pieces is sent to its end, with the right length reported by each call. -/
theorem deliver_right (hack : Acknowledges mcu) (hfile : file.length < 2 ^ 32)
    (hwhole : 256 ∣ file.length) {left : List UInt8} {chunks : List (List UInt8)}
    (h : Between prtVer file front s) (hfront : 256 ∣ front.length) (hleft : left.length < 256)
    (hall : front ++ left ++ chunks.flatten = file) :
    ∃ calls final, deliver mcu s left chunks = some (calls, final) ∧
      (∀ call ∈ calls, call.ReportsRight) ∧ Sending prtVer file file final := by
  induction chunks generalizing s front left with
  | nil =>
    rw [List.flatten_nil, List.append_nil] at hall
    have hdvd : 256 ∣ left.length := by
      rw [← hall, List.length_append] at hwhole
      exact (Nat.dvd_add_right hfront).mp hwhole
    have hnil := List.eq_nil_of_length_eq_zero (Nat.eq_zero_of_dvd_of_lt hdvd hleft)
    rw [hnil, List.append_nil] at hall
    exact ⟨[], s, rfl, fun _ hcall => absurd hcall List.not_mem_nil, hall ▸ h.toSending⟩
  | cons chunk chunks ih =>
    rw [List.flatten_cons, ← List.append_assoc, List.append_assoc front] at hall
    by_cases hlater : chunks.flatten = []
    · rw [hlater, List.append_nil] at hall
      have hend : file ++ [] ++ chunks.flatten = file := by
        rw [hlater, List.append_nil, List.append_nil]
      have hsent : ∃ t, devUgProcessCb mcu s (left ++ chunk) = some (.ok, some 0, t) ∧
          Between prtVer file file t := by
        by_cases hnew : left ++ chunk = []
        · rw [hnew, List.append_nil] at hall
          rw [hnew, ← hall]
          exact ⟨s, devUgProcessCb_done (hall ▸ h), hall ▸ h⟩
        · obtain ⟨rem, t, hcall, hrem, ht⟩ := devUgProcessCb_last hack hfile h hall hnew
          have hdvd : 256 ∣ (left ++ chunk).length := by
            rw [← hall, List.length_append] at hwhole
            exact (Nat.dvd_add_right hfront).mp hwhole
          have hzero : rem = 0 := UInt32.toNat_inj.mp (hrem.trans (Nat.mod_eq_zero_of_dvd hdvd))
          exact ⟨t, hzero ▸ hcall, ht⟩
      obtain ⟨t, hcall, ht⟩ := hsent
      obtain ⟨calls, final, hdeliver, hcalls, hfinal⟩ := ih ht hwhole (by decide) hend
      refine ⟨⟨s, left ++ chunk, .ok, some 0, t⟩ :: calls, final, ?_,
        List.forall_mem_cons.mpr ⟨⟨0, rfl, ?_⟩, hcalls⟩, hfinal⟩
      · rw [deliver_cons hcall, UInt32.toNat_zero, Nat.sub_zero, List.drop_length, hdeliver]
        rfl
      · rw [h.carried, ht.carried, ← List.length_append, hall]
        rfl
    · obtain ⟨whole, rest, rem, t, hdata, hdvd, hrest, hcall, hrem, ht⟩ :=
        devUgProcessCb_before hack hfile h hall hlater
      have hall' : front ++ whole ++ rest ++ chunks.flatten = file := by
        rw [← hall, hdata, List.append_assoc front]
      have hfront' : 256 ∣ (front ++ whole).length := by
        rw [List.length_append]
        exact Nat.dvd_add hfront hdvd
      obtain ⟨calls, final, hdeliver, hcalls, hfinal⟩ := ih ht hfront' hrest hall'
      refine ⟨⟨s, left ++ chunk, .ok, some rem, t⟩ :: calls, final, ?_,
        List.forall_mem_cons.mpr ⟨⟨rem, rfl, ?_⟩, hcalls⟩, hfinal⟩
      · rw [deliver_cons hcall, hdata, hrem, List.length_append, Nat.add_sub_cancel,
          List.drop_left, hdeliver]
        rfl
      · rw [h.carried, ht.carried, hdata, hrem, List.length_append, List.length_append]
        omega

/-- With a piece less than a unit at the end, the last call reports bytes it has sent. -/
theorem not_deliver_right (hack : Acknowledges mcu) (hfile : file.length < 2 ^ 32)
    (hwhole : ¬ 256 ∣ file.length) {left : List UInt8} {chunks calls : List _} {final : Relay}
    (h : Between prtVer file front s) (hfront : 256 ∣ front.length)
    (hall : front ++ left ++ chunks.flatten = file)
    (hdeliver : deliver mcu s left chunks = some (calls, final))
    (hcalls : ∀ call ∈ calls, call.ReportsRight) : carried final.sent ≠ file := by
  induction chunks generalizing s front left calls with
  | nil =>
    obtain ⟨-, rfl⟩ := Prod.mk.inj (Option.some.inj hdeliver)
    rw [h.carried]
    exact fun heq => hwhole (heq ▸ hfront)
  | cons chunk chunks ih =>
    rw [List.flatten_cons, ← List.append_assoc, List.append_assoc front] at hall
    by_cases hlater : chunks.flatten = []
    · rw [hlater, List.append_nil] at hall
      have hlen : front.length + (left ++ chunk).length = file.length :=
        List.length_append.symm.trans (congrArg List.length hall)
      have hnew : left ++ chunk ≠ [] := by
        intro hnil
        rw [hnil, List.append_nil] at hall
        exact hwhole (hall ▸ hfront)
      obtain ⟨rem, t, hcall, hrem, ht⟩ := devUgProcessCb_last hack hfile h hall hnew
      rw [deliver_cons hcall] at hdeliver
      obtain ⟨⟨later, final'⟩, -, heq⟩ := Option.map_eq_some_iff.mp hdeliver
      rw [← (Prod.mk.inj heq).1] at hcalls
      have hreport : Call.ReportsRight ⟨s, left ++ chunk, .ok, some rem, t⟩ :=
        hcalls _ List.mem_cons_self
      obtain ⟨remain, hremain, hsum⟩ := hreport
      cases Option.some.inj hremain
      dsimp only at hsum
      rw [h.carried, ht.carried] at hsum
      omega
    · obtain ⟨whole, rest, rem, t, hdata, hdvd, hrest, hcall, hrem, ht⟩ :=
        devUgProcessCb_before hack hfile h hall hlater
      have hall' : front ++ whole ++ rest ++ chunks.flatten = file := by
        rw [← hall, hdata, List.append_assoc front]
      have hfront' : 256 ∣ (front ++ whole).length := by
        rw [List.length_append]
        exact Nat.dvd_add hfront hdvd
      rw [deliver_cons hcall, hdata, hrem, List.length_append, Nat.add_sub_cancel,
        List.drop_left] at hdeliver
      obtain ⟨⟨later, final'⟩, hrec, heq⟩ := Option.map_eq_some_iff.mp hdeliver
      obtain ⟨rfl, rfl⟩ := Prod.mk.inj heq
      exact ih ht hfront' hall' hrec fun call hcall => hcalls call (List.mem_cons_of_mem _ hcall)

theorem devUgInformCb_between (s : Relay) (prtVer : UInt8) (hfile : file.length < 2 ^ 32) :
    Between prtVer file [] (devUgInformCb s prtVer (UInt32.ofNat file.length)) where
  ver := rfl
  ack := FwAckStat.noConfusion
  statOk := rfl
  size := toNat_length hfile
  offset := rfl
  carried := rfl
  placed := fun before f after heq => by
    exact absurd heq (List.append_ne_nil_of_right_ne_nil _ (List.cons_ne_nil f after)).symm
  sendLen := rfl

theorem offsetsRight_iff {sent : List Frame} (h : Placed prtVer sent)
    (hwhole : 256 ∣ (carried sent).length) :
    OffsetsRight sent ↔ (prtVer = 0 → (carried sent).length ≤ 65536) := by
  constructor
  · intro hright hver
    by_contra hlong
    have hlong : 65536 < (carried sent).length := Nat.lt_of_not_le hlong
    have hsome : carried sent ≠ [] := List.ne_nil_of_length_pos (by omega)
    obtain ⟨before, f, after, heq, hdata, hlast⟩ := exists_last_frame h hsome
    have hfield := (h before f after heq).2
    rw [if_pos hver, hright before f after heq hdata] at hfield
    have hunit : sendUnit.toNat = 256 := rfl
    omega
  · intro hver before f after heq hdata
    have hpos := List.length_pos_iff.mpr hdata
    have hlen : (carried before).length + (f.data.length + (carried after).length) =
        (carried sent).length := by
      have hcons : carried (f :: after) = f.data ++ carried after := List.flatMap_cons ..
      rw [heq, carried_append, hcons, List.length_append, List.length_append]
    rw [(h before f after heq).2]
    split
    · exact Nat.mod_eq_of_lt (by have := hver ‹_›; omega)
    · rfl

/-- The relay is right for the files of whole pieces, as far as the offset field reaches. -/
theorem relaysRight_iff (mcu : Mcu) (s : Relay) (prtVer : UInt8) (chunks : List (List UInt8))
    (hack : Acknowledges mcu) (hlen : chunks.flatten.length < 2 ^ 32) :
    RelaysRight mcu s prtVer chunks ↔
      256 ∣ chunks.flatten.length ∧ (prtVer = 0 → chunks.flatten.length ≤ 65536) := by
  have hstart := devUgInformCb_between s prtVer hlen
  have hall : [] ++ [] ++ chunks.flatten = chunks.flatten := rfl
  have hnil : ([] : List UInt8).length < 256 := by decide
  by_cases hwhole : 256 ∣ chunks.flatten.length
  · obtain ⟨calls, final, hdeliver, hcalls, hfinal⟩ :=
      deliver_right hack hlen hwhole hstart (Nat.dvd_zero _) hnil hall
    have hoffsets := offsetsRight_iff hfinal.placed (hfinal.carried ▸ hwhole)
    rw [hfinal.carried] at hoffsets
    rw [and_iff_right hwhole, ← hoffsets]
    constructor
    · rintro ⟨calls', final', hdeliver', -, -, hright⟩
      rw [hdeliver] at hdeliver'
      exact (Prod.mk.inj (Option.some.inj hdeliver')).2 ▸ hright
    · exact fun hright => ⟨calls, final, hdeliver, hcalls, hfinal.carried, hright⟩
  · refine iff_of_false ?_ fun h => hwhole h.1
    rintro ⟨calls, final, hdeliver, hcalls, hbytes, -⟩
    exact not_deliver_right hack hlen hwhole hstart (Nat.dvd_zero _) hall hdeliver hcalls hbytes

/-- The state of a module that has upgraded nothing yet. -/
def noUpgrade : Relay := ⟨0, 0, 0, .ide, true, false, false, 0, 0, false, []⟩

theorem relaysRight_iff_twoChunks :
    RelaysRight (fun _ => [.ide, .ret]) noUpgrade 0
      [List.replicate 100 0x5a, List.replicate 156 0xa5] := by
  have hlen : [List.replicate 100 (0x5a : UInt8),
      List.replicate 156 0xa5].flatten.length = 256 := by
    rw [List.flatten_cons, List.flatten_singleton, List.length_append, List.length_replicate,
      List.length_replicate]
  refine (relaysRight_iff _ noUpgrade 0 _ (fun _ => ⟨1, [], rfl⟩) ?_).mpr ?_
  · rw [hlen]
    decide
  · rw [hlen]
    decide

/-- The one byte of a file is sent and reported back all the same. -/
theorem oneByte_reported : ¬ RelaysRight (fun _ => [.ide, .ret]) noUpgrade 3 [[0x5a]] := by
  rintro ⟨calls, final, hdeliver, hcalls, hbytes, -⟩
  have hack : Acknowledges fun _ => [.ide, .ret] := fun _ => ⟨1, [], rfl⟩
  have hlen : [[(0x5a : UInt8)]].flatten.length < 2 ^ 32 := by decide
  have hstart := devUgInformCb_between noUpgrade 3 hlen
  have hall : [] ++ [] ++ [[(0x5a : UInt8)]].flatten = [[0x5a]].flatten := rfl
  exact not_deliver_right hack hlen (by decide) hstart (Nat.dvd_zero _) hall hdeliver hcalls hbytes

end Sv6x66.Tylink.FirmwareRelay
