import Mathlib.Data.List.GetD
import Sv6x66.Lib.Run
import Sv6x66.Lib.Framing

/-! The receiving side of the serial link to the MCU, `tuya_device_mcu.c`: the
task fills `proc_buf` and scans it for frames in turns. -/
namespace Sv6x66.Tylink.McuLink
open Sv6x66.Lib
open Sv6x66.Lib.Framing

def hnRecvBufMax : Nat := 1024

def hnRecvMinNum : Nat := 7

inductive RecvProc where
  | uartRecv | uartProc
  deriving DecidableEq

/-- The fields of `ty_msg` the receiver uses; `procBuf` is the buffer up to
`rcount`. `received` and `dispatched` record what was read from the UART and what
was handed to `ty_msg_upload_proc`. -/
structure TyMsg where
  procBuf : List UInt8
  recvState : RecvProc
  received : List UInt8
  dispatched : List (List UInt8)
  deriving DecidableEq

def getCheckSum (pack : List UInt8) (packLen : Nat) : UInt8 :=
  let checkSum := (pack.take packLen).foldl (fun (sum : UInt32) byte => sum + byte.toUInt32) 0
  (checkSum &&& 0xff).toUInt8

/-- `fr_len` of a frame that starts at the head of `frame`. -/
def frLen (frame : List UInt8) : Nat :=
  (frame.getD 4 0).toNat * 256 + (frame.getD 5 0).toNat + 6 + 1

/-- How the scan of the buffer ends. -/
structure Scan where
  offset : Nat
  dispatched : List (List UInt8)
  incomplete : Bool
  deriving DecidableEq

/-- The loop of `ty_dp_proc` from `offset` on. -/
def scan (procBuf : List UInt8) (offset : Nat) : Scan :=
  if procBuf.length - offset ≥ hnRecvMinNum then
    let frame := procBuf.drop offset
    if frame.getD 0 0 ≠ 0x55 then scan procBuf (offset + 1)
    else if frame.getD 1 0 ≠ 0xaa then scan procBuf (offset + 1)
    else if frLen frame > hnRecvBufMax then scan procBuf (offset + 1)
    else if procBuf.length - offset < frLen frame then ⟨offset, [], true⟩
    else if getCheckSum frame (frLen frame - 1) ≠ frame.getD (frLen frame - 1) 0 then
      scan procBuf (offset + frLen frame)
    else
      let later := scan procBuf (offset + frLen frame)
      { later with dispatched := frame.take (frLen frame) :: later.dispatched }
  else ⟨offset, [], false⟩
termination_by procBuf.length - offset
decreasing_by all_goals simp only [hnRecvMinNum, frLen] at *; omega

/-- An incomplete frame returns before the frames ahead of it leave the buffer. -/
def tyDpProc (s : TyMsg) : TyMsg :=
  let result := scan s.procBuf 0
  { s with
    procBuf := if result.incomplete then s.procBuf else s.procBuf.drop result.offset
    recvState := .uartRecv
    dispatched := s.dispatched ++ result.dispatched }

def tyUartRecvProc (s : TyMsg) (data : List UInt8) : TyMsg :=
  { s with
    procBuf := s.procBuf ++ data
    recvState := if (s.procBuf ++ data).length > 0 then .uartProc else s.recvState
    received := s.received ++ data }

/-- One turn of `ty_task_cb`; `recv` comes with what `ty_uart_read_data` returns. -/
inductive Turn where
  | recv (data : List UInt8)
  | proc

def turn (s : TyMsg) : Turn → Option TyMsg
  | .recv data =>
    if s.recvState = .uartRecv ∧ data.length ≤ hnRecvBufMax - s.procBuf.length then
      some (tyUartRecvProc s data)
    else none
  | .proc => if s.recvState = .uartProc then some (tyDpProc s) else none

def tyTaskStart : TyMsg := ⟨[], .uartRecv, [], []⟩

/-! ### Frames -/

/-- A frame the scan accepts; its length field makes it at least seven bytes long. -/
structure ValidFrame (frame : List UInt8) : Prop where
  head : frame.getD 0 0 = 0x55
  second : frame.getD 1 0 = 0xaa
  length : frame.length = frLen frame
  fits : frame.length ≤ hnRecvBufMax
  sum : getCheckSum frame (frame.length - 1) = frame.getD (frame.length - 1) 0

/-- A beginning of a frame, without its end. -/
def HalfFrame (bytes : List UInt8) : Prop :=
  bytes = [] ∨ ∃ frame, ValidFrame frame ∧ bytes <+: frame ∧ bytes.length < frame.length

theorem getD_congr {bytes frame : List UInt8} (h : bytes <+: frame) {i : Nat}
    (hi : i < bytes.length) : bytes.getD i 0 = frame.getD i 0 := by
  obtain ⟨rest, rfl⟩ := h
  exact (List.getD_append _ _ _ _ hi).symm

theorem frLen_congr {bytes frame : List UInt8} (h : bytes <+: frame)
    (hlen : 6 ≤ bytes.length) : frLen bytes = frLen frame := by
  unfold frLen
  rw [getD_congr h (by omega), getD_congr h (by omega)]

theorem getCheckSum_congr {bytes frame : List UInt8} (h : bytes <+: frame) {n : Nat}
    (hn : n ≤ bytes.length) : getCheckSum bytes n = getCheckSum frame n := by
  obtain ⟨rest, rfl⟩ := h
  unfold getCheckSum
  rw [List.take_append_of_le_length hn]

namespace ValidFrame

variable {frame : List UInt8}

theorem min_le (h : ValidFrame frame) : hnRecvMinNum ≤ frame.length := by
  rw [h.length, frLen, hnRecvMinNum]
  omega

end ValidFrame

/-! ### The scan -/

/-- A whole frame is dispatched and the scan goes on behind it. -/
theorem scan_frame {before frame later : List UInt8} (h : ValidFrame frame) :
    scan (before ++ (frame ++ later)) before.length =
      let rest := scan (before ++ (frame ++ later)) (before.length + frame.length)
      { rest with dispatched := frame :: rest.dispatched } := by
  have hpre : frame <+: frame ++ later := List.prefix_append _ _
  have hmin := h.min_le
  have hlen : frLen (frame ++ later) = frame.length := by
    rw [← frLen_congr hpre, h.length]
    unfold hnRecvMinNum at hmin
    omega
  have hroom : (before ++ (frame ++ later)).length - before.length =
      frame.length + later.length := by
    rw [List.length_append, List.length_append, Nat.add_sub_cancel_left]
  rw [scan, hroom, if_pos (by omega), List.drop_left]
  unfold hnRecvMinNum at hmin
  dsimp only
  rw [if_neg, if_neg, if_neg, if_neg, if_neg, hlen, List.take_left]
  · rw [hlen, ← getCheckSum_congr hpre (by omega), ← getD_congr hpre (by omega), h.sum]
    exact not_not_intro rfl
  · rw [hlen]
    omega
  · rw [hlen]
    exact not_lt_of_ge h.fits
  · rw [← getD_congr hpre (by omega), h.second]
    exact not_not_intro rfl
  · rw [← getD_congr hpre (by omega), h.head]
    exact not_not_intro rfl

/-- The scan stops at the beginning of a frame, early if its length field is there. -/
theorem scan_halfFrame {before tail : List UInt8} (h : HalfFrame tail) :
    scan (before ++ tail) before.length =
      ⟨before.length, [], decide (hnRecvMinNum ≤ tail.length)⟩ := by
  have hroom : (before ++ tail).length - before.length = tail.length := by
    rw [List.length_append, Nat.add_sub_cancel_left]
  rw [scan, hroom]
  by_cases hmin : hnRecvMinNum ≤ tail.length
  · rw [if_pos hmin, decide_eq_true hmin, List.drop_left]
    obtain rfl | ⟨frame, hframe, hpre, hshort⟩ := h
    · exact absurd hmin (by decide)
    unfold hnRecvMinNum at hmin
    have hlen : frLen tail = frame.length := by
      rw [frLen_congr hpre (by omega), hframe.length]
    dsimp only
    rw [if_neg, if_neg, if_neg, if_pos]
    · rw [hlen]
      exact hshort
    · rw [hlen]
      exact not_lt_of_ge hframe.fits
    · rw [getD_congr hpre (by omega), hframe.second]
      exact not_not_intro rfl
    · rw [getD_congr hpre (by omega), hframe.head]
      exact not_not_intro rfl
  · rw [if_neg hmin, decide_eq_false hmin]

theorem scan_frames (before : List UInt8) {tail : List UInt8} {whole : List (List UInt8)}
    (hwhole : ∀ frame ∈ whole, ValidFrame frame) (htail : HalfFrame tail) :
    scan (before ++ (whole.flatten ++ tail)) before.length =
      ⟨before.length + whole.flatten.length, whole, decide (hnRecvMinNum ≤ tail.length)⟩ := by
  induction whole generalizing before with
  | nil => exact scan_halfFrame htail
  | cons frame whole ih =>
    have hrest := ih (before ++ frame) fun next hnext =>
      hwhole next (List.mem_cons_of_mem _ hnext)
    rw [List.append_assoc, List.length_append] at hrest
    rw [List.flatten_cons, List.append_assoc, scan_frame (hwhole frame List.mem_cons_self), hrest,
      List.length_append, Nat.add_assoc]

/-- The frames are dispatched, and they stay in the buffer if the scan stops early. -/
theorem tyDpProc_frames {s : TyMsg} {whole : List (List UInt8)} {tail : List UInt8}
    (hbuf : s.procBuf = whole.flatten ++ tail) (hwhole : ∀ frame ∈ whole, ValidFrame frame)
    (htail : HalfFrame tail) :
    tyDpProc s =
      { s with
        procBuf := if hnRecvMinNum ≤ tail.length then s.procBuf else tail
        recvState := .uartRecv
        dispatched := s.dispatched ++ whole } := by
  have hscan := scan_frames [] hwhole htail
  rw [List.nil_append, ← hbuf] at hscan
  unfold tyDpProc
  rw [show scan s.procBuf 0 = _ from hscan]
  simp only [List.length_nil, Nat.zero_add, decide_eq_true_eq]
  rw [show s.procBuf.drop whole.flatten.length = tail by rw [hbuf, List.drop_left]]

end Sv6x66.Tylink.McuLink
