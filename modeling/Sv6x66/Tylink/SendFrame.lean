import Sv6x66.Tylink.FrameDispatch

/-! The frames that `ty_uart_send` and `ty_msg_send` build, and what the receiver makes of
them. -/
namespace Sv6x66.Tylink.SendFrame
open Sv6x66.Lib Sv6x66.Lib.Framing
open Sv6x66.Tylink.McuLink Sv6x66.Tylink.FrameDispatch

def protVer : UInt8 := 0x00

/-- `WORD_SWAP` of a number of 32 bits. -/
def wordSwap (x : UInt32) : UInt32 := (x <<< 8 ||| x >>> 8) &&& 0xffff

/-- A `WORD_T` as it lies in memory. -/
def wordBytes (x : UInt32) : List UInt8 := [x.toUInt8, (x >>> 8).toUInt8]

/-- The header of the frame and its data, of which `len` bytes are copied. -/
def tyFrame (frType : UInt8) (len : UInt32) (data : List UInt8) : List UInt8 :=
  wordBytes (wordSwap 0x55aa) ++ [protVer, frType] ++ wordBytes (wordSwap len) ++
    data.take len.toNat

def tyUartSend (frType : UInt8) (len : UInt32) (data : List UInt8) : List UInt8 :=
  let frame := tyFrame frType len data
  frame ++ [getCheckSum frame frame.length]

/-- What is put in the queue; the length is a `WORD_T`. -/
def tyMsgSend (frType : UInt8) (len : UInt16) (data : List UInt8) : List UInt8 :=
  tyUartSend frType len.toUInt32 data

/-- What the receiver reads of a frame: `fr_type`, and `len` bytes of `data`. -/
structure Command where
  frType : UInt8
  data : List UInt8
  deriving DecidableEq

def readFrame (frame : List UInt8) : Command :=
  ⟨frame.getD 3 0, (frame.drop 6).take (frLen frame - 7)⟩

def send (c : Command) : List UInt8 := tyUartSend c.frType (UInt32.ofNat c.data.length) c.data

/-- The frame goes out at once or through the queue. -/
def Framed (c : Command) (frame : List UInt8) : Prop :=
  frame = send c ∨ frame = tyMsgSend c.frType (UInt16.ofNat c.data.length) c.data

variable {frType : UInt8} {data : List UInt8} {commands : List Command} {s : TyMsg}
  {frames : List (List UInt8)}

/-! ### The bytes of a frame -/

theorem toNat_wordSwap {n : Nat} (h : n < 2 ^ 16) :
    (wordSwap (UInt32.ofNat n)).toNat = n % 256 * 256 + n / 256 := by
  have hn : (UInt32.ofNat n).toNat = n := by
    rw [UInt32.toNat_ofNat']
    omega
  have hleft : (UInt32.ofNat n <<< 8).toNat = 2 ^ 8 * n := by
    rw [UInt32.toNat_shiftLeft, hn]
    change n <<< 8 % 2 ^ 32 = _
    rw [Nat.shiftLeft_eq]
    omega
  have hright : (UInt32.ofNat n >>> 8).toNat = n / 256 := by
    rw [UInt32.toNat_shiftRight, hn]
    exact Nat.shiftRight_eq_div_pow ..
  rw [wordSwap, UInt32.toNat_and, UInt32.toNat_or, hleft, hright,
    ← Nat.two_pow_add_eq_or_of_lt (by omega)]
  rw [show (0xffff : UInt32).toNat = 2 ^ 16 - 1 from rfl, Nat.and_two_pow_sub_one_eq_mod]
  omega

/-- A length goes out with its upper byte in front. -/
theorem wordBytes_wordSwap {n : Nat} (h : n < 2 ^ 16) :
    wordBytes (wordSwap (UInt32.ofNat n)) = [UInt8.ofNat (n / 256), UInt8.ofNat (n % 256)] := by
  have hswap := toNat_wordSwap h
  have hhigh : (wordSwap (UInt32.ofNat n)).toUInt8 = UInt8.ofNat (n / 256) := by
    apply UInt8.toNat_inj.mp
    rw [UInt32.toNat_toUInt8, hswap, UInt8.toNat_ofNat']
    omega
  have hlow : (wordSwap (UInt32.ofNat n) >>> 8).toUInt8 = UInt8.ofNat (n % 256) := by
    apply UInt8.toNat_inj.mp
    rw [UInt32.toNat_toUInt8, UInt32.toNat_shiftRight, hswap, UInt8.toNat_ofNat']
    change (n % 256 * 256 + n / 256) >>> 8 % 2 ^ 8 = _
    rw [Nat.shiftRight_eq_div_pow, Nat.add_comm, Nat.add_mul_div_right _ _ (by decide),
      Nat.div_eq_of_lt (by omega), Nat.zero_add]
  rw [wordBytes, hhigh, hlow]

theorem tyFrame_eq (frType : UInt8) {data : List UInt8} (h : data.length < 2 ^ 16) :
    tyFrame frType (UInt32.ofNat data.length) data =
      [0x55, 0xaa, protVer, frType, UInt8.ofNat (data.length / 256),
        UInt8.ofNat (data.length % 256)] ++ data := by
  have hlen : (UInt32.ofNat data.length).toNat = data.length := by
    rw [UInt32.toNat_ofNat']
    omega
  rw [tyFrame, wordBytes_wordSwap h, hlen, List.take_length]
  rfl

theorem send_eq {c : Command} (h : c.data.length < 2 ^ 16) : ∃ sum,
    sum = getCheckSum (tyFrame c.frType (UInt32.ofNat c.data.length) c.data)
      (c.data.length + 6) ∧
    send c = [0x55, 0xaa, protVer, c.frType, UInt8.ofNat (c.data.length / 256),
      UInt8.ofNat (c.data.length % 256)] ++ c.data ++ [sum] := by
  refine ⟨_, rfl, ?_⟩
  rw [send, tyUartSend, tyFrame_eq c.frType h]
  simp

/-- The queue holds the same frame. -/
theorem Framed.eq_send {c : Command} {frame : List UInt8} (h : Framed c frame)
    (hlength : c.data.length < 2 ^ 16) : frame = send c := by
  have hlen : (UInt16.ofNat c.data.length).toUInt32 = UInt32.ofNat c.data.length := by
    apply UInt32.toNat_inj.mp
    rw [UInt16.toNat_toUInt32, UInt16.toNat_ofNat', UInt32.toNat_ofNat']
    omega
  rcases h with h | h
  · exact h
  · rw [h, tyMsgSend, hlen, send]

theorem length_send {c : Command} (h : c.data.length < 2 ^ 16) :
    (send c).length = c.data.length + 7 := by
  obtain ⟨sum, -, heq⟩ := send_eq h
  rw [heq]
  simp

theorem frLen_send {c : Command} (h : c.data.length < 2 ^ 16) :
    frLen (send c) = c.data.length + 7 := by
  obtain ⟨sum, -, heq⟩ := send_eq h
  have hhigh : (UInt8.ofNat (c.data.length / 256)).toNat = c.data.length / 256 := by
    rw [UInt8.toNat_ofNat']
    omega
  have hlow : (UInt8.ofNat (c.data.length % 256)).toNat = c.data.length % 256 := by
    rw [UInt8.toNat_ofNat']
    omega
  rw [heq, frLen]
  change (UInt8.ofNat (c.data.length / 256)).toNat * 256 +
    (UInt8.ofNat (c.data.length % 256)).toNat + 6 + 1 = _
  rw [hhigh, hlow]
  omega

/-- The receiver accepts what is sent. -/
theorem send_valid {c : Command} (h : c.data.length + 7 ≤ hnRecvBufMax) : ValidFrame (send c) := by
  have hmax : hnRecvBufMax = 1024 := rfl
  have hshort : c.data.length < 2 ^ 16 := by omega
  obtain ⟨sum, hsum, heq⟩ := send_eq hshort
  have hlength := length_send hshort
  refine ⟨?_, ?_, ?_, ?_, ?_⟩
  · rw [heq]
    rfl
  · rw [heq]
    rfl
  · rw [hlength, frLen_send hshort]
  · rw [hlength]
    exact h
  · have hpre : tyFrame c.frType (UInt32.ofNat c.data.length) c.data <+: send c :=
      List.prefix_append _ _
    have hframe : (tyFrame c.frType (UInt32.ofNat c.data.length) c.data).length =
        c.data.length + 6 := by
      rw [tyFrame_eq c.frType hshort]
      simp
    rw [hlength, Nat.add_sub_assoc (by decide), ← getCheckSum_congr hpre hframe.ge, ← hsum, heq]
    simp [List.getD]

theorem readFrame_send {c : Command} (h : c.data.length < 2 ^ 16) : readFrame (send c) = c := by
  have hlen := frLen_send h
  obtain ⟨sum, -, heq⟩ := send_eq h
  rw [readFrame, hlen, heq, Nat.add_sub_cancel]
  cases c with
  | mk frType data => simp

/-! ### A stream of frames -/

/-- After a call of `ty_dp_proc` everything received whole was dispatched. -/
theorem dispatchedOnce_of_idle {frames : List (List UInt8)} {turns : List Turn}
    (hvalid : ∀ frame ∈ frames, ValidFrame frame)
    (hrun : Run turn FindsShortTail tyTaskStart turns s)
    (hstream : s.received <+: frames.flatten) (hidle : s.recvState = .uartRecv) :
    DispatchedOnce frames s := by
  induction hrun with
  | nil =>
    refine ⟨?_, rfl⟩
    cases frames with
    | nil => rfl
    | cons frame frames =>
      have hmin := (hvalid frame List.mem_cons_self).min_le
      have hlong : ¬ frame.length ≤ 0 := by
        unfold hnRecvMinNum at hmin
        omega
      exact (if_neg hlong).symm
  | @snoc turns s action t hrun hallowed hturn ih =>
    have hbefore := (turn_received hturn).trans hstream
    cases action with
    | recv data =>
      simp only [turn] at hturn
      split at hturn
      · cases hturn
        by_cases hempty : (s.procBuf ++ data).length > 0
        · rw [tyUartRecvProc, if_pos hempty] at hidle
          cases hidle
        · have hnil : s.procBuf ++ data = [] := List.eq_nil_of_length_eq_zero (by omega)
          obtain ⟨hbuf, rfl⟩ := List.append_eq_nil_iff.mp hnil
          have hsame : tyUartRecvProc s [] = s := by
            cases s
            simp_all [tyUartRecvProc]
          rw [hsame] at hidle ⊢
          exact ih hbefore hidle
      · cases hturn
    | proc =>
      simp only [turn] at hturn
      split at hturn
      · cases hturn
        have htracks := FindsShortTail.tracks hvalid hrun hbefore
        exact (htracks.dispatchedOnce_iff hvalid hbefore).mpr (hallowed rfl)
      · cases hturn

theorem frames_eq (hfits : ∀ c ∈ commands, c.data.length + 7 ≤ hnRecvBufMax)
    (hframes : List.Forall₂ Framed commands frames) : frames = commands.map send := by
  have hmax : hnRecvBufMax = 1024 := rfl
  induction hframes with
  | nil => rfl
  | @cons c frame later frames hframe _ ih =>
    have hlength := hfits c List.mem_cons_self
    rw [List.map_cons, hframe.eq_send (by omega),
      ih fun c hc => hfits c (List.mem_cons_of_mem _ hc)]

/-- The commands that were sent are the ones dispatched, once each and in order, if no call
of `ty_dp_proc` finds seven bytes of a frame that goes on behind whole ones. -/
theorem sent_commands_received (hfits : ∀ c ∈ commands, c.data.length + 7 ≤ hnRecvBufMax)
    (hframes : List.Forall₂ Framed commands frames) {turns : List Turn}
    (hrun : Run turn FindsShortTail tyTaskStart turns s) (hall : s.received = frames.flatten)
    (hidle : s.recvState = .uartRecv) :
    s.dispatched.map readFrame = commands ∧ s.procBuf = [] := by
  rw [frames_eq hfits hframes] at hall
  have hmax : hnRecvBufMax = 1024 := rfl
  have hvalid : ∀ frame ∈ commands.map send, ValidFrame frame := by
    intro frame hframe
    obtain ⟨c, hc, rfl⟩ := List.mem_map.mp hframe
    exact send_valid (hfits c hc)
  have hstream : s.received <+: (commands.map send).flatten := by
    rw [hall]
  obtain ⟨hdispatched, hbuf⟩ := (dispatchedOnce_of_idle hvalid hrun hstream hidle).all hall
  refine ⟨?_, hbuf⟩
  rw [hdispatched, List.map_map]
  refine (List.map_congr_left fun c hc => ?_).trans (List.map_id _)
  exact readFrame_send (by have := hfits c hc; omega)

/-- A heartbeat and a command for a switch, in one read. -/
def twoCommands : List Command := [⟨0, []⟩, ⟨6, [1, 1, 0, 1, 1]⟩]

def twoFrames : List (List UInt8) := [send ⟨0, []⟩, tyMsgSend 6 5 [1, 1, 0, 1, 1]]

theorem sent_commands_received_two : ∃ s,
    Run turn FindsShortTail tyTaskStart [.recv twoFrames.flatten, .proc] s ∧
      s.dispatched.map readFrame = twoCommands := by
  have hfits : ∀ c ∈ twoCommands, c.data.length + 7 ≤ hnRecvBufMax := by decide
  have hframes : List.Forall₂ Framed twoCommands twoFrames :=
    .cons (.inl rfl) (.cons (.inr rfl) .nil)
  have hwhole : ∀ frame ∈ twoFrames, ValidFrame frame := by
    intro frame hframe
    rw [frames_eq hfits hframes] at hframe
    obtain ⟨c, hc, rfl⟩ := List.mem_map.mp hframe
    exact send_valid (hfits c hc)
  have hread : turn tyTaskStart (.recv twoFrames.flatten) =
      some (tyUartRecvProc tyTaskStart twoFrames.flatten) := by
    rw [turn, if_pos ⟨rfl, by decide⟩]
  have hproc : turn (tyUartRecvProc tyTaskStart twoFrames.flatten) .proc =
      some (tyDpProc (tyUartRecvProc tyTaskStart twoFrames.flatten)) := by
    rw [turn, if_pos (by decide)]
  have hbuf : (tyUartRecvProc tyTaskStart twoFrames.flatten).procBuf =
      twoFrames.flatten ++ [] := (List.append_nil _).symm
  have hshort : FindsShortTail (tyUartRecvProc tyTaskStart twoFrames.flatten) .proc :=
    fun _ => .inr ⟨twoFrames, [], hwhole, .inl rfl, by decide, hbuf⟩
  have hrecv : FindsShortTail tyTaskStart (.recv twoFrames.flatten) := by
    intro h
    cases h
  have hrun := (Run.nil.snoc hrecv hread).snoc hshort hproc
  exact ⟨_, hrun, (sent_commands_received hfits hframes hrun rfl rfl).1⟩

end Sv6x66.Tylink.SendFrame
