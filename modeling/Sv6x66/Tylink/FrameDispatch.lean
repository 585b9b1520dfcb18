import Sv6x66.Tylink.McuLink

/-! Dispatching a stream of valid frames. The scan consumes the frames it has
dispatched unless it stops at a beginning of a frame that holds the length field;
then they are dispatched again on the next turn. -/
namespace Sv6x66.Tylink.FrameDispatch
open Sv6x66.Lib
open Sv6x66.Lib.Framing
open Sv6x66.Tylink.McuLink

/-- The frames received whole were dispatched once and in order, and the buffer
holds what was received behind them. -/
structure DispatchedOnce (frames : List (List UInt8)) (s : TyMsg) : Prop where
  dispatched : s.dispatched = arrived frames s.received.length
  kept : s.procBuf = s.received.drop s.dispatched.flatten.length

/-- No frame has arrived whole, or less than the shortest frame follows those
that have. -/
def ShortTail (procBuf : List UInt8) : Prop :=
  HalfFrame procBuf ∨ ∃ (whole : List (List UInt8)) (tail : List UInt8),
    (∀ frame ∈ whole, ValidFrame frame) ∧ HalfFrame tail ∧ tail.length < hnRecvMinNum ∧
      procBuf = whole.flatten ++ tail

/-- Between two turns the frames dispatched are the first ones, and the buffer
continues them. -/
def Tracks (frames : List (List UInt8)) (s : TyMsg) : Prop :=
  (∃ rest, frames = s.dispatched ++ rest) ∧ s.received = s.dispatched.flatten ++ s.procBuf

variable {frames : List (List UInt8)} {s t : TyMsg}

theorem DispatchedOnce.tracks (h : DispatchedOnce frames s)
    (hstream : s.received <+: frames.flatten) : Tracks frames s := by
  obtain ⟨tail, htail, -⟩ := exists_tail hstream
  obtain ⟨rest, hrest⟩ := prefix_arrived frames s.received.length
  rw [← h.dispatched] at htail hrest
  refine ⟨⟨rest, hrest.symm⟩, ?_⟩
  rw [h.kept]
  conv_rhs => rw [htail, List.drop_left]
  exact htail

/-- Once the whole stream is received every frame has been dispatched. -/
theorem DispatchedOnce.all (h : DispatchedOnce frames s) (hall : s.received = frames.flatten) :
    s.dispatched = frames ∧ s.procBuf = [] := by
  have hframes : s.dispatched = frames := by
    rw [h.dispatched, hall, arrived_all]
  refine ⟨hframes, ?_⟩
  rw [h.kept, hframes, hall, List.drop_length]

/-! ### Turns -/

theorem turn_received {action : Turn} (hturn : turn s action = some t) :
    s.received <+: t.received := by
  cases action with
  | recv data =>
    simp only [turn] at hturn
    split at hturn
    · cases hturn
      exact List.prefix_append _ _
    · cases hturn
  | proc =>
    simp only [turn] at hturn
    split at hturn
    · cases hturn
      exact List.prefix_refl _
    · cases hturn

theorem Tracks.recv (h : Tracks frames s) (data : List UInt8) :
    Tracks frames (tyUartRecvProc s data) := by
  refine ⟨h.1, ?_⟩
  simp only [tyUartRecvProc]
  rw [h.2, List.append_assoc]

/-- The buffer of a receiver on track: the frames it holds whole, and what is
behind them. -/
theorem Tracks.split (h : Tracks frames s) (hvalid : ∀ frame ∈ frames, ValidFrame frame)
    (hstream : s.received <+: frames.flatten) :
    ∃ whole tail, s.procBuf = whole.flatten ++ tail ∧ (∀ frame ∈ whole, ValidFrame frame) ∧
      HalfFrame tail ∧ arrived frames s.received.length = s.dispatched ++ whole := by
  obtain ⟨⟨rest, hframes⟩, hreceived⟩ := h
  subst hframes
  rw [hreceived, List.flatten_append] at hstream
  obtain ⟨tail, htail, hhalf⟩ := exists_tail ((List.prefix_append_right_inj _).mp hstream)
  refine ⟨arrived rest s.procBuf.length, tail, htail, ?_, ?_, ?_⟩
  · intro frame hframe
    have hmem := (prefix_arrived rest _).subset hframe
    exact hvalid frame (List.mem_append_right _ hmem)
  · refine hhalf.imp_right ?_
    rintro ⟨frame, hframe, hpre⟩
    exact ⟨frame, hvalid frame (List.mem_append_right _ hframe), hpre⟩
  · have hlength : s.received.length = s.dispatched.flatten.length + s.procBuf.length := by
      rw [hreceived, List.length_append]
    rw [arrived_append _ (by omega), hlength, Nat.add_sub_cancel_left]

/-- The step law of `ty_dp_proc`. -/
theorem Tracks.dispatchedOnce_iff (h : Tracks frames s)
    (hvalid : ∀ frame ∈ frames, ValidFrame frame) (hstream : s.received <+: frames.flatten) :
    DispatchedOnce frames (tyDpProc s) ↔ ShortTail s.procBuf := by
  obtain ⟨whole, tail, hbuf, hwhole, htail, harrived⟩ := h.split hvalid hstream
  have hproc := tyDpProc_frames hbuf hwhole htail
  have hdrop : s.received.drop (s.dispatched ++ whole).flatten.length = tail := by
    rw [h.2, hbuf, List.flatten_append, ← List.append_assoc, List.drop_left]
  constructor
  · intro honce
    -- The scan kept the tail only, so it did not stop early with frames ahead of it.
    have hkept := honce.kept
    rw [hproc] at hkept
    simp only at hkept
    rw [hdrop] at hkept
    by_cases hmin : hnRecvMinNum ≤ tail.length
    · rw [if_pos hmin] at hkept
      rw [hkept]
      exact Or.inl htail
    · exact Or.inr ⟨whole, tail, hwhole, htail, by omega, hbuf⟩
  · intro hshort
    rw [hproc]
    refine ⟨harrived.symm, ?_⟩
    simp only
    rw [hdrop]
    obtain hhalf | ⟨whole', tail', hwhole', htail', hshort', hbuf'⟩ := hshort
    · -- Two readings of one buffer give one result of the scan.
      have hnil : ∀ frame ∈ ([] : List (List UInt8)), ValidFrame frame := nofun
      have hnone := tyDpProc_frames rfl hnil hhalf
      have hdispatched := congrArg TyMsg.dispatched (hproc.symm.trans hnone)
      have hempty : whole = [] := by simpa using hdispatched
      subst hempty
      rw [hbuf]
      exact ite_self _
    · have hsame := congrArg TyMsg.procBuf
        (hproc.symm.trans (tyDpProc_frames hbuf' hwhole' htail'))
      simp only at hsame
      rw [if_neg (show ¬ hnRecvMinNum ≤ tail'.length by omega)] at hsame
      split at hsame
      · rename_i hmin
        rw [if_pos hmin]
        have hlength := congrArg List.length (hbuf.symm.trans hsame)
        rw [List.length_append] at hlength
        omega
      · rw [if_neg ‹_›]

/-! ### Runs -/

/-- The call of `ty_dp_proc` keeps what was promised. -/
def KeepsOrder (frames : List (List UInt8)) (s : TyMsg) (action : Turn) : Prop :=
  action = .proc → DispatchedOnce frames (tyDpProc s)

/-- The call of `ty_dp_proc` finds a short tail. -/
def FindsShortTail (s : TyMsg) (action : Turn) : Prop :=
  action = .proc → ShortTail s.procBuf

theorem tracks_of_run {allowed : TyMsg → Turn → Prop} {turns : List Turn}
    (hproc : ∀ s, Tracks frames s → s.received <+: frames.flatten → allowed s .proc →
      DispatchedOnce frames (tyDpProc s))
    (hrun : Run turn allowed tyTaskStart turns s) (hstream : s.received <+: frames.flatten) :
    Tracks frames s := by
  induction hrun with
  | nil => exact ⟨⟨frames, rfl⟩, rfl⟩
  | @snoc turns s action t hrun hallowed hturn ih =>
    have hbefore := ih ((turn_received hturn).trans hstream)
    cases action with
    | recv data =>
      simp only [turn] at hturn
      split at hturn
      · cases hturn
        exact hbefore.recv data
      · cases hturn
    | proc =>
      simp only [turn] at hturn
      split at hturn
      · cases hturn
        exact (hproc s hbefore hstream hallowed).tracks hstream
      · cases hturn

theorem KeepsOrder.tracks {turns : List Turn}
    (hrun : Run turn (KeepsOrder frames) tyTaskStart turns s)
    (hstream : s.received <+: frames.flatten) : Tracks frames s :=
  tracks_of_run (fun _ _ _ hallowed => hallowed rfl) hrun hstream

theorem FindsShortTail.tracks {turns : List Turn}
    (hvalid : ∀ frame ∈ frames, ValidFrame frame)
    (hrun : Run turn FindsShortTail tyTaskStart turns s)
    (hstream : s.received <+: frames.flatten) : Tracks frames s :=
  tracks_of_run (fun _ htracks hstream hallowed =>
    (htracks.dispatchedOnce_iff hvalid hstream).mpr (hallowed rfl)) hrun hstream

/-- However a stream of valid frames is cut into reads, every call of `ty_dp_proc`
keeps the order exactly if every call finds a short tail. -/
theorem keepsOrder_iff (hvalid : ∀ frame ∈ frames, ValidFrame frame) (turns : List Turn)
    (hstream : s.received <+: frames.flatten) :
    Run turn (KeepsOrder frames) tyTaskStart turns s ↔
      Run turn FindsShortTail tyTaskStart turns s := by
  constructor
  · intro hrun
    induction hrun with
    | nil => exact .nil
    | @snoc turns s action t hrun hallowed hturn ih =>
      have hbefore := (turn_received hturn).trans hstream
      refine (ih hbefore).snoc ?_ hturn
      intro hproc
      have htracks := KeepsOrder.tracks hrun hbefore
      exact (htracks.dispatchedOnce_iff hvalid hbefore).mp (hallowed hproc)
  · intro hrun
    induction hrun with
    | nil => exact .nil
    | @snoc turns s action t hrun hallowed hturn ih =>
      have hbefore := (turn_received hturn).trans hstream
      refine (ih hbefore).snoc ?_ hturn
      intro hproc
      have htracks := FindsShortTail.tracks hvalid hrun hbefore
      exact (htracks.dispatchedOnce_iff hvalid hbefore).mpr (hallowed hproc)

/-- A heartbeat of the MCU. -/
def heartbeat : List UInt8 := [0x55, 0xaa, 0x03, 0x00, 0x00, 0x01, 0x01, 0x04]

theorem heartbeat_valid : ValidFrame heartbeat := by
  constructor <;> decide

theorem heartbeat_tail {tail : List UInt8} (hpre : tail <+: heartbeat) (hlen : tail.length < 8) :
    HalfFrame tail := .inr ⟨heartbeat, heartbeat_valid, hpre, hlen⟩

theorem heartbeats_valid (n : Nat) : ∀ frame ∈ List.replicate n heartbeat, ValidFrame frame := by
  intro frame hframe
  rw [List.eq_of_mem_replicate hframe]
  exact heartbeat_valid

/-- What is in the buffer when the first read ends inside the second heartbeat. -/
def firstRead (n : Nat) : TyMsg :=
  ⟨heartbeat ++ heartbeat.take n, .uartProc, heartbeat ++ heartbeat.take n, []⟩

theorem firstRead_proc {n : Nat} (hn : n < 8) :
    turn (firstRead n) .proc = some { firstRead n with
      procBuf := if hnRecvMinNum ≤ (heartbeat.take n).length then (firstRead n).procBuf
        else heartbeat.take n
      recvState := .uartRecv
      dispatched := [heartbeat] } := by
  have hshort : (heartbeat.take n).length < 8 := by
    rw [List.length_take]
    omega
  have htail := heartbeat_tail (List.take_prefix n heartbeat) hshort
  change some (tyDpProc (firstRead n)) = _
  rw [tyDpProc_frames (s := firstRead n) rfl (heartbeats_valid 1) htail]
  rfl

/-- One heartbeat and six bytes of the next, read at once. -/
theorem keepsOrder_heartbeat :
    Run turn (KeepsOrder [heartbeat, heartbeat]) tyTaskStart
      [.recv (heartbeat ++ heartbeat.take 6), .proc]
      ⟨heartbeat.take 6, .uartRecv, heartbeat ++ heartbeat.take 6, [heartbeat]⟩ := by
  refine (keepsOrder_iff (heartbeats_valid 2) _ (by decide)).mpr ?_
  have hread : Run turn FindsShortTail tyTaskStart [.recv (heartbeat ++ heartbeat.take 6)]
    (firstRead 6) := Run.nil.snoc (fun h => nomatch h) rfl
  refine hread.snoc ?_ (firstRead_proc (by decide))
  intro _
  exact .inr ⟨[heartbeat], heartbeat.take 6, heartbeats_valid 1,
    heartbeat_tail (List.take_prefix _ _) (by decide), by decide, rfl⟩

/-- With a seventh byte the first heartbeat stays in the buffer and is dispatched
again when the second one is complete. -/
theorem heartbeat_dispatched_again :
    (∀ frame ∈ [heartbeat, heartbeat], ValidFrame frame) ∧
      ∃ s, Run turn anyStep tyTaskStart
          [.recv (heartbeat ++ heartbeat.take 7), .proc, .recv [0x04], .proc] s ∧
        s.received = [heartbeat, heartbeat].flatten ∧
        s.dispatched = [heartbeat, heartbeat, heartbeat] ∧
        ¬ DispatchedOnce [heartbeat, heartbeat] s := by
  refine ⟨heartbeats_valid 2, ?_⟩
  have hread : Run turn anyStep tyTaskStart [.recv (heartbeat ++ heartbeat.take 7)]
    (firstRead 7) := Run.nil.snoc trivial rfl
  have hsecond : turn ⟨heartbeat ++ heartbeat, .uartProc, heartbeat ++ heartbeat, [heartbeat]⟩
      .proc = some ⟨[], .uartRecv, heartbeat ++ heartbeat, [heartbeat, heartbeat, heartbeat]⟩ := by
    change some (tyDpProc _) = _
    rw [tyDpProc_frames rfl (heartbeats_valid 2) (.inl rfl)]
    rfl
  refine ⟨_, ((hread.snoc trivial (firstRead_proc (by decide))).snoc trivial rfl).snoc trivial
    hsecond, rfl, rfl, ?_⟩
  intro honce
  exact absurd honce.dispatched (by decide)

end Sv6x66.Tylink.FrameDispatch
