import Sv6x66.Ayla.PfmNetTcp

/-! The way of a result from the socket to the send queue of a TLS stream: `wrapper_send` is
the callback of `mbedtls_ssl_write`, whose result goes through `pfm_net_tls_write` and
`al_net_stream_low_level_send` to `pfm_net_sync_write`. -/
namespace Sv6x66.Ayla.TlsSend
open Sv6x66.Lib Sv6x66.Ayla.PfmNetTcp

/-- The results of `select` and `send`, whether the socket is in the set after `select`, and
whether `errno` is `EINTR`. -/
structure SocketOutcome where
  select : Int
  isSet : Bool
  eintr : Bool
  send : Int

/-- `opened` is false for no context and for a socket of -1. -/
def wrapperSend (opened : Bool) (o : SocketOutcome) (size : Int) : Int :=
  if opened = false then -1
  else
    let rs :=
      if o.isSet then o.send
      else if o.select = 0 then o.select
      else if o.eintr = false then -1
      else o.select
    if rs > 0 then size else rs

/-- The bytes that the socket took in this call. -/
def accepted (opened : Bool) (o : SocketOutcome) : Int :=
  if opened = true ∧ o.isSet = true then max o.send 0 else 0

def mbedtlsErrSslWantRead : Int := -0x6900
def mbedtlsErrSslWantWrite : Int := -0x6880

/-- `k` is the result of `mbedtls_ssl_write`. -/
def pfmNetTlsWrite (k : Int) : Int :=
  if k < 0 then
    if k = mbedtlsErrSslWantWrite then k
    else if k = mbedtlsErrSslWantRead then k
    else 0
  else k

def pfmNetTlsGetLinkStatus : AlErr := .ok

def alNetStreamLowLevelSend (k : Int) : Int :=
  if pfmNetTlsGetLinkStatus ≠ .ok then -1 else pfmNetTlsWrite k

/-- Whether `pfm_net_sync_write` calls `err_cb`, with `AL_ERR_CLSD`. -/
def errCb (s : Tcp) (rc : Int) : Bool := s.queueHead.isSome && decide (rc < 0)

def WouldBlock (k : Int) : Prop := k = mbedtlsErrSslWantRead ∨ k = mbedtlsErrSslWantWrite

instance (k : Int) : Decidable (WouldBlock k) := inferInstanceAs (Decidable (_ ∨ _))

/-- What is asked of the layers, for one call of `wrapper_send` and one result `k` of
`mbedtls_ssl_write` for the first frame. -/
structure MapsRight (s : Tcp) (opened : Bool) (o : SocketOutcome) (size k : Int) : Prop where
  reports : wrapperSend opened o size ≤ accepted opened o
  removes : ∃ t, pfmNetSyncWrite s (alNetStreamLowLevelSend k) = some t ∧
    ∀ bytes, Queues s bytes → Queues t (bytes.drop k.toNat)
  wouldBlock : WouldBlock k → errCb s (alNetStreamLowLevelSend k) = false ∧
    pfmNetSyncWrite s (alNetStreamLowLevelSend k) = some s
  fatal : k < 0 → ¬ WouldBlock k → errCb s (alNetStreamLowLevelSend k) = true

/-- `send` takes all of the data or nothing, and a `select` that finds the socket ready has
it in its set. -/
def AllOrNothing (opened : Bool) (o : SocketOutcome) (size : Int) : Prop :=
  opened = true →
    (o.isSet = true → 0 < o.send → size ≤ o.send) ∧
      (o.isSet = false → 0 < o.select → o.eintr = false)

variable {s t : Tcp} {bytes : List UInt8} {pFrame : Addr} {k : Int}

/-! ### The callback -/

/-- A socket that is ready: the size is reported for any positive count. -/
theorem reports_iff_of_isSet {o : SocketOutcome} (hset : o.isSet = true) (size : Int) :
    wrapperSend true o size ≤ accepted true o ↔ (0 < o.send → size ≤ o.send) := by
  have hreport : wrapperSend true o size = if o.send > 0 then size else o.send := by
    simp only [wrapperSend, hset, if_true, Bool.true_eq_false, if_false]
  have haccepted : accepted true o = max o.send 0 := if_pos ⟨rfl, hset⟩
  rw [hreport, haccepted]
  split <;> omega

/-- Without a ready socket nothing is sent. -/
theorem reports_iff_of_not_isSet {o : SocketOutcome} (hset : o.isSet = false) {size : Int}
    (hsize : 0 < size) :
    wrapperSend true o size ≤ accepted true o ↔ (0 < o.select → o.eintr = false) := by
  have haccepted : accepted true o = 0 := by
    simp only [accepted, hset, Bool.false_eq_true, and_false, if_false]
  rw [haccepted]
  cases heintr : o.eintr with
  | false =>
    refine iff_of_true ?_ fun _ => rfl
    simp only [wrapperSend, hset, heintr, Bool.true_eq_false, Bool.false_eq_true, if_false,
      if_true]
    split_ifs <;> omega
  | true =>
    have hreport : wrapperSend true o size = if o.select > 0 then size else o.select := by
      simp only [wrapperSend, hset, heintr, Bool.true_eq_false, Bool.false_eq_true, if_false,
        ite_self]
    rw [hreport]
    split
    · rename_i hready
      exact iff_of_false (not_le.mpr hsize) fun h => Bool.noConfusion (h hready)
    · rename_i hready
      exact iff_of_true (not_lt.mp hready) fun h => absurd h hready

theorem reports_iff (opened : Bool) (o : SocketOutcome) {size : Int} (hsize : 0 < size) :
    wrapperSend opened o size ≤ accepted opened o ↔ AllOrNothing opened o size := by
  rw [AllOrNothing]
  cases opened with
  | false => exact iff_of_true (show (-1 : Int) ≤ 0 by decide) Bool.noConfusion
  | true =>
    rw [forall_prop_of_true rfl]
    cases hset : o.isSet with
    | true =>
      rw [reports_iff_of_isSet hset]
      exact ⟨fun h => ⟨fun _ => h, Bool.noConfusion⟩, fun h => h.1 rfl⟩
    | false =>
      rw [reports_iff_of_not_isSet hset hsize]
      exact ⟨fun h => ⟨Bool.noConfusion, fun _ => h⟩, fun h => h.2 rfl⟩

/-! ### The result of `mbedtls_ssl_write` -/

theorem alNetStreamLowLevelSend_of_nonneg (h : 0 ≤ k) : alNetStreamLowLevelSend k = k := by
  rw [alNetStreamLowLevelSend, if_neg (by decide), pfmNetTlsWrite, if_neg (not_lt.mpr h)]

/-- A would-block result is passed on. -/
theorem alNetStreamLowLevelSend_of_wouldBlock (h : WouldBlock k) :
    alNetStreamLowLevelSend k = k := by
  rcases h with rfl | rfl <;> rfl

/-- A fatal error becomes a write of nothing. -/
theorem alNetStreamLowLevelSend_of_fatal (h : k < 0) (hfatal : ¬ WouldBlock k) :
    alNetStreamLowLevelSend k = 0 := by
  obtain ⟨hread, hwrite⟩ := not_or.mp hfatal
  rw [alNetStreamLowLevelSend, if_neg (by decide), pfmNetTlsWrite, if_pos h, if_neg hwrite,
    if_neg hread]

/-! ### The queue -/

theorem pfmNetSyncWrite_of_nonneg {nodes : List Addr} (h : Holds s nodes bytes)
    (hfilled : Filled s nodes) (hhead : s.queueHead = some pFrame) (hpos : 0 ≤ k)
    (hk : k ≤ s.len pFrame) :
    ∃ t, pfmNetSyncWrite s k = some t ∧ Queues t (bytes.drop k.toNat) := by
  obtain ⟨rest, rfl⟩ : ∃ rest, nodes = pFrame :: rest :=
    List.head?_eq_some_iff.mp (h.queue.head_eq.symm.trans hhead)
  have hlen := hfilled pFrame List.mem_cons_self
  rw [pfmNetSyncWrite, hhead]
  dsimp only
  rw [if_neg hlen.ne', if_neg (not_lt.mpr hpos)]
  by_cases hzero : k = 0
  · subst hzero
    exact ⟨s, if_pos rfl, _, h⟩
  · rw [if_neg hzero, if_pos hk]
    refine ⟨_, rfl, ?_⟩
    have hrc : k.toNat ≤ s.len pFrame := by omega
    rcases hrc.lt_or_eq with hpart | hall
    · obtain ⟨left, hbytes, hleft, -⟩ := h.sent_part hfilled hpart
      rw [hbytes, List.drop_left' (length_content _ _)]
      exact ⟨_, hleft⟩
    · obtain ⟨left, hbytes, hleft, -⟩ := h.sent_all hfilled
      rw [hall, hbytes, List.drop_left' (length_content _ _)]
      exact ⟨_, hleft⟩

/-- A negative result closes the connection and takes nothing. -/
theorem pfmNetSyncWrite_of_neg {nodes : List Addr} (h : Holds s nodes bytes)
    (hfilled : Filled s nodes) (hhead : s.queueHead = some pFrame) {rc : Int} (hneg : rc < 0) :
    pfmNetSyncWrite s rc = some { s with connected := false } ∧ errCb s rc = true := by
  have hmem : pFrame ∈ nodes := List.mem_of_head? (h.queue.head_eq.symm.trans hhead)
  have hlen := hfilled pFrame hmem
  rw [pfmNetSyncWrite, errCb, hhead]
  dsimp only
  rw [if_neg hlen.ne', if_pos hneg, decide_eq_true hneg]
  exact ⟨rfl, rfl⟩

/-- The count is right in every case; would-block closes the connection, and a fatal error
is taken for a count of zero. -/
theorem mapsRight_iff {nodes : List Addr} (h : Holds s nodes bytes) (hfilled : Filled s nodes)
    (hhead : s.queueHead = some pFrame) (hk : k ≤ s.len pFrame) (opened : Bool)
    (o : SocketOutcome) {size : Int} (hsize : 0 < size) :
    MapsRight s opened o size k ↔ AllOrNothing opened o size ∧ 0 ≤ k := by
  constructor
  · intro hmaps
    refine ⟨(reports_iff opened o hsize).mp hmaps.reports, le_of_not_gt fun hneg => ?_⟩
    by_cases hblock : WouldBlock k
    · have hkept := (hmaps.wouldBlock hblock).1
      rw [alNetStreamLowLevelSend_of_wouldBlock hblock,
        (pfmNetSyncWrite_of_neg h hfilled hhead hneg).2] at hkept
      cases hkept
    · have hreported := hmaps.fatal hneg hblock
      rw [alNetStreamLowLevelSend_of_fatal hneg hblock, errCb, Bool.and_eq_true] at hreported
      exact absurd hreported.2 (by decide)
  · rintro ⟨hsends, hpos⟩
    have hresult := alNetStreamLowLevelSend_of_nonneg hpos
    obtain ⟨t, hsync, hleft⟩ := pfmNetSyncWrite_of_nonneg h hfilled hhead hpos hk
    refine ⟨(reports_iff opened o hsize).mpr hsends, ⟨t, by rw [hresult, hsync], ?_⟩, ?_, ?_⟩
    · intro bytes' h'
      rwa [h'.unique ⟨nodes, h⟩]
    · rintro (rfl | rfl) <;> exact absurd hpos (by decide)
    · intro hneg
      exact absurd hpos (not_le.mpr hneg)

/-- The record of AES-GCM for the three bytes: 5 bytes of header, 8 of nonce and 16 of tag. -/
def recordAbc : Int := 32

/-- `send` takes 20 bytes of the record. -/
def shortSend : SocketOutcome := ⟨1, true, false, 20⟩

def wholeSend : SocketOutcome := ⟨1, true, false, recordAbc⟩

/-- A record that is sent, and one that is cut off. -/
theorem mapsRight_iff_abc :
    (MapsRight wroteAbc true wholeSend recordAbc 3 ↔
      AllOrNothing true wholeSend recordAbc ∧ (0 : Int) ≤ 3) ∧
    (MapsRight wroteAbc true shortSend recordAbc 3 ↔
      AllOrNothing true shortSend recordAbc ∧ (0 : Int) ≤ 3) ∧
    AllOrNothing true wholeSend recordAbc ∧ ¬ AllOrNothing true shortSend recordAbc := by
  obtain ⟨nodes, hinv⟩ := inv_pfmNetTcpNew.write (by decide) write_abc
  have hwhole : AllOrNothing true wholeSend recordAbc :=
    fun _ => ⟨fun _ _ => le_refl _, Bool.noConfusion⟩
  have hshort : ¬ AllOrNothing true shortSend recordAbc := fun h =>
    absurd ((h rfl).1 rfl (by decide)) (by decide)
  exact ⟨mapsRight_iff hinv.holds hinv.filled rfl (by decide) true wholeSend (by decide),
    mapsRight_iff hinv.holds hinv.filled rfl (by decide) true shortSend (by decide), hwhole,
    hshort⟩

/-- A short send is reported in full, `MBEDTLS_ERR_SSL_WANT_WRITE` calls `err_cb`, and
`MBEDTLS_ERR_SSL_FATAL_ALERT_MESSAGE` does not. -/
theorem abc_mapped_wrong :
    (wrapperSend true shortSend recordAbc = recordAbc ∧ accepted true shortSend = 20) ∧
      ¬ MapsRight wroteAbc true shortSend recordAbc 3 ∧
      ¬ MapsRight wroteAbc true wholeSend recordAbc mbedtlsErrSslWantWrite ∧
      ¬ MapsRight wroteAbc true wholeSend recordAbc (-0x7780) :=
  ⟨by decide, fun h => absurd h.reports (by decide),
    fun h => absurd (h.wouldBlock (.inr rfl)).1 (by decide),
    fun h => absurd (h.fatal (by decide) (by decide)) (by decide)⟩

/-- A fatal error leaves the queue for the next call, however often it comes. -/
theorem fatal_run {nodes : List Addr} (h : Holds s nodes bytes) (hfilled : Filled s nodes)
    (hhead : s.queueHead = some pFrame) (hneg : k < 0) (hfatal : ¬ WouldBlock k) (n : Nat) :
    Run step anyStep s (List.replicate n (.syncWrite (alNetStreamLowLevelSend k))) s := by
  have hmem : pFrame ∈ nodes := List.mem_of_head? (h.queue.head_eq.symm.trans hhead)
  have hstep : step s (.syncWrite (alNetStreamLowLevelSend k)) = some s := by
    rw [alNetStreamLowLevelSend_of_fatal hneg hfatal]
    unfold step
    rw [h.nullWrite, if_neg Bool.false_ne_true]
    dsimp only
    rw [pfmNetSyncWrite, hhead]
    dsimp only
    rw [if_neg (hfilled pFrame hmem).ne', if_neg (lt_irrefl 0), if_pos rfl]
  induction n with
  | zero => exact .nil
  | succ n ih =>
    rw [List.replicate_succ']
    exact ih.snoc trivial hstep

end Sv6x66.Ayla.TlsSend
