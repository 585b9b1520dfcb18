import Sv6x66.Ayla.PfmNetTcp

/-! What `pfm_net_tcp_write` leaves in the queue when there is not enough memory. -/
namespace Sv6x66.Ayla.FailedWrite
open Sv6x66.Lib Sv6x66.Ayla.PfmNetTcp Function

/-- A write that returns `AL_ERR_BUF` leaves the byte stream as it was. -/
def LeavesStream (s : Tcp) (buf : List UInt8) (callocs : List (Option Addr)) : Prop :=
  ∀ t, pfmNetTcpWrite s buf callocs = some (.buf, t) → ∀ bytes, Queues s bytes → Queues t bytes

/-- The free bytes of the last frame. -/
def room (s : Tcp) : Nat := s.queueTail.elim 0 fun pFrame => pfmNetBufsize - s.len pFrame

/-- The allocations in front of the first one that fails. -/
def allocated (callocs : List (Option Addr)) : Nat := (callocs.takeWhile Option.isSome).length

/-- What a write can queue. -/
def space (s : Tcp) (callocs : List (Option Addr)) : Nat :=
  room s + pfmNetBufsize * allocated callocs

variable {s t : Tcp} {nodes : List Addr} {bytes : List UInt8} {pFrame : Addr}

/-! ### The space of a queue -/

theorem room_append (htail : s.queueTail = some pFrame) (more : List UInt8) :
    room (append s pFrame more) = room s - more.length := by
  have htail' : (append s pFrame more).queueTail = some pFrame := htail
  have hlen : (append s pFrame more).len pFrame = s.len pFrame + more.length := update_self ..
  rw [room, room, htail, htail', Option.elim_some, Option.elim_some, hlen]
  omega

theorem room_of_full
    (hfull : (s.queueTail.filter fun pFrame => s.len pFrame < pfmNetBufsize) = none) :
    room s = 0 := by
  rw [room]
  cases htail : s.queueTail with
  | none => rfl
  | some last =>
    rw [htail, Option.filter_eq_none_iff] at hfull
    have hlen := hfull last rfl
    rw [decide_eq_true_eq] at hlen
    exact Nat.sub_eq_zero_of_le (Nat.le_of_not_lt hlen)

theorem allocated_cons (pFrame : Addr) (callocs : List (Option Addr)) :
    allocated (some pFrame :: callocs) = allocated callocs + 1 := by
  rw [allocated, List.takeWhile_cons_of_pos rfl, List.length_cons, allocated]

theorem allocated_of_none {callocs : List (Option Addr)}
    (hnone : ∀ pFrame rest, callocs ≠ some pFrame :: rest) : allocated callocs = 0 := by
  match callocs with
  | [] => rfl
  | none :: _ => rfl
  | some pFrame :: rest => exact absurd rfl (hnone pFrame rest)

theorem take_append_take_drop (buf : List UInt8) {first total : Nat} (h : first ≤ total) :
    buf.take first ++ (buf.drop first).take (total - first) = buf.take total := by
  rw [← List.take_add, Nat.add_sub_of_le h]

/-! ### A write -/

/-- The loop copies what there is space for, and fails exactly if that is not all. -/
theorem writeLoop_copies (buf : List UInt8) {callocs : List (Option Addr)}
    (h : Holds s nodes bytes) (hfresh : Fresh s callocs) :
    ((writeLoop s buf callocs).1 = .ok ↔ buf.length ≤ space s callocs) ∧ ∃ nodes',
      Holds (writeLoop s buf callocs).2 nodes' (bytes ++ buf.take (space s callocs)) ∧
        (Filled s nodes → Filled (writeLoop s buf callocs).2 nodes') := by
  induction s, buf, callocs using writeLoop.induct generalizing nodes bytes with
  | case1 s callocs =>
    rw [writeLoop_nil, List.take_nil, List.append_nil]
    exact ⟨iff_of_true rfl (Nat.zero_le _), nodes, h, id⟩
  | case2 s buf callocs hbuf pFrame hroom cpSize =>
    rename_i ih
    rw [writeLoop_room callocs hbuf hroom]
    obtain ⟨htail, hlen⟩ := Option.filter_eq_some_iff.mp hroom
    have hlen : s.len pFrame < pfmNetBufsize := of_decide_eq_true hlen
    have hroom : room s = pfmNetBufsize - s.len pFrame := by
      rw [room, htail, Option.elim_some]
    have hcopied : (buf.take cpSize).length = cpSize := by
      rw [List.length_take]
      omega
    have hspace : space (append s pFrame (buf.take cpSize)) callocs =
        space s callocs - cpSize := by
      rw [space, space, room_append htail, hcopied]
      omega
    have hle : cpSize ≤ space s callocs := by
      rw [space]
      omega
    obtain ⟨hok, nodes', hholds, hfilled⟩ := ih (h.append htail (by omega)) hfresh
    rw [hspace, List.append_assoc, take_append_take_drop buf hle] at hholds
    refine ⟨hok.trans ?_, nodes', hholds, fun hf => hfilled (hf.append _)⟩
    rw [hspace, List.length_drop]
    omega
  | case3 s buf hbuf hfull pFrame callocs cpSize =>
    rename_i ih
    rw [writeLoop_calloc callocs hbuf hfull]
    obtain ⟨hnew, hrest⟩ := hfresh.addFrame (buf.take cpSize)
    obtain ⟨-, hlen, -⟩ := addFrame_fields s pFrame
    have hadded := h.addFrame hnew
    have hempty : (addFrame s pFrame).len pFrame = 0 := by rw [hlen, update_self]
    have htail : (addFrame s pFrame).queueTail = some pFrame :=
      hadded.queue.tail.trans List.getLast?_concat
    have hcopied : (buf.take cpSize).length = cpSize := by
      rw [List.length_take]
      omega
    have hsome : buf.take cpSize ≠ [] := by
      have hpos := List.length_pos_iff.mpr hbuf
      rw [← List.length_pos_iff, hcopied]
      simp only [cpSize, pfmNetBufsize]
      omega
    have hroom : room (addFrame s pFrame) = pfmNetBufsize := by
      rw [room, htail, Option.elim_some, hempty, Nat.sub_zero]
    have hspace : space (append (addFrame s pFrame) pFrame (buf.take cpSize)) callocs =
        space s (some pFrame :: callocs) - cpSize := by
      rw [space, space, room_append htail, hcopied, hroom, room_of_full hfull, allocated_cons]
      simp only [Nat.mul_add]
      omega
    have hle : cpSize ≤ space s (some pFrame :: callocs) := by
      rw [space, allocated_cons, Nat.mul_add]
      omega
    obtain ⟨hok, nodes', hholds, hfilled⟩ := ih (hadded.append htail (by omega)) hrest
    rw [hspace, List.append_assoc, take_append_take_drop buf hle] at hholds
    refine ⟨hok.trans ?_, nodes', hholds, fun hf => hfilled (hf.addFrame hsome)⟩
    rw [hspace, List.length_drop]
    omega
  | case4 s buf callocs hbuf hfull hnone =>
    have hnone : ∀ pFrame rest, callocs ≠ some pFrame :: rest :=
      fun pFrame rest heq => hnone pFrame rest heq
    have hspace : space s callocs = 0 := by
      rw [space, room_of_full hfull, allocated_of_none hnone, Nat.mul_zero]
    rw [writeLoop_full hbuf hfull hnone, hspace, List.take_zero, List.append_nil]
    have hpos := List.length_pos_iff.mpr hbuf
    exact ⟨iff_of_false AlErr.noConfusion (by omega), nodes, h, id⟩

/-- The write as a whole. -/
theorem pfmNetTcpWrite_buf {buf : List UInt8} {callocs : List (Option Addr)}
    (h : Queues s bytes) (hfresh : Fresh s callocs)
    (hwrite : pfmNetTcpWrite s buf callocs = some (.buf, t)) :
    space s callocs < buf.length ∧ Queues t (bytes ++ buf.take (space s callocs)) := by
  obtain ⟨nodes, hnodes⟩ := h
  obtain ⟨hok, nodes', hholds, -⟩ := writeLoop_copies buf hnodes hfresh
  rw [pfmNetTcpWrite] at hwrite
  split at hwrite
  · cases hwrite
  · dsimp only at hwrite
    split at hwrite
    · cases hwrite
    · rename_i hfailed
      have hresult := Option.some.inj hwrite
      rw [hresult] at hholds
      exact ⟨Nat.lt_of_not_le (hok.not.mp hfailed), nodes', hholds⟩

theorem pfmNetTcpWrite_fails {buf : List UInt8} {callocs : List (Option Addr)}
    (h : Queues s bytes) (hfresh : Fresh s callocs) (hmore : space s callocs < buf.length) :
    ∃ t, pfmNetTcpWrite s buf callocs = some (.buf, t) := by
  obtain ⟨nodes, hnodes⟩ := h
  have hfailed : (writeLoop s buf callocs).1 ≠ .ok :=
    (writeLoop_copies buf hnodes hfresh).1.not.mpr (Nat.not_le.mpr hmore)
  have hbuf : buf ≠ [] := List.length_pos_iff.mp (Nat.zero_lt_of_lt hmore)
  have hcode : (writeLoop s buf callocs).1 = .buf := by
    cases hresult : (writeLoop s buf callocs).1 with
    | ok => exact absurd hresult hfailed
    | buf => rfl
  refine ⟨(writeLoop s buf callocs).2, ?_⟩
  rw [pfmNetTcpWrite, if_neg hbuf]
  dsimp only
  rw [if_neg hfailed, ← hcode]

/-- In every queue: there is memory for all of the data, or not for the first byte. -/
theorem leavesStream_iff (h : Queues s bytes) (buf : List UInt8)
    {callocs : List (Option Addr)} (hfresh : Fresh s callocs) :
    LeavesStream s buf callocs ↔
      buf.length ≤ room s + pfmNetBufsize * allocated callocs ∨
        room s = 0 ∧ allocated callocs = 0 := by
  constructor
  · intro hleaves
    by_contra hneither
    obtain ⟨hmore, hsome⟩ := not_or.mp hneither
    obtain ⟨t, hwrite⟩ := pfmNetTcpWrite_fails h hfresh (Nat.lt_of_not_le hmore)
    have hcopied := (pfmNetTcpWrite_buf h hfresh hwrite).2
    have hsame := congrArg List.length (hcopied.unique (hleaves t hwrite bytes h))
    rw [List.length_append, List.length_take, space] at hsame
    simp only [pfmNetBufsize] at hsame hmore
    omega
  · rintro hcondition t hwrite bytes' h'
    obtain ⟨hmore, hcopied⟩ := pfmNetTcpWrite_buf h' hfresh hwrite
    rcases hcondition with hfits | ⟨hroom, hnone⟩
    · exact absurd hfits (Nat.not_le.mpr hmore)
    · rwa [space, hroom, hnone, Nat.mul_zero, Nat.add_zero, List.take_zero,
        List.append_nil] at hcopied

theorem leavesStream_iff_new :
    LeavesStream pfmNetTcpNew [1, 2, 3] [none] ↔
      3 ≤ room pfmNetTcpNew + pfmNetBufsize * allocated [none] ∨
        room pfmNetTcpNew = 0 ∧ allocated [none] = 0 :=
  leavesStream_iff ⟨[], inv_pfmNetTcpNew.holds⟩ [1, 2, 3] (by decide)

/-! ### Runs -/

/-- A queue without an empty frame. -/
def Queued (s : Tcp) : Prop := ∃ nodes bytes, Holds s nodes bytes ∧ Filled s nodes

theorem queued_write {buf : List UInt8} {callocs : List (Option Addr)} {result : AlErr × Tcp}
    (h : Queued s) (hfresh : Fresh s callocs)
    (hwrite : pfmNetTcpWrite s buf callocs = some result) : Queued result.2 := by
  obtain ⟨nodes, bytes, hholds, hfilled⟩ := h
  obtain ⟨-, nodes', hholds', hfilled'⟩ := writeLoop_copies buf hholds hfresh
  rw [pfmNetTcpWrite] at hwrite
  split at hwrite
  · cases hwrite
  · dsimp only at hwrite
    split at hwrite
    · cases hwrite
      exact ⟨nodes', _, ⟨hholds'.queue, hholds'.live, hholds'.len, hholds'.bytes,
        hholds'.nullWrite⟩, hfilled' hfilled⟩
    · cases hwrite
      exact ⟨nodes', _, hholds', hfilled' hfilled⟩

theorem queued_sent {rest : List Addr} {rc : Nat} (h : Holds s (pFrame :: rest) bytes)
    (hfilled : Filled s (pFrame :: rest)) (hrc : rc ≤ s.len pFrame) :
    Queued (sent s pFrame rc) := by
  rcases hrc.lt_or_eq with hpart | rfl
  · obtain ⟨left, -, hleft, hfilled'⟩ := h.sent_part hfilled hpart
    exact ⟨_, left, hleft, hfilled'⟩
  · obtain ⟨left, -, hleft, hfilled'⟩ := h.sent_all hfilled
    exact ⟨_, left, hleft, hfilled'⟩

theorem queued_syncWrite {rc : Int} (h : Queued s) (hsync : pfmNetSyncWrite s rc = some t) :
    Queued t := by
  obtain ⟨nodes, bytes, hholds, hfilled⟩ := h
  have hqueue := hholds.queue
  rw [pfmNetSyncWrite] at hsync
  split at hsync
  · rename_i hhead
    have hnil : nodes = [] := hholds.queue.eq_nil_iff_head.mp hhead
    rw [hhead, hholds.queue.eq_nil_iff_tail.mpr hnil] at hqueue
    cases hsync
    exact ⟨nodes, bytes, ⟨by rwa [hhead], hholds.live, hholds.len, hholds.bytes,
      hholds.nullWrite⟩, hfilled⟩
  · rename_i pFrame hhead
    obtain ⟨rest, rfl⟩ : ∃ rest, nodes = pFrame :: rest :=
      List.head?_eq_some_iff.mp (hholds.queue.head_eq.symm.trans hhead)
    split at hsync
    · cases hsync
    split at hsync
    · cases hsync
      exact ⟨pFrame :: rest, bytes, ⟨hholds.queue, hholds.live, hholds.len, hholds.bytes,
        hholds.nullWrite⟩, hfilled⟩
    split at hsync
    · cases hsync
      exact ⟨pFrame :: rest, bytes, hholds, hfilled⟩
    split at hsync
    · cases hsync
      exact queued_sent hholds hfilled (by omega)
    · cases hsync

/-- Every state that a connection reaches has a byte stream, after failed writes too. -/
theorem queues_run {events : List Event} (hrun : Run step anyStep pfmNetTcpNew events s) :
    ∃ bytes, Queues s bytes := by
  obtain ⟨nodes, bytes, hholds, -⟩ : Queued s := by
    refine hrun.invariant ⟨[], [], inv_pfmNetTcpNew.holds, inv_pfmNetTcpNew.filled⟩ ?_
    rintro s event t h - hnext
    unfold step at hnext
    split at hnext
    · cases hnext
    cases event with
    | write buf callocs =>
      dsimp only at hnext
      split at hnext
      · rename_i hfresh
        obtain ⟨result, hwrite, rfl⟩ := Option.map_eq_some_iff.mp hnext
        exact queued_write h hfresh hwrite
      · cases hnext
    | syncWrite rc => exact queued_syncWrite h hnext
  exact ⟨bytes, nodes, hholds⟩

theorem pfmNetTcpWrite_ok {buf : List UInt8} {callocs : List (Option Addr)}
    (h : Queues s bytes) (hfresh : Fresh s callocs)
    (hwrite : pfmNetTcpWrite s buf callocs = some (.ok, t)) : Queues t (bytes ++ buf) := by
  obtain ⟨nodes, hnodes⟩ := h
  obtain ⟨hok, nodes', hholds, -⟩ := writeLoop_copies buf hnodes hfresh
  rw [pfmNetTcpWrite] at hwrite
  split at hwrite
  · cases hwrite
  · dsimp only at hwrite
    split at hwrite
    · rename_i hsuccess
      rw [List.take_of_length_le (hok.mp hsuccess)] at hholds
      cases hwrite
      exact ⟨nodes', hholds.queue, hholds.live, hholds.len, hholds.bytes, hholds.nullWrite⟩
    · rename_i hfailed
      rw [Option.some.inj hwrite] at hfailed
      exact absurd rfl hfailed

/-- What was queued before the memory ran out is sent twice if the write is made again. -/
theorem queues_retry {u : Tcp} {buf : List UInt8} {callocs callocs' : List (Option Addr)}
    (h : Queues s bytes) (hfresh : Fresh s callocs)
    (hwrite : pfmNetTcpWrite s buf callocs = some (.buf, t)) (hfresh' : Fresh t callocs')
    (hretry : pfmNetTcpWrite t buf callocs' = some (.ok, u)) :
    Queues u (bytes ++ buf.take (space s callocs) ++ buf) :=
  pfmNetTcpWrite_ok (pfmNetTcpWrite_buf h hfresh hwrite).2 hfresh' hretry

/-- Of 4097 bytes the first 4096 are in the queue. -/
theorem oneFrame_queued :
    Queues pfmNetTcpNew [] ∧ ∃ t,
      pfmNetTcpWrite pfmNetTcpNew (List.replicate 4097 0) [some 1, none] = some (.buf, t) ∧
        Queues t (List.replicate 4096 0) ∧
        ¬ LeavesStream pfmNetTcpNew (List.replicate 4097 0) [some 1, none] := by
  have hnew : Queues pfmNetTcpNew [] := ⟨[], inv_pfmNetTcpNew.holds⟩
  have hfresh : Fresh pfmNetTcpNew [some 1, none] := by decide
  have hmore : space pfmNetTcpNew [some 1, none] < (List.replicate 4097 (0 : UInt8)).length := by
    rw [List.length_replicate]
    decide
  obtain ⟨t, hwrite⟩ := pfmNetTcpWrite_fails hnew hfresh hmore
  have hcopied := (pfmNetTcpWrite_buf hnew hfresh hwrite).2
  have hspace : space pfmNetTcpNew [some 1, none] = 4096 := rfl
  rw [hspace, List.nil_append, List.take_replicate, Nat.min_eq_left (by decide)] at hcopied
  refine ⟨hnew, t, hwrite, hcopied, fun hleaves => ?_⟩
  have hsame := congrArg List.length (hcopied.unique (hleaves t hwrite [] hnew))
  rw [List.length_replicate] at hsame
  cases hsame

end Sv6x66.Ayla.FailedWrite
