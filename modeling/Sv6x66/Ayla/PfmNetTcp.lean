import Mathlib.Data.List.ReduceOption
import Sv6x66.Lib.LinkedQueue
import Sv6x66.Lib.Run

/-! The send queue of a TCP connection, `pfm_net_tcp.c`: frames of a fixed size, filled
behind by the writer and drained in front by `send`. -/
namespace Sv6x66.Ayla.PfmNetTcp
open Sv6x66.Lib Function

abbrev Addr := Nat

def pfmNetBufsize : Nat := 4096

inductive AlErr where
  | ok
  | buf
  deriving DecidableEq

/-- The frames in memory, one map for each field, and the connection. `live` are the
blocks in use. `written` and `accepted` record the bytes of the successful writes and
those `send` took, `reported` the calls of `sent_cb`; `nullWrite` is set by a write
through `NULL`. -/
structure Tcp where
  data : Addr → Nat → UInt8
  len : Addr → Nat
  pNext : Addr → Option Addr
  live : List Addr
  queueHead : Option Addr
  queueTail : Option Addr
  connected : Bool
  enableWrite : Bool
  written : List UInt8
  accepted : List UInt8
  reported : List Nat
  nullWrite : Bool

def memcpy (dst : Nat → UInt8) (offset : Nat) (src : List UInt8) : Nat → UInt8 := fun i =>
  if offset ≤ i ∧ i < offset + src.length then src.getD (i - offset) 0 else dst i

/-- `memmove(data, data + rc, count)`. -/
def memmoveFront (data : Nat → UInt8) (rc count : Nat) : Nat → UInt8 := fun i =>
  if i < count then data (i + rc) else data i

/-- The bytes in front of `len`. -/
def content (data : Nat → UInt8) (len : Nat) : List UInt8 := (List.range len).map data

def append (s : Tcp) (pFrame : Addr) (bytes : List UInt8) : Tcp :=
  { s with
    data := update s.data pFrame (memcpy (s.data pFrame) (s.len pFrame) bytes)
    len := update s.len pFrame (s.len pFrame + bytes.length) }

/-- `al_os_mem_calloc` returned `pFrame`, which is put at the end. -/
def addFrame (s : Tcp) (pFrame : Addr) : Tcp :=
  let s := { s with
    data := update s.data pFrame fun _ => 0
    len := update s.len pFrame 0
    pNext := update s.pNext pFrame none
    live := pFrame :: s.live }
  match s.queueHead, s.queueTail with
  | none, _ => { s with queueHead := some pFrame, queueTail := some pFrame }
  | some _, some tail => { s with
    pNext := update s.pNext tail (some pFrame)
    queueTail := some pFrame }
  | some _, none => { s with nullWrite := true }

/-- The loop of `pfm_net_tcp_write`; `callocs` are the results of the allocations. -/
def writeLoop (s : Tcp) (buf : List UInt8) (callocs : List (Option Addr)) : AlErr × Tcp :=
  if buf = [] then (.ok, s)
  else
    match _h : s.queueTail.filter fun pFrame => s.len pFrame < pfmNetBufsize with
    | some pFrame =>
      let cpSize := min (pfmNetBufsize - s.len pFrame) buf.length
      writeLoop (append s pFrame (buf.take cpSize)) (buf.drop cpSize) callocs
    | none =>
      match callocs with
      | some pFrame :: callocs =>
        let cpSize := min pfmNetBufsize buf.length
        writeLoop (append (addFrame s pFrame) pFrame (buf.take cpSize)) (buf.drop cpSize) callocs
      | _ => (.buf, s)
termination_by buf.length
decreasing_by
  · have hroom := (Option.filter_eq_some_iff.mp _h).2
    have hbuf := List.length_pos_iff.mpr ‹buf ≠ []›
    simp only [decide_eq_true_eq] at hroom
    simp only [List.length_drop]
    omega
  · have hbuf := List.length_pos_iff.mpr ‹buf ≠ []›
    simp only [List.length_drop, pfmNetBufsize]
    omega

/-- `al_os_mem_calloc` returns no block that is in use. -/
def Fresh (s : Tcp) (callocs : List (Option Addr)) : Prop :=
  callocs.reduceOption.Nodup ∧ ∀ pFrame ∈ callocs.reduceOption, pFrame ∉ s.live

instance (s : Tcp) (callocs : List (Option Addr)) : Decidable (Fresh s callocs) :=
  inferInstanceAs (Decidable (_ ∧ _))

/-- `none` is a failed assertion. -/
def pfmNetTcpWrite (s : Tcp) (buf : List UInt8) (callocs : List (Option Addr)) :
    Option (AlErr × Tcp) :=
  if buf = [] then none
  else
    let result := writeLoop s buf callocs
    if result.1 = .ok then some (.ok, { result.2 with written := s.written ++ buf })
    else some result

/-- `send` took `rc` bytes of `pFrame`. -/
def sent (s : Tcp) (pFrame : Addr) (rc : Nat) : Tcp :=
  let s := { s with
    accepted := s.accepted ++ content (s.data pFrame) rc
    reported := s.reported ++ [rc] }
  if rc < s.len pFrame then
    { s with
      data := update s.data pFrame (memmoveFront (s.data pFrame) rc (s.len pFrame - rc))
      len := update s.len pFrame (s.len pFrame - rc) }
  else
    let s := { s with queueHead := s.pNext pFrame, live := s.live.erase pFrame }
    if s.queueTail = some pFrame then { s with queueTail := none, enableWrite := false } else s

/-- `send` or `low_level_send` returned `rc`; `none` is a failed assertion. -/
def pfmNetSyncWrite (s : Tcp) (rc : Int) : Option Tcp :=
  match s.queueHead with
  | none => some { s with queueTail := none, enableWrite := false }
  | some pFrame =>
    if s.len pFrame = 0 then none
    else if rc < 0 then some { s with connected := false }
    else if rc = 0 then some s
    else if rc ≤ s.len pFrame then some (sent s pFrame rc.toNat)
    else none

inductive Event where
  | write (buf : List UInt8) (callocs : List (Option Addr))
  | syncWrite (rc : Int)

def step (s : Tcp) (event : Event) : Option Tcp :=
  if s.nullWrite then none
  else
    match event with
    | .write buf callocs =>
      if Fresh s callocs then (pfmNetTcpWrite s buf callocs).map Prod.snd else none
    | .syncWrite rc => pfmNetSyncWrite s rc

def pfmNetTcpNew : Tcp where
  data := fun _ _ => 0
  len := fun _ => 0
  pNext := fun _ => none
  live := []
  queueHead := none
  queueTail := none
  connected := true
  enableWrite := false
  written := []
  accepted := []
  reported := []
  nullWrite := false

/-- Every write gets the memory it needs. -/
def Successful (s : Tcp) : Event → Prop
  | .write buf callocs => ∃ t, pfmNetTcpWrite s buf callocs = some (.ok, t)
  | .syncWrite _ => True

/-- What is promised of a state. -/
structure ByteStream (s : Tcp) : Prop where
  order : s.accepted <+: s.written
  total : s.reported.sum = s.accepted.length
  tail : ∃ nodes, Linked s.pNext s.queueHead nodes ∧ s.queueTail = nodes.getLast?

variable {s t : Tcp} {nodes : List Addr} {bytes : List UInt8} {pFrame : Addr}

/-! ### One frame -/

@[simp] theorem length_content (data : Nat → UInt8) (len : Nat) :
    (content data len).length = len := by
  rw [content, List.length_map, List.length_range]

theorem content_memcpy (data : Nat → UInt8) (len : Nat) (src : List UInt8) :
    content (memcpy data len src) (len + src.length) = content data len ++ src := by
  apply List.ext_getElem
  · simp
  intro i hi _
  simp only [length_content] at hi
  rw [List.getElem_append]
  simp only [content, List.getElem_map, List.getElem_range, List.length_map, List.length_range]
  split
  · exact if_neg (by omega)
  · rename_i hlen
    refine (if_pos (by omega)).trans ?_
    exact (List.getElem_eq_getD _).symm

theorem content_memmoveFront (data : Nat → UInt8) (rc len : Nat) :
    content (memmoveFront data rc (len - rc)) (len - rc) = (content data len).drop rc := by
  apply List.ext_getElem
  · simp
  intro i hi _
  simp only [length_content] at hi
  simp only [content, List.getElem_map, List.getElem_range, List.getElem_drop]
  rw [memmoveFront, if_pos hi, Nat.add_comm]

theorem content_take (data : Nat → UInt8) {rc len : Nat} (hrc : rc ≤ len) :
    (content data len).take rc = content data rc := by
  rw [content, content, ← List.map_take, List.take_range, Nat.min_eq_left hrc]

theorem content_eq_append (data : Nat → UInt8) {rc len : Nat} (hrc : rc ≤ len) :
    content data len = content data rc ++ content (memmoveFront data rc (len - rc)) (len - rc) := by
  rw [content_memmoveFront data rc len, ← content_take data hrc, List.take_append_drop]

/-! ### The queue -/

/-- The queue holds `bytes`. -/
structure Holds (s : Tcp) (nodes : List Addr) (bytes : List UInt8) : Prop where
  queue : IsQueue s.pNext s.queueHead s.queueTail nodes
  live : ∀ pFrame ∈ nodes, pFrame ∈ s.live
  len : ∀ pFrame ∈ nodes, s.len pFrame ≤ pfmNetBufsize
  bytes : nodes.flatMap (fun pFrame => content (s.data pFrame) (s.len pFrame)) = bytes
  nullWrite : s.nullWrite = false

/-- The bytes of the frames, from the first one on. -/
def Queues (s : Tcp) (bytes : List UInt8) : Prop := ∃ nodes, Holds s nodes bytes

theorem Queues.unique {bytes' : List UInt8} (h : Queues s bytes) (h' : Queues s bytes') :
    bytes = bytes' := by
  obtain ⟨nodes, hnodes⟩ := h
  obtain ⟨nodes', hnodes'⟩ := h'
  rw [← hnodes.bytes, ← hnodes'.bytes, hnodes.queue.linked.unique hnodes'.queue.linked]

/-- No frame is empty. -/
def Filled (s : Tcp) (nodes : List Addr) : Prop := ∀ pFrame ∈ nodes, 0 < s.len pFrame

/-- The records and the parts of the connection that a write leaves alone. -/
structure SameRecords (s t : Tcp) : Prop where
  written : t.written = s.written
  accepted : t.accepted = s.accepted
  reported : t.reported = s.reported

theorem SameRecords.trans {u : Tcp} (h : SameRecords s t) (h' : SameRecords t u) :
    SameRecords s u :=
  ⟨h'.written.trans h.written, h'.accepted.trans h.accepted, h'.reported.trans h.reported⟩

theorem sameRecords_addFrame (s : Tcp) (pFrame : Addr) : SameRecords s (addFrame s pFrame) := by
  unfold addFrame
  cases s.queueHead <;> cases s.queueTail <;> exact ⟨rfl, rfl, rfl⟩

/-- Bytes are put behind those of the last frame. -/
theorem Holds.append (h : Holds s nodes bytes) (htail : s.queueTail = some pFrame)
    {more : List UInt8} (hroom : s.len pFrame + more.length ≤ pfmNetBufsize) :
    Holds (append s pFrame more) nodes (bytes ++ more) where
  queue := h.queue
  live := h.live
  len := by
    intro p hp
    by_cases hpFrame : p = pFrame
    · subst hpFrame
      simpa [PfmNetTcp.append] using hroom
    · simpa [PfmNetTcp.append, hpFrame] using h.len p hp
  bytes := by
    obtain ⟨front, rfl⟩ := List.getLast?_eq_some_iff.mp (h.queue.tail.symm.trans htail)
    have hfresh : ∀ p ∈ front, p ≠ pFrame := fun p hp =>
      (List.nodup_append.mp h.queue.nodup).2.2 p hp pFrame (List.mem_singleton_self pFrame)
    have hfront : front.flatMap (fun p =>
        content ((PfmNetTcp.append s pFrame more).data p) ((PfmNetTcp.append s pFrame more).len p)) =
        front.flatMap fun p => content (s.data p) (s.len p) := by
      refine List.flatMap_congr fun p hp => ?_
      simp [PfmNetTcp.append, hfresh p hp]
    rw [← h.bytes, List.flatMap_append, List.flatMap_append, hfront, List.append_assoc]
    simp [PfmNetTcp.append, content_memcpy]
  nullWrite := h.nullWrite

/-- The fields of the frames after a new one is put at the end. -/
theorem addFrame_fields (s : Tcp) (pFrame : Addr) :
    (addFrame s pFrame).data = update s.data pFrame (fun _ => 0) ∧
      (addFrame s pFrame).len = update s.len pFrame 0 ∧
      (addFrame s pFrame).live = pFrame :: s.live := by
  unfold addFrame
  cases s.queueHead <;> cases s.queueTail <;> exact ⟨rfl, rfl, rfl⟩

theorem isQueue_addFrame (hqueue : IsQueue s.pNext s.queueHead s.queueTail nodes)
    (hnull : s.nullWrite = false) (hfresh : pFrame ∉ nodes) :
    IsQueue (addFrame s pFrame).pNext (addFrame s pFrame).queueHead (addFrame s pFrame).queueTail
        (nodes ++ [pFrame]) ∧
      (addFrame s pFrame).queueTail = some pFrame ∧ (addFrame s pFrame).nullWrite = false := by
  have hcongr : IsQueue (update s.pNext pFrame none) s.queueHead s.queueTail nodes := by
    refine hqueue.congr fun p hp => update_of_ne ?_ ..
    rintro rfl
    exact hfresh hp
  unfold addFrame
  cases hhead : s.queueHead with
  | none =>
    have hnil : nodes = [] := hqueue.eq_nil_iff_head.mp hhead
    rw [hnil]
    exact ⟨.first (update_self ..), rfl, hnull⟩
  | some head =>
    cases htail : s.queueTail with
    | none =>
      have hnil : nodes = [] := hqueue.eq_nil_iff_tail.mp htail
      rw [hqueue.eq_nil_iff_head.mpr hnil] at hhead
      cases hhead
    | some last =>
      have hne : pFrame ≠ last := by
        rintro rfl
        exact hfresh (hqueue.tail_mem htail)
      refine ⟨?_, rfl, hnull⟩
      rw [hhead] at hcongr
      refine hcongr.snoc htail hfresh (update_self ..) ?_ fun p _ hp => update_of_ne hp ..
      dsimp only
      rw [update_of_ne hne, update_self]

theorem Holds.addFrame (h : Holds s nodes bytes) (hfresh : pFrame ∉ s.live) :
    Holds (addFrame s pFrame) (nodes ++ [pFrame]) bytes := by
  obtain ⟨hdata, hlen, hlive⟩ := addFrame_fields s pFrame
  have hnew : pFrame ∉ nodes := fun hmem => hfresh (h.live pFrame hmem)
  have hother : ∀ p ∈ nodes, p ≠ pFrame := by
    rintro p hp rfl
    exact hnew hp
  obtain ⟨hqueue, -, hnull⟩ := isQueue_addFrame h.queue h.nullWrite hnew
  refine ⟨hqueue, ?_, ?_, ?_, hnull⟩
  · intro p hp
    rw [hlive]
    rcases List.mem_append.mp hp with hp | hp
    · exact List.mem_cons_of_mem _ (h.live p hp)
    · exact List.mem_cons.mpr (.inl (List.mem_singleton.mp hp))
  · intro p hp
    rw [hlen]
    rcases List.mem_append.mp hp with hp | hp
    · rw [update_of_ne (hother p hp)]
      exact h.len p hp
    · rw [List.mem_singleton.mp hp, update_self]
      exact Nat.zero_le _
  · have hfront : nodes.flatMap (fun p => content ((PfmNetTcp.addFrame s pFrame).data p)
        ((PfmNetTcp.addFrame s pFrame).len p)) =
        nodes.flatMap fun p => content (s.data p) (s.len p) := by
      refine List.flatMap_congr fun p hp => ?_
      rw [hdata, hlen, update_of_ne (hother p hp), update_of_ne (hother p hp)]
    rw [List.flatMap_append, hfront, h.bytes, hlen]
    simp [content]

theorem writeLoop_nil (s : Tcp) (callocs : List (Option Addr)) :
    writeLoop s [] callocs = (.ok, s) := by
  rw [writeLoop.eq_def]
  exact if_pos rfl

/-- There is room in the last frame. -/
theorem writeLoop_room {buf : List UInt8} (callocs : List (Option Addr)) (hbuf : buf ≠ [])
    (hroom : (s.queueTail.filter fun pFrame => s.len pFrame < pfmNetBufsize) = some pFrame) :
    writeLoop s buf callocs =
      writeLoop (append s pFrame (buf.take (min (pfmNetBufsize - s.len pFrame) buf.length)))
        (buf.drop (min (pfmNetBufsize - s.len pFrame) buf.length)) callocs := by
  rw [writeLoop.eq_def, if_neg hbuf]
  split
  · rename_i found hfound
    cases hroom.symm.trans hfound
    rfl
  · rename_i hnone
    cases hroom.symm.trans hnone

theorem writeLoop_calloc {buf : List UInt8} (callocs : List (Option Addr)) (hbuf : buf ≠ [])
    (hfull : (s.queueTail.filter fun pFrame => s.len pFrame < pfmNetBufsize) = none) :
    writeLoop s buf (some pFrame :: callocs) =
      writeLoop (append (addFrame s pFrame) pFrame (buf.take (min pfmNetBufsize buf.length)))
        (buf.drop (min pfmNetBufsize buf.length)) callocs := by
  rw [writeLoop.eq_def, if_neg hbuf]
  split
  · rename_i found hfound
    cases hfull.symm.trans hfound
  · rfl

theorem writeLoop_full {buf : List UInt8} {callocs : List (Option Addr)} (hbuf : buf ≠ [])
    (hfull : (s.queueTail.filter fun pFrame => s.len pFrame < pfmNetBufsize) = none)
    (hnone : ∀ pFrame rest, callocs ≠ some pFrame :: rest) :
    writeLoop s buf callocs = (.buf, s) := by
  rw [writeLoop.eq_def, if_neg hbuf]
  split
  · rename_i found hfound
    cases hfull.symm.trans hfound
  · split
    · exact absurd rfl (hnone _ _)
    · rfl

theorem Filled.append (h : Filled s nodes) (more : List UInt8) :
    Filled (append s pFrame more) nodes := by
  intro p hp
  by_cases hpFrame : p = pFrame
  · subst hpFrame
    simpa [PfmNetTcp.append] using Nat.lt_of_lt_of_le (h p hp) (Nat.le_add_right _ _)
  · simpa [PfmNetTcp.append, hpFrame] using h p hp

/-- A new frame is not empty once bytes are in it. -/
theorem Filled.addFrame (h : Filled s nodes) {more : List UInt8} (hmore : more ≠ []) :
    Filled (PfmNetTcp.append (addFrame s pFrame) pFrame more) (nodes ++ [pFrame]) := by
  intro p hp
  obtain ⟨-, hlen, -⟩ := addFrame_fields s pFrame
  by_cases hpFrame : p = pFrame
  · subst hpFrame
    simpa [PfmNetTcp.append, hlen] using List.length_pos_iff.mpr hmore
  · rcases List.mem_append.mp hp with hp | hp
    · simpa [PfmNetTcp.append, hlen, hpFrame] using h p hp
    · exact absurd (List.mem_singleton.mp hp) hpFrame

/-- The block is not in use, and the others are not in use when it is. -/
theorem Fresh.addFrame {callocs : List (Option Addr)} (h : Fresh s (some pFrame :: callocs))
    (more : List UInt8) :
    pFrame ∉ s.live ∧ Fresh (PfmNetTcp.append (addFrame s pFrame) pFrame more) callocs := by
  obtain ⟨hnodup, hnew⟩ := h
  simp only [List.reduceOption_cons_of_some, List.nodup_cons, List.mem_cons, forall_eq_or_imp]
    at hnodup hnew
  refine ⟨hnew.1, hnodup.2, fun p hp => ?_⟩
  show p ∉ (PfmNetTcp.addFrame s pFrame).live
  rw [(addFrame_fields s pFrame).2.2, List.mem_cons, not_or]
  refine ⟨?_, hnew.2 p hp⟩
  rintro rfl
  exact hnodup.1 hp

/-- A successful write appends its bytes to those of the queue. -/
theorem writeLoop_spec {buf : List UInt8} {callocs : List (Option Addr)}
    (h : Holds s nodes bytes) (hfilled : Filled s nodes) (hfresh : Fresh s callocs)
    (hok : (writeLoop s buf callocs).1 = .ok) :
    SameRecords s (writeLoop s buf callocs).2 ∧ ∃ nodes',
      Holds (writeLoop s buf callocs).2 nodes' (bytes ++ buf) ∧
        Filled (writeLoop s buf callocs).2 nodes' := by
  induction s, buf, callocs using writeLoop.induct generalizing nodes bytes with
  | case1 s callocs =>
    rw [writeLoop_nil, List.append_nil]
    exact ⟨⟨rfl, rfl, rfl⟩, nodes, h, hfilled⟩
  | case2 s buf callocs hbuf pFrame hroom cpSize =>
    rename_i ih
    rw [writeLoop_room callocs hbuf hroom] at hok ⊢
    obtain ⟨htail, hlen⟩ := Option.filter_eq_some_iff.mp hroom
    have hlen : s.len pFrame < pfmNetBufsize := of_decide_eq_true hlen
    have hcopied : s.len pFrame +
        (buf.take (min (pfmNetBufsize - s.len pFrame) buf.length)).length ≤ pfmNetBufsize := by
      rw [List.length_take]
      omega
    obtain ⟨hsame, nodes', hholds, hfilled'⟩ :=
      ih (h.append htail hcopied) (hfilled.append _) hfresh hok
    refine ⟨⟨hsame.written, hsame.accepted, hsame.reported⟩, nodes', ?_, hfilled'⟩
    rwa [List.append_assoc, List.take_append_drop] at hholds
  | case3 s buf hbuf hfull pFrame callocs cpSize =>
    rename_i ih
    rw [writeLoop_calloc callocs hbuf hfull] at hok ⊢
    obtain ⟨hnew, hrest⟩ := hfresh.addFrame (buf.take (min pfmNetBufsize buf.length))
    obtain ⟨-, hlen, -⟩ := addFrame_fields s pFrame
    have hadded := h.addFrame hnew
    have hcopied : (addFrame s pFrame).len pFrame +
        (buf.take (min pfmNetBufsize buf.length)).length ≤ pfmNetBufsize := by
      rw [hlen, update_self, List.length_take]
      omega
    have hsome : buf.take (min pfmNetBufsize buf.length) ≠ [] := by
      have hpos := List.length_pos_iff.mpr hbuf
      rw [← List.length_pos_iff, List.length_take]
      simp only [pfmNetBufsize]
      omega
    have htail : (addFrame s pFrame).queueTail = some pFrame :=
      hadded.queue.tail.trans List.getLast?_concat
    obtain ⟨hsame, nodes', hholds, hfilled'⟩ :=
      ih (hadded.append htail hcopied) (hfilled.addFrame hsome) hrest hok
    have hrecords := sameRecords_addFrame s pFrame
    refine ⟨hrecords.trans ⟨hsame.written, hsame.accepted, hsame.reported⟩, nodes', ?_, hfilled'⟩
    rwa [List.append_assoc, List.take_append_drop] at hholds
  | case4 s buf callocs hbuf hfull hnone =>
    rw [writeLoop_full hbuf hfull fun pFrame rest heq => hnone pFrame rest heq] at hok
    cases hok

/-! ### Sending -/

/-- The first frame keeps the bytes that were not taken. -/
theorem Holds.sent_part {rest : List Addr} (h : Holds s (pFrame :: rest) bytes)
    (hfilled : Filled s (pFrame :: rest)) {rc : Nat} (hrc : rc < s.len pFrame) :
    ∃ left, bytes = content (s.data pFrame) rc ++ left ∧
      Holds (sent s pFrame rc) (pFrame :: rest) left ∧
      Filled (sent s pFrame rc) (pFrame :: rest) := by
  have hother : ∀ p ∈ rest, p ≠ pFrame := by
    rintro p hp rfl
    exact (List.nodup_cons.mp h.queue.nodup).1 hp
  have hdata : (sent s pFrame rc).data =
      update s.data pFrame (memmoveFront (s.data pFrame) rc (s.len pFrame - rc)) := by
    simp only [sent, hrc, if_true]
  have hlen : (sent s pFrame rc).len = update s.len pFrame (s.len pFrame - rc) := by
    simp only [sent, hrc, if_true]
  have hqueue : (sent s pFrame rc).pNext = s.pNext ∧
      (sent s pFrame rc).queueHead = s.queueHead ∧ (sent s pFrame rc).queueTail = s.queueTail ∧
      (sent s pFrame rc).live = s.live ∧ (sent s pFrame rc).nullWrite = s.nullWrite := by
    simp only [sent, hrc, if_true, and_self]
  obtain ⟨hnext, hhead, htail, hlive, hnull⟩ := hqueue
  have hbytes := h.bytes
  rw [List.flatMap_cons, content_eq_append _ hrc.le, List.append_assoc] at hbytes
  refine ⟨_, hbytes.symm, ⟨?_, ?_, ?_, ?_, hnull.trans h.nullWrite⟩, ?_⟩
  · rw [hnext, hhead, htail]
    exact h.queue
  · rw [hlive]
    exact h.live
  · intro p hp
    rw [hlen]
    by_cases hpFrame : p = pFrame
    · subst hpFrame
      rw [update_self]
      exact (Nat.sub_le _ _).trans (h.len p hp)
    · rw [update_of_ne hpFrame]
      exact h.len p hp
  · rw [List.flatMap_cons, hdata, hlen, update_self, update_self]
    refine congrArg _ (List.flatMap_congr fun p hp => ?_)
    rw [update_of_ne (hother p hp), update_of_ne (hother p hp)]
  · intro p hp
    rw [hlen]
    by_cases hpFrame : p = pFrame
    · subst hpFrame
      rw [update_self]
      exact Nat.sub_pos_of_lt hrc
    · rw [update_of_ne hpFrame]
      exact hfilled p hp

/-- The first frame is freed once all of it is taken. -/
theorem Holds.sent_all {rest : List Addr} (h : Holds s (pFrame :: rest) bytes)
    (hfilled : Filled s (pFrame :: rest)) :
    ∃ left, bytes = content (s.data pFrame) (s.len pFrame) ++ left ∧
      Holds (sent s pFrame (s.len pFrame)) rest left ∧
      Filled (sent s pFrame (s.len pFrame)) rest := by
  have hother : ∀ p ∈ rest, p ≠ pFrame := by
    rintro p hp rfl
    exact (List.nodup_cons.mp h.queue.nodup).1 hp
  have hfields : (sent s pFrame (s.len pFrame)).data = s.data ∧
      (sent s pFrame (s.len pFrame)).len = s.len ∧
      (sent s pFrame (s.len pFrame)).live = s.live.erase pFrame ∧
      (sent s pFrame (s.len pFrame)).nullWrite = s.nullWrite := by
    simp only [sent, Nat.lt_irrefl, if_false]
    split <;> exact ⟨rfl, rfl, rfl, rfl⟩
  obtain ⟨hdata, hlen, hlive, hnull⟩ := hfields
  have hbytes := h.bytes
  rw [List.flatMap_cons] at hbytes
  refine ⟨_, hbytes.symm, ⟨?_, ?_, ?_, ?_, hnull.trans h.nullWrite⟩, ?_⟩
  · have hunlinked := h.queue.unlink
    have hlast := h.queue.last_unlinked
    simp only [sent, Nat.lt_irrefl, if_false]
    split
    · rename_i htail
      rwa [if_pos (hlast.mpr htail)] at hunlinked
    · rename_i htail
      rwa [if_neg (hlast.not.mpr htail)] at hunlinked
  · intro p hp
    rw [hlive]
    exact (List.mem_erase_of_ne (hother p hp)).mpr (h.live p (List.mem_cons_of_mem _ hp))
  · intro p hp
    rw [hlen]
    exact h.len p (List.mem_cons_of_mem _ hp)
  · rw [hdata, hlen]
  · intro p hp
    rw [hlen]
    exact hfilled p (List.mem_cons_of_mem _ hp)

/-! ### Runs -/

/-- What was written is what `send` took and what the queue holds. -/
structure Inv (s : Tcp) (nodes : List Addr) (bytes : List UInt8) : Prop where
  holds : Holds s nodes bytes
  filled : Filled s nodes
  order : s.written = s.accepted ++ bytes
  total : s.reported.sum = s.accepted.length

theorem Inv.byteStream (h : Inv s nodes bytes) : ByteStream s where
  order := h.order ▸ List.prefix_append _ _
  total := h.total
  tail := ⟨nodes, h.holds.queue.linked, h.holds.queue.tail⟩

theorem inv_pfmNetTcpNew : Inv pfmNetTcpNew [] [] where
  holds :=
    { queue := .nil _
      live := fun _ hp => absurd hp List.not_mem_nil
      len := fun _ hp => absurd hp List.not_mem_nil
      bytes := rfl
      nullWrite := rfl }
  filled := fun _ hp => absurd hp List.not_mem_nil
  order := rfl
  total := rfl

theorem sent_records (s : Tcp) (pFrame : Addr) (rc : Nat) :
    (sent s pFrame rc).written = s.written ∧
      (sent s pFrame rc).accepted = s.accepted ++ content (s.data pFrame) rc ∧
      (sent s pFrame rc).reported = s.reported ++ [rc] := by
  simp only [sent]
  split
  · exact ⟨rfl, rfl, rfl⟩
  · split <;> exact ⟨rfl, rfl, rfl⟩

theorem Inv.sent {rest : List Addr} (h : Inv s (pFrame :: rest) bytes) {rc : Nat}
    (hrc : rc ≤ s.len pFrame) : ∃ nodes left, Inv (PfmNetTcp.sent s pFrame rc) nodes left := by
  obtain ⟨hwritten, haccepted, hreported⟩ := sent_records s pFrame rc
  obtain ⟨nodes, left, hbytes, hholds, hfilled⟩ : ∃ nodes left,
      bytes = content (s.data pFrame) rc ++ left ∧
        Holds (PfmNetTcp.sent s pFrame rc) nodes left ∧
        Filled (PfmNetTcp.sent s pFrame rc) nodes := by
    rcases hrc.lt_or_eq with hpart | rfl
    · obtain ⟨left, hbytes, hholds, hfilled⟩ := h.holds.sent_part h.filled hpart
      exact ⟨_, left, hbytes, hholds, hfilled⟩
    · obtain ⟨left, hbytes, hholds, hfilled⟩ := h.holds.sent_all h.filled
      exact ⟨_, left, hbytes, hholds, hfilled⟩
  refine ⟨nodes, left, hholds, hfilled, ?_, ?_⟩
  · rw [hwritten, haccepted, h.order, hbytes, List.append_assoc]
  · rw [hreported, haccepted, List.sum_append, List.sum_singleton, List.length_append,
      length_content, h.total]

theorem Inv.syncWrite (h : Inv s nodes bytes) {rc : Int} (hstep : pfmNetSyncWrite s rc = some t) :
    ∃ nodes bytes, Inv t nodes bytes := by
  cases nodes with
  | nil =>
    have hhead : s.queueHead = none := h.holds.queue.head_eq
    simp only [pfmNetSyncWrite, hhead] at hstep
    cases hstep
    have htail : s.queueTail = none := h.holds.queue.tail
    have hqueue := h.holds.queue
    rw [htail, hhead] at hqueue
    exact ⟨[], bytes, ⟨hqueue, h.holds.live, h.holds.len, h.holds.bytes, h.holds.nullWrite⟩,
      h.filled, h.order, h.total⟩
  | cons pFrame rest =>
    have hhead : s.queueHead = some pFrame := h.holds.queue.head_eq
    have hqueue := h.holds.queue
    rw [hhead] at hqueue
    simp only [pfmNetSyncWrite, hhead] at hstep
    split_ifs at hstep with hempty hfailed hzero hle
    · cases hstep
      exact ⟨pFrame :: rest, bytes, ⟨hqueue, h.holds.live, h.holds.len, h.holds.bytes,
        h.holds.nullWrite⟩, h.filled, h.order, h.total⟩
    · cases hstep
      exact ⟨pFrame :: rest, bytes, h⟩
    · cases hstep
      exact h.sent (by omega)

theorem Inv.write (h : Inv s nodes bytes) {buf : List UInt8} {callocs : List (Option Addr)}
    (hfresh : Fresh s callocs) (hwrite : pfmNetTcpWrite s buf callocs = some (.ok, t)) :
    ∃ nodes, Inv t nodes (bytes ++ buf) := by
  unfold pfmNetTcpWrite at hwrite
  dsimp only at hwrite
  split_ifs at hwrite with hbuf hok
  · cases hwrite
    obtain ⟨hsame, nodes', hholds, hfilled⟩ := writeLoop_spec h.holds h.filled hfresh hok
    refine ⟨nodes', ⟨hholds.queue, hholds.live, hholds.len, hholds.bytes, hholds.nullWrite⟩,
      hfilled, ?_, ?_⟩
    · rw [hsame.accepted, h.order, List.append_assoc]
    · rw [hsame.accepted, hsame.reported, h.total]
  · rw [Option.some.inj hwrite] at hok
    exact absurd rfl hok

theorem inv_step {event : Event} (h : Inv s nodes bytes) (hsuccessful : Successful s event)
    (hstep : step s event = some t) : ∃ nodes bytes, Inv t nodes bytes := by
  unfold step at hstep
  rw [if_neg (by rw [h.holds.nullWrite]; decide)] at hstep
  cases event with
  | write buf callocs =>
    obtain ⟨u, hwrite⟩ := hsuccessful
    dsimp only at hstep
    split_ifs at hstep with hfresh
    rw [hwrite] at hstep
    cases hstep
    obtain ⟨nodes', hinv⟩ := h.write hfresh hwrite
    exact ⟨nodes', bytes ++ buf, hinv⟩
  | syncWrite rc => exact h.syncWrite hstep

/-- What `send` has taken is always a prefix of what was written, all of it is
reported, and the tail is the last frame of the queue. -/
theorem byteStream_run (events : List Event) (s : Tcp)
    (hrun : Run step Successful pfmNetTcpNew events s) : ByteStream s := by
  obtain ⟨nodes, bytes, hinv⟩ : ∃ nodes bytes, Inv s nodes bytes := by
    refine hrun.invariant (I := fun s => ∃ nodes bytes, Inv s nodes bytes)
      ⟨[], [], inv_pfmNetTcpNew⟩ ?_
    rintro s event t ⟨nodes, bytes, hinv⟩ hsuccessful hstep
    exact inv_step hinv hsuccessful hstep
  exact hinv.byteStream

/-- The connection after `abc` is written to a new one. -/
def wroteAbc : Tcp :=
  { append (addFrame pfmNetTcpNew 1) 1 [97, 98, 99] with written := [97, 98, 99] }

theorem write_abc :
    pfmNetTcpWrite pfmNetTcpNew [97, 98, 99] [some 1] = some (.ok, wroteAbc) := by
  have hloop : writeLoop pfmNetTcpNew [97, 98, 99] [some 1] =
      (.ok, append (addFrame pfmNetTcpNew 1) 1 [97, 98, 99]) := by
    rw [writeLoop_calloc [] (by decide) rfl]
    exact writeLoop_nil _ _
  rw [pfmNetTcpWrite, if_neg (by decide), hloop]
  rfl

/-- `abc` is written and `send` takes its first two bytes. -/
theorem byteStream_abc : ByteStream (sent wroteAbc 1 2) ∧
    (sent wroteAbc 1 2).accepted = [97, 98] ∧ (sent wroteAbc 1 2).reported = [2] := by
  have hwrote : step pfmNetTcpNew (.write [97, 98, 99] [some 1]) = some wroteAbc := by
    show (if Fresh pfmNetTcpNew [some 1] then _ else none) = _
    rw [if_pos (by decide), write_abc]
    rfl
  have hrun : Run step Successful pfmNetTcpNew
      [.write [97, 98, 99] [some 1], .syncWrite 2] (sent wroteAbc 1 2) :=
    (Run.nil.snoc ⟨_, write_abc⟩ hwrote).snoc trivial rfl
  exact ⟨byteStream_run _ _ hrun, rfl, rfl⟩

end Sv6x66.Ayla.PfmNetTcp
