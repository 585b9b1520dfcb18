import Sv6x66.Lib.StreamRing
import Sv6x66.Colink.UartData

/-! The receive ring as a FIFO. The producer does not look at `out`; what keeps
it off the unread bytes is that it never comes round in a ring of at most
`2 ^ 16` bytes. In a longer one the 16-bit indices wrap before `buf_len`. -/
namespace Sv6x66.Colink.UartFifo
open Sv6x66.Lib
open Sv6x66.Lib.StreamRing
open Sv6x66.Colink.UartData

/-- The bytes handed out are the first ones taken, the others can still be read,
and both indices are inside the buffer. -/
structure Fifo (s : Uart) : Prop where
  inOrder : s.returned <+: s.taken
  kept : readBytes (unread s) s.ring = s.taken.drop s.returned.length
  inPos_lt : s.ring.inPos < s.ring.bufLen
  outPos_lt : s.ring.outPos < s.ring.bufLen

/-- The slots the two indices go through. -/
def slots (bufLen : Nat) : Nat := min bufLen (2 ^ 16)

/-- A burst ends before the last slot and does not come round to `out`, and a
reader that finds `in` below `out` asks for no more than is there. -/
def KeepsUp (s : Uart) : Event → Prop
  | .isr copied =>
    s.ring.inPos + copied ≤ slots s.ring.bufLen ∧ unread s + copied < slots s.ring.bufLen
  | .readSize =>
    match s.reader with
    | .sizing len ahead => if ahead then s.ring.outPos ≤ s.ring.inPos else len ≤ unread s
    | _ => True
  | _ => True

/-! ### The slots -/

/-- The index after `pos`, as both sides compute it. -/
theorem wrap_eq {bufLen pos : Nat} (hpos : pos ≤ slots bufLen) :
    (if pos % 2 ^ 16 ≥ bufLen then 0 else pos % 2 ^ 16) = pos % slots bufLen := by
  unfold slots at hpos ⊢
  by_cases hsmall : bufLen ≤ 2 ^ 16
  · rw [Nat.min_eq_left hsmall] at hpos ⊢
    by_cases hend : pos = bufLen
    · rw [hend, Nat.mod_self]
      split <;> omega
    · rw [Nat.mod_eq_of_lt (show pos < bufLen by omega)]
      split <;> omega
  · rw [Nat.min_eq_right (by omega)] at hpos ⊢
    split <;> omega

theorem wrap_add {bufLen count step : Nat} (hpos : count % slots bufLen + step ≤ slots bufLen) :
    (if (count % slots bufLen + step) % 2 ^ 16 ≥ bufLen then 0
      else (count % slots bufLen + step) % 2 ^ 16) = (count + step) % slots bufLen := by
  rw [wrap_eq hpos, Nat.mod_add_mod]

/-- The state of the ring in terms of the two streams. -/
structure Streams (s : Uart) (bufLen : Nat) : Prop where
  pos : 0 < bufLen
  len : s.ring.bufLen = bufLen
  size : s.ring.buf.length = bufLen
  inPos : s.ring.inPos = s.taken.length % slots bufLen
  outPos : s.ring.outPos = s.returned.length % slots bufLen
  inOrder : s.returned <+: s.taken
  room : s.taken.length < s.returned.length + slots bufLen
  holds : Holds s.ring.buf (slots bufLen) s.taken s.returned.length
  left : ∀ left, s.reader = .copying left → left ≤ unread s

namespace Streams

variable {s t : Uart} {bufLen : Nat}

theorem slots_pos (h : Streams s bufLen) : 0 < slots bufLen := by
  have := h.pos
  unfold slots
  omega

theorem slots_le (bufLen : Nat) : slots bufLen ≤ bufLen := Nat.min_le_left _ _

theorem le (h : Streams s bufLen) : s.returned.length ≤ s.taken.length := h.inOrder.length_le

/-- The next unread byte is the one at `out`. -/
theorem byte (h : Streams s bufLen) (hunread : s.returned.length < s.taken.length) :
    s.taken[s.returned.length]? = some (readByte s.ring).1 := by
  have hslot := h.holds s.returned.length (le_refl _) hunread
  rw [← h.outPos] at hslot
  have hlt := Nat.mod_lt s.returned.length h.slots_pos
  rw [← h.outPos] at hlt
  have hin : s.ring.outPos < s.ring.buf.length := by
    have := slots_le bufLen
    have := h.size
    omega
  rw [← hslot, readByte, List.getD_eq_getElem?_getD, List.getElem?_eq_getElem hin]
  rfl

theorem readByte_ring (h : Streams s bufLen) :
    (readByte s.ring).2 =
      { s.ring with outPos := (s.returned.length + 1) % slots bufLen } := by
  have hlt := Nat.mod_lt s.returned.length h.slots_pos
  simp only [readByte, h.len, h.outPos, wrap_add (show s.returned.length % slots bufLen + 1 ≤
    slots bufLen by omega)]

/-- Handing out the byte at `out`. -/
theorem readByte (h : Streams s bufLen) {left : Nat} (hreader : s.reader = .copying (left + 1)) :
    Streams { s with
      ring := (UartData.readByte s.ring).2
      reader := .copying left
      returned := s.returned ++ [(UartData.readByte s.ring).1] } bufLen := by
  have hleft := h.left (left + 1) hreader
  have hcount := h.le
  have hunread : s.returned.length < s.taken.length := by
    unfold unread at hleft
    omega
  have hbyte := h.byte hunread
  have hroom := h.room
  rw [h.readByte_ring]
  constructor
  · exact h.pos
  · exact h.len
  · exact h.size
  · exact h.inPos
  · simp
  · obtain ⟨rest, hrest⟩ := h.inOrder
    rw [← hrest, List.getElem?_append_right (le_refl _), Nat.sub_self] at hbyte
    cases rest with
    | nil => cases hbyte
    | cons byte rest =>
      rw [List.getElem?_cons_zero] at hbyte
      cases hbyte
      exact ⟨rest, by rw [List.append_assoc]; exact hrest⟩
  · change s.taken.length < (s.returned ++ [(UartData.readByte s.ring).1]).length + slots bufLen
    rw [List.length_append]
    omega
  · rw [List.length_append]
    exact h.holds.mono (Nat.le_add_right _ _)
  · intro left' hleft'
    cases hleft'
    have hlength : (s.returned ++ [(UartData.readByte s.ring).1]).length =
      s.returned.length + 1 := List.length_append
    change left ≤ s.taken.length - (s.returned ++ [(UartData.readByte s.ring).1]).length
    unfold unread at hleft
    omega

/-- A burst of the interrupt. -/
theorem isr (h : Streams s bufLen) {copied : Nat} (hlen : copied ≤ s.rxFifo.length)
    (hcross : s.ring.inPos + copied ≤ slots bufLen)
    (hround : unread s + copied < slots bufLen) :
    Streams { s with
      ring := hsuartIsr s.ring (s.rxFifo.take copied)
      rxFifo := s.rxFifo.drop copied
      taken := s.taken ++ s.rxFifo.take copied } bufLen := by
  have hcount : (s.rxFifo.take copied).length = copied := by
    rw [List.length_take]
    omega
  have hle := h.le
  have hslots := slots_le bufLen
  have hsize := h.size
  rw [h.inPos] at hcross
  unfold unread at hround
  constructor
  · exact h.pos
  · exact h.len
  · change (splice s.ring.buf s.ring.inPos (s.rxFifo.take copied)).length = bufLen
    rw [splice_length, hsize]
    rw [hcount, h.inPos]
    omega
  · simp only [hsuartIsr, hcount, h.len, h.inPos, List.length_append]
    exact wrap_add hcross
  · exact h.outPos
  · exact h.inOrder.trans (List.prefix_append _ _)
  · simp only [List.length_append, hcount]
    omega
  · change Holds (splice s.ring.buf s.ring.inPos (s.rxFifo.take copied)) _ _ _
    rw [h.inPos]
    refine h.holds.write (by omega) ?_ ?_
    · rw [hcount]
      exact hcross
    · rw [hcount]
      omega
  · intro left hleft
    have := h.left left hleft
    simp only [unread, List.length_append] at this ⊢
    omega

/-- The number of bytes the reader goes for. -/
theorem size_le (h : Streams s bufLen) {len : Nat} {ahead : Bool}
    (hallowed : if ahead then s.ring.outPos ≤ s.ring.inPos else len ≤ unread s) :
    (if len > (if ahead then (s.ring.inPos + 2 ^ 32 - s.ring.outPos) % 2 ^ 32
        else s.ring.inPos + s.ring.bufLen - s.ring.outPos) then
      (if ahead then (s.ring.inPos + 2 ^ 32 - s.ring.outPos) % 2 ^ 32
        else s.ring.inPos + s.ring.bufLen - s.ring.outPos) else len) ≤ unread s := by
  cases ahead with
  | false =>
    simp only [Bool.false_eq_true, if_false] at hallowed ⊢
    split <;> omega
  | true =>
    simp only [if_true] at hallowed ⊢
    have hle := h.le
    have hroom := h.room
    have hslots : slots bufLen ≤ 2 ^ 16 := Nat.min_le_right _ _
    have hlt := Nat.mod_lt s.taken.length h.slots_pos
    rw [h.inPos, h.outPos] at hallowed ⊢
    have hsub := sub_eq_of_slots hle (by omega) hallowed
    unfold unread
    split <;> omega

theorem frame (h : Streams s bufLen) (hring : t.ring = s.ring) (htaken : t.taken = s.taken)
    (hreturned : t.returned = s.returned)
    (hleft : ∀ left, t.reader = .copying left → left ≤ unread s) : Streams t bufLen := by
  have hunread : unread t = unread s := by
    unfold unread
    rw [htaken, hreturned]
  constructor
  · exact h.pos
  · rw [hring, h.len]
  · rw [hring, h.size]
  · rw [hring, htaken, h.inPos]
  · rw [hring, hreturned, h.outPos]
  · rw [htaken, hreturned]
    exact h.inOrder
  · rw [htaken, hreturned]
    exact h.room
  · rw [hring, htaken, hreturned]
    exact h.holds
  · rw [hunread]
    exact hleft

/-- One step of a run that keeps up. -/
theorem step (h : Streams s bufLen) {event : Event} (hallowed : KeepsUp s event)
    (hstep : UartData.step s event = some t) : Streams t bufLen := by
  cases event with
  | receive bytes =>
    cases hstep
    exact h.frame rfl rfl rfl h.left
  | isr copied =>
    obtain ⟨hreads, rfl⟩ := stepIsr_some hstep
    obtain ⟨hcross, hround⟩ := hallowed
    rw [h.len] at hcross hround
    refine h.isr ?_ hcross hround
    unfold DriverReads at hreads
    split at hreads <;> omega
  | readCall len =>
    simp only [UartData.step, stepReadCall] at hstep
    split at hstep
    · cases hstep
    · rename_i hidle
      split at hstep
      · cases hstep
        exact h
      · cases hstep
        exact h.frame rfl rfl rfl fun left hleft => by cases hleft
  | readSize =>
    simp only [UartData.step, stepReadSize] at hstep
    split at hstep
    · rename_i len ahead hreader
      cases hstep
      simp only [KeepsUp, hreader] at hallowed
      refine h.frame rfl rfl rfl ?_
      intro left hleft
      cases hleft
      exact h.size_le hallowed
    · cases hstep
  | readByte =>
    simp only [UartData.step, stepReadByte] at hstep
    split at hstep
    · rename_i left hreader
      cases hstep
      exact h.readByte hreader
    · cases hstep
  | readReturn =>
    simp only [UartData.step] at hstep
    split at hstep
    · cases hstep
      exact h.frame rfl rfl rfl fun left hleft => by cases hleft
    · cases hstep

/-- The copy loop hands out the unread bytes in order. -/
theorem readBytes_eq (h : Streams s bufLen) (n : Nat) (hn : n ≤ unread s)
    (hreader : s.reader = .copying n) :
    readBytes n s.ring = (s.taken.drop s.returned.length).take n := by
  induction n generalizing s with
  | zero => rw [List.take_zero, readBytes]
  | succ n ih =>
    have hle := h.le
    have hunread : s.returned.length < s.taken.length := by
      unfold unread at hn
      omega
    have hnext := h.readByte hreader
    have hrest := ih hnext (hnext.left n rfl) rfl
    have hbyte := h.byte hunread
    rw [List.drop_eq_getElem?_toList_append, hbyte, readBytes]
    simp only [List.length_append, List.length_singleton] at hrest
    rw [hrest]
    rfl

theorem fifo (h : Streams s bufLen) : Fifo s := by
  have hslots := slots_le bufLen
  have hin := Nat.mod_lt s.taken.length h.slots_pos
  have hout := Nat.mod_lt s.returned.length h.slots_pos
  refine ⟨h.inOrder, ?_, ?_, ?_⟩
  · -- The reader may stand anywhere; what it would hand out depends on the ring only.
    have hall : Streams { s with reader := .copying (unread s) } bufLen := by
      refine h.frame rfl rfl rfl ?_
      intro left hleft
      cases hleft
      exact le_refl _
    have hread := hall.readBytes_eq (unread s) (le_refl _) rfl
    rw [hread, List.take_of_length_le]
    rw [List.length_drop]
    exact le_refl _
  · rw [h.len, h.inPos]
    omega
  · rw [h.len, h.outPos]
    omega

end Streams

/-! ### Runs -/

theorem streams_initial {heap : Allocator} {bufsz : UInt32} {ring : Ring}
    (hinit : Initialised heap bufsz ring) : Streams (initial ring) bufsz.toNat := by
  obtain ⟨hlen, hin, hout, hpos, -, hsize⟩ := uartDataInit_ok hinit.uartDataInit
  rw [hlen] at hpos hsize
  constructor
  · exact hpos
  · exact hlen
  · exact hsize
  · exact hin.trans (Nat.zero_mod _).symm
  · exact hout.trans (Nat.zero_mod _).symm
  · exact List.prefix_refl _
  · change 0 < 0 + slots bufsz.toNat
    unfold slots
    omega
  · exact Holds.nil _ _
  · intro left hleft
    cases hleft

theorem streams_of_keepsUp {heap : Allocator} {bufsz : UInt32} {ring : Ring} {events : List Event}
    {s : Uart} (hinit : Initialised heap bufsz ring)
    (hrun : Run step KeepsUp (initial ring) events s) : Streams s bufsz.toNat :=
  hrun.invariant (I := fun s => Streams s bufsz.toNat) (streams_initial hinit)
    fun _ _ _ h hallowed hstep => h.step hallowed hstep

/-- In a ring of at most `2 ^ 16` bytes neither index ever wraps. -/
structure Short (s : Uart) (bufLen : Nat) : Prop where
  inPos : InPos s bufLen
  streams : Streams s bufLen
  ahead : ∀ len ahead, s.reader = .sizing len ahead → ahead = true

theorem Short.outPos_le {s : Uart} {bufLen : Nat} (h : Short s bufLen) (hsmall : bufLen ≤ 2 ^ 16) :
    s.ring.outPos ≤ s.ring.inPos := by
  have hslots : slots bufLen = bufLen := Nat.min_eq_left hsmall
  have hbound := h.inPos.bound hsmall
  have hle := h.streams.le
  rw [h.streams.inPos, h.streams.outPos, hslots, Nat.mod_eq_of_lt hbound,
    Nat.mod_eq_of_lt (by omega)]
  exact hle

theorem Short.keepsUp {s t : Uart} {bufLen : Nat} {event : Event} (h : Short s bufLen)
    (hsmall : bufLen ≤ 2 ^ 16) (hstep : step s event = some t) : KeepsUp s event := by
  cases event with
  | receive bytes => trivial
  | isr copied =>
    have hnext := (h.inPos.isr (by omega) hstep).bound hsmall
    obtain ⟨hreads, rfl⟩ := stepIsr_some hstep
    have hcount : copied ≤ s.rxFifo.length := by
      unfold DriverReads at hreads
      split at hreads <;> omega
    have hslots : slots bufLen = bufLen := Nat.min_eq_left hsmall
    have hin := h.streams.inPos
    rw [hslots, Nat.mod_eq_of_lt (h.inPos.bound hsmall)] at hin
    simp only [List.length_append, List.length_take] at hnext
    simp only [KeepsUp, h.streams.len, hslots, unread]
    omega
  | readCall len => trivial
  | readSize =>
    simp only [KeepsUp]
    split
    · rename_i len ahead hreader
      rw [h.ahead len ahead hreader]
      exact h.outPos_le hsmall
    · trivial
  | readByte => trivial
  | readReturn => trivial

theorem Short.step {s t : Uart} {bufLen : Nat} {event : Event} (h : Short s bufLen)
    (hsmall : bufLen ≤ 2 ^ 16) (hstep : UartData.step s event = some t) : Short t bufLen := by
  refine ⟨h.inPos.step (by omega) hstep, h.streams.step (h.keepsUp hsmall hstep) hstep, ?_⟩
  have houtPos := h.outPos_le hsmall
  cases event with
  | receive bytes =>
    cases hstep
    exact h.ahead
  | isr copied =>
    obtain ⟨-, rfl⟩ := stepIsr_some hstep
    exact h.ahead
  | readCall len =>
    simp only [UartData.step, stepReadCall] at hstep
    split at hstep
    · cases hstep
    · split at hstep
      · cases hstep
        exact h.ahead
      · cases hstep
        intro len ahead hreader
        cases hreader
        exact decide_eq_true houtPos
  | readSize =>
    simp only [UartData.step, stepReadSize] at hstep
    split at hstep <;> cases hstep
    intro len ahead hreader
    cases hreader
  | readByte =>
    simp only [UartData.step, stepReadByte] at hstep
    split at hstep <;> cases hstep
    intro len ahead hreader
    cases hreader
  | readReturn =>
    simp only [UartData.step] at hstep
    split at hstep <;> cases hstep
    intro len ahead hreader
    cases hreader

theorem short_of_run {heap : Allocator} {bufsz : UInt32} {ring : Ring} {events : List Event}
    {s : Uart} {allowed : Uart → Event → Prop} (hinit : Initialised heap bufsz ring)
    (hsmall : bufsz.toNat ≤ 2 ^ 16) (hrun : Run step allowed (initial ring) events s) :
    Short s bufsz.toNat := by
  obtain ⟨hlen, hin, -, hpos, -, -⟩ := uartDataInit_ok hinit.uartDataInit
  rw [hlen] at hpos
  refine hrun.invariant (I := fun s => Short s bufsz.toNat) ?_ ?_
  · refine ⟨⟨hlen, ?_, fun _ => hpos⟩, streams_initial hinit, ?_⟩
    · exact hin.trans (Nat.zero_mod _).symm
    · intro len ahead hreader
      cases hreader
  · intro s event t h _ hstep
    exact h.step hsmall hstep

/-- In every run whose steps keep up, or of any steps when the buffer has at
most `2 ^ 16` bytes, the ring is a FIFO. -/
theorem uartRing_inOrder (heap : Allocator) (bufsz : UInt32) (ring : Ring) (events : List Event)
    (s : Uart) (hinit : Initialised heap bufsz ring)
    (hrun : Run step (fun s event => bufsz.toNat ≤ 2 ^ 16 ∨ KeepsUp s event) (initial ring)
      events s) : Fifo s := by
  by_cases hsmall : bufsz.toNat ≤ 2 ^ 16
  · exact (short_of_run hinit hsmall hrun).streams.fifo
  · refine (streams_of_keepsUp hinit (hrun.mono ?_)).fifo
    intro s event hallowed
    exact hallowed.resolve_left hsmall

/-! ### A whole call of the reader -/

/-- `uart_data_read_data` on the bytes that wait: those it hands out, and those it leaves. -/
def uartDataReadData (waiting : List UInt8) (len : Nat) : List UInt8 × List UInt8 :=
  (waiting.take len, waiting.drop len)

theorem readBytes_add (m n : Nat) (u : Ring) :
    (readBytes (m + n) u).take m = readBytes m u := by
  induction m generalizing u with
  | zero => rfl
  | succ m ih =>
    rw [Nat.add_right_comm, readBytes, readBytes, List.take_succ_cons, ih]

/-- What the copy loop hands out of a FIFO. -/
theorem readBytes_waiting {s : Uart} (h : Fifo s) (len : Nat) :
    readBytes (min len (unread s)) s.ring =
      (uartDataReadData (s.taken.drop s.returned.length) len).1 := by
  have hlength : (s.taken.drop s.returned.length).length = unread s := List.length_drop
  unfold uartDataReadData
  rw [← h.kept]
  rcases Nat.le_total len (unread s) with hle | hle
  · obtain ⟨rest, hrest⟩ := Nat.exists_eq_add_of_le hle
    rw [Nat.min_eq_left hle, hrest, readBytes_add]
  · rw [Nat.min_eq_right hle, List.take_of_length_le]
    rw [h.kept, hlength]
    exact hle

/-- The accesses of a call that copies `count` bytes. -/
def readEvents (len count : Nat) : List Event :=
  [.readCall len, .readSize] ++ List.replicate count .readByte ++ [.readReturn]

theorem Short.unread_eq {s : Uart} {bufLen : Nat} (h : Short s bufLen)
    (hsmall : bufLen ≤ 2 ^ 16) : uartDataReadDataSize s.ring = unread s := by
  have hslots : slots bufLen = bufLen := Nat.min_eq_left hsmall
  have hbound := h.inPos.bound hsmall
  have hle := h.streams.le
  unfold uartDataReadDataSize unread
  rw [if_pos (h.outPos_le hsmall), h.streams.inPos, h.streams.outPos, hslots,
    Nat.mod_eq_of_lt hbound, Nat.mod_eq_of_lt (by omega)]

/-- A call that no interrupt cuts hands out what waits, up to its length. -/
theorem Short.readCall {s : Uart} {bufLen : Nat} (h : Short s bufLen) (hsmall : bufLen ≤ 2 ^ 16)
    (hidle : s.reader = .idle) {len : Nat} (hlen : len ≠ 0) :
    ∃ t, Run UartData.step anyStep s (readEvents len (min len (unread s))) t ∧
      t.reader = .idle ∧ t.taken = s.taken ∧
      t.returned = s.returned ++ (uartDataReadData (s.taken.drop s.returned.length) len).1 := by
  have hbound := h.inPos.lt
  rw [h.inPos.len] at hbound
  have hsize := stepReadSize_at_once (by omega) hidle hlen
  rw [h.unread_eq hsmall, Option.bind_eq_some_iff] at hsize
  obtain ⟨u, hcall, hsize⟩ := hsize
  have hstart : Run UartData.step anyStep s [.readCall len, .readSize]
      { s with reader := .copying (min len (unread s)) } := by
    have hfirst : Run UartData.step anyStep s [.readCall len] u := Run.nil.snoc trivial hcall
    exact hfirst.snoc trivial hsize
  obtain ⟨t, hcopy, hdone, -, htaken, hreturned, -, -⟩ :=
    run_readByte (s := { s with reader := .copying (min len (unread s)) }) _ rfl
  have hreturn : UartData.step t .readReturn = some { t with reader := .idle } := if_pos hdone
  refine ⟨_, (hstart.trans hcopy).snoc trivial hreturn, rfl, htaken, ?_⟩
  rw [← readBytes_waiting h.streams.fifo]
  exact hreturned

/-- The size every caller passes to `uart_data_init`. -/
def callersBufsz : UInt32 := 0x200

/-- After every interleaving the ring the callers use is a FIFO, and the next call
gets what waits in it. -/
theorem receiveRing_inOrder (heap : Allocator) (ring : Ring) (events : List Event) (s : Uart)
    (hinit : Initialised heap callersBufsz ring)
    (hrun : Run step anyStep (initial ring) events s) :
    Fifo s ∧ ∀ len, s.reader = .idle → len ≠ 0 →
      ∃ t, Run step anyStep s (readEvents len (min len (unread s))) t ∧
        t.reader = .idle ∧ t.taken = s.taken ∧
        t.returned = s.returned ++ (s.taken.drop s.returned.length).take len := by
  have hsmall : callersBufsz.toNat ≤ 2 ^ 16 := by decide
  constructor
  · exact uartRing_inOrder heap callersBufsz ring events s hinit
      (hrun.mono fun _ _ _ => .inl hsmall)
  · intro len hidle hlen
    exact (short_of_run hinit hsmall hrun).readCall hsmall hidle hlen

/-- Two bytes arrive, the first one is read, and a third one arrives. -/
def readOne : List Event :=
  [.receive [65, 66], .isr 2, .readCall 1, .readSize, .readByte, .readReturn,
    .receive [67], .isr 1]

theorem receiveRing_inOrder_readOne :
    ∃ s, Fifo s ∧ s.taken = [65, 66, 67] ∧ s.returned = [65] ∧
      ∃ t, Run step anyStep s (readEvents 5 2) t ∧ t.returned = [65, 66, 67] := by
  obtain ⟨s, hexec, hreader, htaken, hreturned⟩ : ∃ s,
      exec step (initial ring512) readOne = some s ∧ s.reader = .idle ∧
        s.taken = [65, 66, 67] ∧ s.returned = [65] := by
    refine ⟨⟨⟨512, 65 :: 66 :: 67 :: List.replicate 509 0, 3, 1⟩, [], .idle, [65, 66, 67], [65]⟩,
      ?_, rfl, rfl, rfl⟩
    decide +kernel
  obtain ⟨hfifo, hread⟩ :=
    receiveRing_inOrder smallHeap ring512 readOne s ring512_initialised (Run.of_exec hexec)
  obtain ⟨t, hrun, -, -, hreturned'⟩ := hread 5 hreader (by decide)
  have hunread : unread s = 2 := by
    rw [unread, htaken, hreturned]
    rfl
  rw [hunread] at hrun
  refine ⟨s, hfifo, htaken, hreturned, t, hrun, ?_⟩
  rw [hreturned', htaken, hreturned]
  rfl

/-! ### A ring the indices cannot go through -/

/-- A heap with room for a long buffer. -/
def largeHeap : Allocator where
  alloc size := if size ≤ 2 ^ 20 then some (List.replicate size 0) else none
  length_eq := by
    intro size block h
    split at h <;> cases h
    exact List.length_replicate
  size_lt := by
    intro size block h
    split at h
    · omega
    · cases h

/-- `2 ^ 16 + 1` bytes. -/
def longRing : Ring := ⟨65537, List.replicate 65537 0, 0, 0⟩

theorem longRing_initialised : Initialised largeHeap 0x10001 longRing := Or.inl rfl

/-- `2 ^ 16` bytes arrive, then another one, and nothing is read. -/
def fillingEvents (n : Nat) : List Event :=
  .receive (List.replicate 65536 65 ++ [66]) :: List.replicate n (.isr 32)

/-- The state after `n` bursts of 32 bytes. -/
structure Filling (s : Uart) (n : Nat) : Prop where
  bufLen : s.ring.bufLen = 65537
  inPos : s.ring.inPos = 32 * n % 2 ^ 16
  outPos : s.ring.outPos = 0
  rxFifo : s.rxFifo = List.replicate (65536 - 32 * n) 65 ++ [66]
  reader : s.reader = .idle
  taken : s.taken = List.replicate (32 * n) 65
  returned : s.returned = []

/-- The driver hands out as many bytes as wait, up to the end of the slots. -/
theorem reads_up_to {s : Uart} {copied : Nat} (hlen : s.ring.bufLen = 65537)
    (hin : s.ring.inPos + copied ≤ 65536) (hcopied : 1 ≤ copied ∧ copied ≤ 32)
    (hwaiting : copied ≤ s.rxFifo.length) :
    DriverReads (isrRequest s.ring) s.rxFifo.length copied := by
  rw [isrRequest_eq (by omega) (by omega), hlen]
  unfold DriverReads uartrOnceSize
  rw [if_pos (by omega)]
  omega

theorem Filling.next {s : Uart} {n : Nat} (hs : Filling s n) (hn : n < 2048) :
    ∃ t, step s (.isr 32) = some t ∧ Filling t (n + 1) := by
  have hin : s.ring.inPos = 32 * n := by
    rw [hs.inPos]
    omega
  have hlong : 32 ≤ (List.replicate (65536 - 32 * n) (65 : UInt8)).length := by
    rw [List.length_replicate]
    omega
  have hreads : DriverReads (isrRequest s.ring) s.rxFifo.length 32 := by
    refine reads_up_to hs.bufLen (by omega) (by omega) ?_
    rw [hs.rxFifo, List.length_append]
    omega
  have htake : s.rxFifo.take 32 = List.replicate 32 65 := by
    rw [hs.rxFifo, List.take_append_of_le_length hlong, List.take_replicate,
      Nat.min_eq_left (by omega)]
  refine ⟨_, if_pos hreads, ?_⟩
  constructor
  · exact hs.bufLen
  · simp only [hsuartIsr, hs.bufLen, hin, htake, List.length_replicate]
    split <;> omega
  · exact hs.outPos
  · change s.rxFifo.drop 32 = _
    rw [hs.rxFifo, List.drop_append_of_le_length hlong, List.drop_replicate,
      show 65536 - 32 * n - 32 = 65536 - 32 * (n + 1) by omega]
  · exact hs.reader
  · change s.taken ++ s.rxFifo.take 32 = _
    rw [hs.taken, htake, List.replicate_append_replicate,
      show 32 * n + 32 = 32 * (n + 1) by omega]
  · exact hs.returned

theorem filling (n : Nat) (hn : n ≤ 2048) :
    ∃ s, Run step anyStep (initial longRing) (fillingEvents n) s ∧ Filling s n := by
  induction n with
  | zero =>
    refine ⟨_, Run.nil.snoc trivial rfl, ?_⟩
    constructor <;> rfl
  | succ n ih =>
    obtain ⟨s, hrun, hs⟩ := ih (by omega)
    obtain ⟨t, hstep, ht⟩ := hs.next (by omega)
    refine ⟨t, ?_, ht⟩
    have hevents : fillingEvents (n + 1) = fillingEvents n ++ [.isr 32] :=
      congrArg (_ :: ·) List.replicate_succ'
    rw [hevents]
    exact hrun.snoc trivial hstep

/-- The byte after the last slot is written over the first one. -/
theorem Filling.overwrite {s : Uart} (hs : Filling s 2048) :
    ∃ t, step s (.isr 1) = some t ∧ t.ring = ⟨65537, 66 :: s.ring.buf.drop 1, 1, 0⟩ ∧
      t.reader = .idle ∧ t.taken = s.taken ++ [66] ∧ t.returned = [] := by
  have hin : s.ring.inPos = 0 := hs.inPos
  have hfifo : s.rxFifo = [66] := hs.rxFifo
  have hreads : DriverReads (isrRequest s.ring) s.rxFifo.length 1 := by
    refine reads_up_to hs.bufLen (by omega) (by omega) ?_
    rw [hfifo]
    exact le_refl _
  refine ⟨_, if_pos hreads, ?_, hs.reader, ?_, hs.returned⟩
  · simp [hsuartIsr, hin, hfifo, hs.bufLen, hs.outPos]
  · change s.taken ++ s.rxFifo.take 1 = s.taken ++ [66]
    rw [hfifo]
    rfl

/-- Reading one byte of two that wait at the start of the buffer. -/
theorem read_one {s : Uart} {bufLen : Nat} {rest : List UInt8} {first : UInt8}
    (hring : s.ring = ⟨bufLen, first :: rest, 1, 0⟩) (hreader : s.reader = .idle) :
    ∃ t, Run step anyStep s [.readCall 1, .readSize, .readByte] t ∧
      t.taken = s.taken ∧ t.returned = s.returned ++ [first] := by
  have hcall : step s (.readCall 1) = some { s with reader := .sizing 1 true } := by
    simp [step, stepReadCall, hring, hreader]
  have hcurNum : ¬ 1 > (1 + 2 ^ 32 - 0) % 2 ^ 32 := by decide
  have hsize : step { s with reader := .sizing 1 true } .readSize =
      some { s with reader := .copying 1 } := by
    simp only [step, stepReadSize, hring, if_true, hcurNum, if_false]
  have hbyte : step { s with reader := .copying 1 } .readByte = some { s with
      ring := (readByte s.ring).2
      reader := .copying 0
      returned := s.returned ++ [first] } := by
    simp [step, stepReadByte, readByte, hring]
  exact ⟨_, ((Run.nil.snoc trivial hcall).snoc trivial hsize).snoc trivial hbyte, rfl, rfl⟩

theorem first_byte_lost :
    ¬ ∀ bufsz ring events s, Initialised largeHeap bufsz ring →
      Run step anyStep (initial ring) events s → Fifo s := by
  intro hall
  obtain ⟨s, hrun, hs⟩ := filling 2048 (le_refl _)
  obtain ⟨t, hisr, hring, hreader, htaken, hreturned⟩ := hs.overwrite
  obtain ⟨u, hread, htaken', hreturned'⟩ := read_one hring hreader
  have hrun' := (hrun.snoc trivial hisr).trans hread
  have horder := (hall 0x10001 longRing _ u longRing_initialised hrun').inOrder
  rw [htaken', hreturned', htaken, hreturned, hs.taken] at horder
  obtain ⟨rest, hrest⟩ := horder
  have hfirst := congrArg (fun bytes => bytes[0]?) hrest
  simp only [List.nil_append, List.cons_append, List.getElem?_cons_zero] at hfirst
  rw [List.getElem?_append_left (by rw [List.length_replicate]; decide),
    List.getElem?_replicate] at hfirst
  simp at hfirst

end Sv6x66.Colink.UartFifo
