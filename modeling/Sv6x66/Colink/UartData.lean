import Sv6x66.Lib.Run

/-! The receive ring of `uart_data.c`, filled by `hsuart_isr` and emptied by
`uart_data_read_data`; `tuya_uart.c` has the same code under other names. The
interrupt may come between any two accesses of the reader, so the reader is a
small machine of its own. -/
namespace Sv6x66.Colink.UartData
open Sv6x66.Lib

def uartrOnceSize : Nat := 32

/-- `uart_data_s`, and `TUYA_UART_S`. -/
structure Ring where
  bufLen : Nat
  buf : List UInt8
  inPos : Nat
  outPos : Nat
deriving DecidableEq, Repr

/-- `OS_MemAlloc`: a block it returns has the size asked for, and no object of a
32-bit machine has `2 ^ 31` bytes or more. -/
structure Allocator where
  alloc : Nat → Option (List UInt8)
  length_eq : ∀ {size block}, alloc size = some block → block.length = size
  size_lt : ∀ {size block}, alloc size = some block → size < 2 ^ 31

/-- `uart_data_init` when `uart_data.buf` is that of `current`; `format` is what
`drv_hsuart_set_format` returns. -/
def uartDataInit (heap : Allocator) (current : Option Ring) (bufsz : UInt32)
    (format : Int) : Except Int Ring :=
  if bufsz = 0 then .error (-2)
  else match current with
    | some _ => .error (-1)
    | none => match heap.alloc bufsz.toNat with
      | none => .error (-3)
      | some block =>
        if format ≠ 0 then .error (-1) else .ok ⟨bufsz.toNat, block, 0, 0⟩

inductive TyUartPort where
  | uart0
  | uart1
deriving DecidableEq, Repr

inductive TyStopBits where
  | stopBit1
  | stopBit1_5
  | stopBit2
deriving DecidableEq, Repr

inductive TyDataBit where
  | wl5B
  | wl6B
  | wl7B
  | wl8B
deriving DecidableEq, Repr

def tyUartInit (heap : Allocator) (current : Option Ring) (port : TyUartPort)
    (bits : TyDataBit) (stop : TyStopBits) (bufsz : UInt32) (format : Int) : Except Int Ring :=
  if port ≠ .uart0 ∨ bufsz = 0 then .error (-2)
  else if stop = .stopBit1_5 ∧ bits ≠ .wl5B then .error (-2)
  else match current with
    | some _ => .error (-1)
    | none => match heap.alloc bufsz.toNat with
      | none => .error (-3)
      | some block =>
        if format ≠ 0 then .error (-1) else .ok ⟨bufsz.toNat, block, 0, 0⟩

def uartDataReadDataSize (u : Ring) : Nat :=
  if u.inPos ≥ u.outPos then u.inPos - u.outPos
  else u.inPos + u.bufLen - u.outPos

/-- A 32-bit word as `int`. -/
def toInt (value : Nat) : Int := (BitVec.ofNat 32 value).toInt

/-- The number of bytes `hsuart_isr` asks the driver for. -/
def isrRequest (u : Ring) : Int :=
  let retval := toInt (u.bufLen + 2 ^ 32 - u.inPos - 1)
  if retval > uartrOnceSize then uartrOnceSize else retval

/-- `hsuart_isr`, with the bytes `drv_hsuart_read_fifo` copied to `buf + in`. -/
def hsuartIsr (u : Ring) (copied : List UInt8) : Ring :=
  let buf := u.buf.take u.inPos ++ copied ++ u.buf.drop (u.inPos + copied.length)
  let inPos := (u.inPos + copied.length) % 2 ^ 16
  { u with buf := buf, inPos := if inPos ≥ u.bufLen then 0 else inPos }

/-- One turn of the copy loop of `uart_data_read_data`. -/
def readByte (u : Ring) : UInt8 × Ring :=
  let outPos := (u.outPos + 1) % 2 ^ 16
  (u.buf.getD u.outPos 0, { u with outPos := if outPos ≥ u.bufLen then 0 else outPos })

/-- What `n` turns of the copy loop would hand out. -/
def readBytes : Nat → Ring → List UInt8
  | 0, _ => []
  | n + 1, u => (readByte u).1 :: readBytes n (readByte u).2

theorem readBytes_length (n : Nat) (u : Ring) : (readBytes n u).length = n := by
  induction n generalizing u with
  | zero => rfl
  | succ n ih => rw [readBytes, List.length_cons, ih]

/-- `drv_hsuart_read_fifo`: between 1 and the requested number of bytes when
bytes wait and the request is positive, none otherwise. -/
def DriverReads (request : Int) (waiting copied : Nat) : Prop :=
  if 0 < request ∧ 0 < waiting then
    1 ≤ copied ∧ (copied : Int) ≤ request ∧ copied ≤ waiting
  else copied = 0

instance (request : Int) (waiting copied : Nat) : Decidable (DriverReads request waiting copied) :=
  inferInstanceAs (Decidable (if 0 < request ∧ 0 < waiting then
    1 ≤ copied ∧ (copied : Int) ≤ request ∧ copied ≤ waiting else copied = 0))

/-! ### The whole receive path -/

/-- Where `uart_data_read_data` stands: between the two accesses to `in` of the
size computation, or with `left` bytes to copy. -/
inductive Reader where
  | idle
  | sizing (len : Nat) (ahead : Bool)
  | copying (left : Nat)
deriving DecidableEq, Repr

structure Uart where
  ring : Ring
  /-- The bytes waiting in the hardware FIFO. -/
  rxFifo : List UInt8
  reader : Reader
  /-- All bytes `hsuart_isr` took from the FIFO, and all bytes handed out. -/
  taken : List UInt8
  returned : List UInt8
deriving DecidableEq, Repr

def initial (ring : Ring) : Uart := ⟨ring, [], .idle, [], []⟩

inductive Event where
  | receive (bytes : List UInt8)
  | isr (copied : Nat)
  | readCall (len : Nat)
  | readSize
  | readByte
  | readReturn
deriving DecidableEq, Repr

def stepIsr (s : Uart) (copied : Nat) : Option Uart :=
  if DriverReads (isrRequest s.ring) s.rxFifo.length copied then
    some { s with
      ring := hsuartIsr s.ring (s.rxFifo.take copied)
      rxFifo := s.rxFifo.drop copied
      taken := s.taken ++ s.rxFifo.take copied }
  else none

def stepReadCall (s : Uart) (len : Nat) : Option Uart :=
  if s.reader ≠ .idle then none
  else if len = 0 then some s
  else some { s with reader := .sizing len (s.ring.inPos ≥ s.ring.outPos) }

/-- `in - out` is taken as an unsigned word even if `in` fell behind since the
comparison. -/
def stepReadSize (s : Uart) : Option Uart :=
  match s.reader with
  | .sizing len ahead =>
    let curNum := if ahead then (s.ring.inPos + 2 ^ 32 - s.ring.outPos) % 2 ^ 32
      else s.ring.inPos + s.ring.bufLen - s.ring.outPos
    some { s with reader := .copying (if len > curNum then curNum else len) }
  | _ => none

/-- Without an interrupt in between, the two steps compute the size of
`uart_data_read_data_size`. -/
theorem stepReadSize_at_once {s : Uart} {len : Nat} (hin : s.ring.inPos < 2 ^ 16)
    (hidle : s.reader = .idle) (hlen : len ≠ 0) :
    (stepReadCall s len).bind stepReadSize = some { s with
      reader := .copying (min len (uartDataReadDataSize s.ring)) } := by
  have hmin (curNum : Nat) : (if len > curNum then curNum else len) = min len curNum := by
    split <;> omega
  have hword : s.ring.inPos ≥ s.ring.outPos →
      (s.ring.inPos + 2 ^ 32 - s.ring.outPos) % 2 ^ 32 = s.ring.inPos - s.ring.outPos := by
    omega
  unfold stepReadCall
  rw [if_neg (not_not.mpr hidle), if_neg hlen, Option.bind_some]
  simp only [stepReadSize, uartDataReadDataSize, decide_eq_true_eq, hmin]
  split
  · rw [hword ‹_›]
  · rfl

def stepReadByte (s : Uart) : Option Uart :=
  match s.reader with
  | .copying (left + 1) =>
    some { s with
      ring := (readByte s.ring).2
      reader := .copying left
      returned := s.returned ++ [(readByte s.ring).1] }
  | _ => none

def step (s : Uart) : Event → Option Uart
  | .receive bytes => some { s with rxFifo := s.rxFifo ++ bytes }
  | .isr copied => stepIsr s copied
  | .readCall len => stepReadCall s len
  | .readSize => stepReadSize s
  | .readByte => stepReadByte s
  | .readReturn => if s.reader = .copying 0 then some { s with reader := .idle } else none

/-- The buffers the two drivers can be started with. -/
def Initialised (heap : Allocator) (bufsz : UInt32) (ring : Ring) : Prop :=
  uartDataInit heap none bufsz 0 = .ok ring ∨
    ∃ port bits stop, tyUartInit heap none port bits stop bufsz 0 = .ok ring

def Reached (heap : Allocator) (bufsz : UInt32) (events : List Event) (s : Uart) : Prop :=
  ∃ ring, Initialised heap bufsz ring ∧ Run step anyStep (initial ring) events s

def unread (s : Uart) : Nat := s.taken.length - s.returned.length

/-! ### What the steps change -/

theorem tyUartInit_ok {heap : Allocator} {current : Option Ring} {port : TyUartPort}
    {bits : TyDataBit} {stop : TyStopBits} {bufsz : UInt32} {format : Int} {ring : Ring}
    (h : tyUartInit heap current port bits stop bufsz format = .ok ring) :
    uartDataInit heap current bufsz format = .ok ring := by
  unfold tyUartInit at h
  by_cases hinvalid : port ≠ .uart0 ∨ bufsz = 0
  · rw [if_pos hinvalid] at h
    cases h
  · rw [if_neg hinvalid] at h
    by_cases hstop : stop = .stopBit1_5 ∧ bits ≠ .wl5B
    · rw [if_pos hstop] at h
      cases h
    · rw [if_neg hstop] at h
      unfold uartDataInit
      rw [if_neg fun hzero => hinvalid (Or.inr hzero)]
      exact h

theorem uartDataInit_ok {heap : Allocator} {bufsz : UInt32} {ring : Ring}
    (h : uartDataInit heap none bufsz 0 = .ok ring) :
    ring.bufLen = bufsz.toNat ∧ ring.inPos = 0 ∧ ring.outPos = 0 ∧
      0 < ring.bufLen ∧ ring.bufLen < 2 ^ 31 ∧ ring.buf.length = ring.bufLen := by
  unfold uartDataInit at h
  by_cases hzero : bufsz = 0
  · rw [if_pos hzero] at h
    cases h
  · rw [if_neg hzero] at h
    cases halloc : heap.alloc bufsz.toNat with
    | none =>
      simp only [halloc] at h
      cases h
    | some block =>
      simp only [halloc, ne_eq, not_true, if_false] at h
      cases h
      have hpos : 0 < bufsz.toNat := by
        apply Nat.pos_of_ne_zero
        intro hnat
        apply hzero
        exact UInt32.toNat_inj.mp hnat
      exact ⟨rfl, rfl, rfl, hpos, heap.size_lt halloc, heap.length_eq halloc⟩

theorem Initialised.uartDataInit {heap : Allocator} {bufsz : UInt32} {ring : Ring}
    (h : Initialised heap bufsz ring) : uartDataInit heap none bufsz 0 = .ok ring := by
  cases h with
  | inl h => exact h
  | inr h =>
    obtain ⟨port, bits, stop, h⟩ := h
    exact tyUartInit_ok h

theorem stepIsr_some {s t : Uart} {copied : Nat} (h : stepIsr s copied = some t) :
    DriverReads (isrRequest s.ring) s.rxFifo.length copied ∧
      t = { s with
        ring := hsuartIsr s.ring (s.rxFifo.take copied)
        rxFifo := s.rxFifo.drop copied
        taken := s.taken ++ s.rxFifo.take copied } := by
  unfold stepIsr at h
  by_cases hreads : DriverReads (isrRequest s.ring) s.rxFifo.length copied
  · rw [if_pos hreads] at h
    cases h
    exact ⟨hreads, rfl⟩
  · rw [if_neg hreads] at h
    cases h

/-- Only the interrupt moves `in`. -/
theorem step_frame {s t : Uart} {event : Event} (h : step s event = some t)
    (hisr : ∀ copied, event ≠ .isr copied) :
    t.ring.bufLen = s.ring.bufLen ∧ t.ring.inPos = s.ring.inPos ∧ t.taken = s.taken := by
  cases event with
  | receive bytes =>
    cases h
    exact ⟨rfl, rfl, rfl⟩
  | isr copied => exact absurd rfl (hisr copied)
  | readCall len =>
    simp only [step, stepReadCall] at h
    split at h
    · cases h
    · split at h <;> cases h <;> exact ⟨rfl, rfl, rfl⟩
  | readSize =>
    simp only [step, stepReadSize] at h
    split at h <;> cases h
    exact ⟨rfl, rfl, rfl⟩
  | readByte =>
    simp only [step, stepReadByte] at h
    split at h <;> cases h
    exact ⟨rfl, rfl, rfl⟩
  | readReturn =>
    simp only [step] at h
    split at h <;> cases h
    exact ⟨rfl, rfl, rfl⟩

/-! ### Where `in` goes -/

theorem isrRequest_eq {u : Ring} (hin : u.inPos < u.bufLen) (hlen : u.bufLen < 2 ^ 31) :
    isrRequest u = min uartrOnceSize (u.bufLen - 1 - u.inPos : Nat) := by
  have hword : toInt (u.bufLen + 2 ^ 32 - u.inPos - 1) = (u.bufLen - 1 - u.inPos : Nat) := by
    have hnat : (BitVec.ofNat 32 (u.bufLen + 2 ^ 32 - u.inPos - 1)).toNat =
        u.bufLen - 1 - u.inPos := by
      rw [BitVec.toNat_ofNat]
      omega
    unfold toInt
    rw [BitVec.toInt_eq_toNat_of_lt, hnat]
    rw [hnat]
    omega
  unfold isrRequest
  simp only [hword, uartrOnceSize]
  split <;> omega

/-- The interrupt never moves `in` back to 0 in a ring of at most `2 ^ 16`
bytes: it asks for no byte beyond `buf_len - 1`, so the wrap test never holds. -/
structure InPos (s : Uart) (bufLen : Nat) : Prop where
  len : s.ring.bufLen = bufLen
  pos : s.ring.inPos = s.taken.length % 2 ^ 16
  bound : bufLen ≤ 2 ^ 16 → s.taken.length < bufLen

theorem InPos.lt {s : Uart} {bufLen : Nat} (h : InPos s bufLen) :
    s.ring.inPos < s.ring.bufLen := by
  rw [h.pos, h.len]
  by_cases hsmall : bufLen ≤ 2 ^ 16
  · have := h.bound hsmall
    have := Nat.mod_le s.taken.length (2 ^ 16)
    omega
  · have := Nat.mod_lt s.taken.length (show 0 < 2 ^ 16 by decide)
    omega

theorem InPos.isr {s t : Uart} {copied bufLen : Nat} (hlen : bufLen < 2 ^ 31)
    (h : InPos s bufLen) (hstep : stepIsr s copied = some t) : InPos t bufLen := by
  obtain ⟨hreads, rfl⟩ := stepIsr_some hstep
  have hlt := h.lt
  have hpos := h.pos
  have hcopied : copied ≤ s.rxFifo.length ∧ copied ≤ bufLen - 1 - s.ring.inPos := by
    unfold DriverReads at hreads
    rw [isrRequest_eq hlt (h.len ▸ hlen), h.len] at hreads
    split at hreads <;> omega
  have hcount : (s.rxFifo.take copied).length = copied := by
    rw [List.length_take]
    omega
  have hring := h.len
  constructor
  · exact h.len
  · simp only [hsuartIsr, List.length_append, hcount]
    split <;> omega
  · intro hsmall
    have := h.bound hsmall
    simp only [List.length_append, hcount]
    omega

theorem InPos.step {s t : Uart} {event : Event} {bufLen : Nat} (hlen : bufLen < 2 ^ 31)
    (h : InPos s bufLen) (hstep : UartData.step s event = some t) : InPos t bufLen := by
  by_cases hisr : ∃ copied, event = .isr copied
  · obtain ⟨copied, rfl⟩ := hisr
    exact h.isr hlen hstep
  · obtain ⟨hbuf, hin, htaken⟩ := step_frame hstep (not_exists.mp hisr)
    constructor
    · rw [hbuf, h.len]
    · rw [hin, htaken, h.pos]
    · rw [htaken]
      exact h.bound

theorem Reached.inPos {heap : Allocator} {bufsz : UInt32} {events : List Event} {s : Uart}
    (h : Reached heap bufsz events s) : InPos s bufsz.toNat ∧ bufsz.toNat < 2 ^ 31 := by
  obtain ⟨ring, hinit, hrun⟩ := h
  obtain ⟨hlen, hin, -, hpos, hlt, -⟩ := uartDataInit_ok hinit.uartDataInit
  rw [hlen] at hpos hlt
  have hstart : InPos (initial ring) bufsz.toNat :=
    ⟨hlen, by simp [initial, hin], fun _ => hpos⟩
  refine ⟨hrun.invariant (I := fun s => InPos s bufsz.toNat) hstart ?_, hlt⟩
  intro s event t hs _ hstep
  exact hs.step hlt hstep

/-! ### When reception goes on -/

/-- Every run of `hsuart_isr` from this state stores at least one byte. -/
def Stores (s : Uart) : Prop :=
  ∀ copied t, step s (.isr copied) = some t → s.taken.length < t.taken.length

theorem stores_iff_request {s : Uart} (hwaiting : s.rxFifo ≠ []) :
    Stores s ↔ 0 < isrRequest s.ring := by
  have hlen : 0 < s.rxFifo.length := List.length_pos_iff.mpr hwaiting
  constructor
  · intro hstores
    by_contra hnone
    have hreads : DriverReads (isrRequest s.ring) s.rxFifo.length 0 := by
      unfold DriverReads
      rw [if_neg fun h => hnone h.1]
    have hless := hstores 0 _ (if_pos hreads)
    simp at hless
  · intro hpos copied t hstep
    obtain ⟨hreads, rfl⟩ := stepIsr_some hstep
    unfold DriverReads at hreads
    rw [if_pos ⟨hpos, hlen⟩] at hreads
    simp only [List.length_append, List.length_take]
    omega

/-- In every reachable state with a byte waiting, whether or not there is room,
the interrupt stores something exactly when fewer than `buf_len - 1` bytes have
been received since the initialisation, or the ring is longer than the 16-bit
`in` can reach. -/
theorem hsuartIsr_stores_iff (heap : Allocator) (bufsz : UInt32) (events : List Event) (s : Uart)
    (hreached : Reached heap bufsz events s) (hwaiting : s.rxFifo ≠ []) :
    Stores s ↔ s.taken.length < bufsz.toNat - 1 ∨ 2 ^ 16 < bufsz.toNat := by
  obtain ⟨hin, hlt⟩ := hreached.inPos
  have hbound := hin.bound
  have hmod := Nat.mod_lt s.taken.length (show 0 < 2 ^ 16 by decide)
  rw [stores_iff_request hwaiting, isrRequest_eq hin.lt (hin.len ▸ hlt), hin.len, hin.pos]
  simp only [uartrOnceSize]
  omega

/-- A heap that still has 1024 bytes in one piece, filled with zeros. -/
def smallHeap : Allocator where
  alloc size := if size ≤ 1024 then some (List.replicate size 0) else none
  length_eq := by
    intro size block h
    split at h <;> cases h
    exact List.length_replicate
  size_lt := by
    intro size block h
    split at h
    · omega
    · cases h

/-- The ring `maoxin` and `colink_dl_task` start with. -/
def ring512 : Ring := ⟨512, List.replicate 512 0, 0, 0⟩

theorem ring512_initialised : Initialised smallHeap 0x200 ring512 := Or.inl rfl

/-- 40 bytes arrive, a burst of them is stored, and three of those are read. -/
def servedEvents : List Event :=
  [.receive (List.replicate 40 65), .isr 32, .readCall 3, .readSize, .readByte, .readByte,
    .readByte, .readReturn]

theorem hsuartIsr_stores_iff_served :
    ∃ s, Reached smallHeap 0x200 servedEvents s ∧ s.rxFifo.length = 8 ∧ s.returned.length = 3 ∧
      (Stores s ↔ 32 < 511 ∨ 2 ^ 16 < 512) := by
  have hserved : (exec step (initial ring512) servedEvents).any fun s =>
      decide (s.rxFifo.length = 8 ∧ s.returned.length = 3 ∧ s.taken.length = 32) := by
    decide +kernel
  obtain ⟨s, hexec, hfacts⟩ := (Option.any_eq_true _ _).mp hserved
  obtain ⟨hwaiting, hreturned, htaken⟩ := of_decide_eq_true hfacts
  have hreached : Reached smallHeap 0x200 servedEvents s :=
    ⟨ring512, ring512_initialised, Run.of_exec hexec⟩
  have hstores := hsuartIsr_stores_iff smallHeap 0x200 servedEvents s hreached
    (List.ne_nil_of_length_pos (by omega))
  rw [htaken] at hstores
  exact ⟨s, hreached, hwaiting, hreturned, hstores⟩

/-- 511 bytes arrive in bursts of at most 32 and are all read, one more byte
arrives. -/
def wedgingEvents : List Event :=
  .receive (List.replicate 511 65) ::
    (List.replicate 15 (.isr 32) ++ [.isr 31, .readCall 511, .readSize] ++
      List.replicate 511 .readByte ++ [.readReturn, .receive [66]])

/-- The copy loop to its end. -/
theorem run_readByte {s : Uart} (left : Nat) (hreader : s.reader = .copying left) :
    ∃ t, Run step anyStep s (List.replicate left .readByte) t ∧ t.reader = .copying 0 ∧
      t.rxFifo = s.rxFifo ∧ t.taken = s.taken ∧
      t.returned = s.returned ++ readBytes left s.ring ∧
      t.ring.bufLen = s.ring.bufLen ∧ t.ring.inPos = s.ring.inPos := by
  induction left generalizing s with
  | zero => exact ⟨s, Run.nil, hreader, rfl, rfl, (List.append_nil _).symm, rfl, rfl⟩
  | succ left ih =>
    let next : Uart := { s with
      ring := (readByte s.ring).2
      reader := .copying left
      returned := s.returned ++ [(readByte s.ring).1] }
    have hstep : step s .readByte = some next := by simp only [step, stepReadByte, hreader, next]
    obtain ⟨t, hrun, hdone, hfifo, htaken, hreturned, hlen, hin⟩ :=
      ih (rfl : next.reader = .copying left)
    refine ⟨t, (Run.nil.snoc trivial hstep).trans hrun, hdone, hfifo, htaken, ?_, hlen, hin⟩
    rw [hreturned, readBytes]
    exact List.append_assoc _ _ _

/-- The events before the copy loop. -/
def arrivalEvents : List Event :=
  .receive (List.replicate 511 65) ::
    (List.replicate 15 (.isr 32) ++ [.isr 31, .readCall 511, .readSize])

theorem wedgingEvents_eq : wedgingEvents =
    arrivalEvents ++ List.replicate 511 .readByte ++ [.readReturn] ++ [.receive [66]] := by
  simp only [wedgingEvents, arrivalEvents, List.cons_append, List.append_assoc, List.nil_append]

/-- Then nothing is unread and a byte waits, but the interrupt never stores it. -/
theorem hsuartIsr_wedged :
    ∃ s, Reached smallHeap 0x200 wedgingEvents s ∧ s.rxFifo = [66] ∧
      unread s = 0 ∧ 0 < s.ring.bufLen - 1 ∧ ¬ Stores s := by
  have hfilled : (exec step (initial ring512) arrivalEvents).any fun s =>
      decide (s.reader = .copying 511 ∧ s.rxFifo = [] ∧ s.taken.length = 511 ∧
        s.returned.length = 0 ∧ s.ring.bufLen = 512 ∧ s.ring.inPos = 511) := by
    decide +kernel
  obtain ⟨filled, hexec, hfacts⟩ := (Option.any_eq_true _ _).mp hfilled
  obtain ⟨hreader, hempty, htaken, hreturned, hlen, hin⟩ := of_decide_eq_true hfacts
  obtain ⟨s, hcopy, hdone, hfifo, htaken', hreturned', hlen', hin'⟩ := run_readByte 511 hreader
  have hreturn : step s .readReturn = some { s with reader := .idle } := if_pos hdone
  have hreceive : step { s with reader := .idle } (.receive [66]) =
      some { s with reader := .idle, rxFifo := s.rxFifo ++ [66] } := rfl
  have hrun := (((Run.of_exec hexec).trans hcopy).snoc trivial hreturn).snoc trivial hreceive
  rw [← wedgingEvents_eq] at hrun
  refine ⟨_, ⟨ring512, ring512_initialised, hrun⟩, ?_, ?_, ?_, ?_⟩
  · exact congrArg (· ++ [66]) (hfifo.trans hempty)
  · change s.taken.length - s.returned.length = 0
    rw [htaken', hreturned', List.length_append, readBytes_length]
    omega
  · change 0 < s.ring.bufLen - 1
    omega
  · rw [stores_iff_request (by simp)]
    -- The request is for the room behind `in`, and there is none.
    change ¬ 0 < isrRequest s.ring
    rw [isrRequest_eq (by omega) (by omega)]
    unfold uartrOnceSize
    omega

end Sv6x66.Colink.UartData
