import Sv6x66.Lib.BoundedQueue
import Sv6x66.Lib.VirtualRing
import Sv6x66.Lib.Run

/-! The receive ring of `cli.c`. `uart_rx_isr` and `uart_read` run in critical
sections, so neither interrupts the other; bytes may arrive at the UART between
any two turns of the interrupt's loop. -/
namespace Sv6x66.Cli.RxRing
open Sv6x66.Lib VirtualRing

abbrev ringbufSize : Nat := 2048
def ringbufIdxWrap : Nat := ringbufSize - 1
def ringbufVidxWrap : Nat := ringbufSize * 2 - 1

/-- `ringbuf_st`. -/
structure Ringbuf where
  vidxW : Nat
  vidxR : Nat
  data : Vector UInt8 ringbufSize
deriving DecidableEq, Repr

theorem and_idxWrap (vidx : Nat) : vidx &&& ringbufIdxWrap = vidx % ringbufSize :=
  Nat.and_two_pow_sub_one_eq_mod vidx 11

theorem and_vidxWrap (vidx : Nat) : vidx &&& ringbufVidxWrap = vidx % (2 * ringbufSize) :=
  Nat.and_two_pow_sub_one_eq_mod vidx 12

def idxOf (vidx : Nat) : Fin ringbufSize :=
  ⟨vidx &&& ringbufIdxWrap, by rw [and_idxWrap]; exact Nat.mod_lt _ (by decide)⟩

/-- The locals of `uart_rx_isr` while it runs. -/
inductive Isr where
  | outside
  | inside (vidxW vidxWFull : Nat)
deriving DecidableEq, Repr

structure Uart where
  ring : Ringbuf
  isr : Isr
  /-- The interrupt is registered. -/
  registered : Bool
  /-- The bytes waiting in the UART. -/
  rxFifo : List UInt8
  received : List UInt8
  returned : List UInt8
deriving DecidableEq, Repr

def initial : Uart where
  ring := ⟨0, 0, Vector.replicate ringbufSize 0⟩
  isr := .outside
  registered := true
  rxFifo := []
  received := []
  returned := []

inductive Event where
  | receive (bytes : List UInt8)
  | isrEnter
  | isrLoop
  | uartRead (char2read : Nat)
deriving DecidableEq, Repr

def stepIsrEnter (s : Uart) : Option Uart :=
  if s.isr = .outside ∧ s.registered then
    some { s with
      isr := .inside s.ring.vidxW ((s.ring.vidxR + ringbufSize) &&& ringbufVidxWrap) }
  else none

/-- One turn of the loop of `uart_rx_isr`: its end when nothing waits, a byte
moved, or the way out with the interrupt disabled. -/
def stepIsrLoop (s : Uart) : Option Uart :=
  match s.isr, s.rxFifo with
  | .outside, _ => none
  | .inside vidxW _, [] => some { s with ring := { s.ring with vidxW := vidxW }, isr := .outside }
  | .inside vidxW vidxWFull, byte :: rest =>
    if vidxW ≠ vidxWFull then
      some { s with
        ring := { s.ring with data := s.ring.data.set (idxOf vidxW) byte }
        isr := .inside ((vidxW + 1) &&& ringbufVidxWrap) vidxWFull
        rxFifo := rest }
    else
      some { s with
        ring := { s.ring with vidxW := vidxW }, isr := .outside, registered := false }

/-- The loop of `uart_read`, for the `cnt` bytes still wanted. -/
def uartReadLoop (data : Vector UInt8 ringbufSize) (vidxREmpty : Nat) :
    Nat → Nat → List UInt8 × Nat
  | 0, vidxR => ([], vidxR)
  | cnt + 1, vidxR =>
    if vidxR ≠ vidxREmpty then
      let rest := uartReadLoop data vidxREmpty cnt ((vidxR + 1) &&& ringbufVidxWrap)
      (data.get (idxOf vidxR) :: rest.1, rest.2)
    else ([], vidxR)

def stepUartRead (s : Uart) (char2read : Nat) : Option Uart :=
  if s.isr = .outside then
    let read := uartReadLoop s.ring.data s.ring.vidxW char2read s.ring.vidxR
    some { s with
      ring := { s.ring with vidxR := read.2 }
      registered := true
      returned := s.returned ++ read.1 }
  else none

def step (s : Uart) : Event → Option Uart
  | .receive bytes =>
    some { s with rxFifo := s.rxFifo ++ bytes, received := s.received ++ bytes }
  | .isrEnter => stepIsrEnter s
  | .isrLoop => stepIsrLoop s
  | .uartRead char2read => stepUartRead s char2read

/-! ### What the ring is for -/

/-- A port with a queue of `ringbufSize` bytes between the UART and the reader. -/
structure Port where
  queue : BoundedQueue UInt8 ringbufSize
  running : Bool
  registered : Bool
  rxFifo : List UInt8
  received : List UInt8
  returned : List UInt8

namespace Port

def initial : Port := ⟨.empty, false, true, [], [], []⟩

def step (p : Port) : Event → Option Port
  | .receive bytes =>
    some { p with rxFifo := p.rxFifo ++ bytes, received := p.received ++ bytes }
  | .isrEnter => if ¬ p.running ∧ p.registered then some { p with running := true } else none
  | .isrLoop =>
    if p.running then
      match p.rxFifo with
      | [] => some { p with running := false }
      | byte :: rest =>
        match p.queue.enqueue byte with
        | some queue => some { p with queue := queue, rxFifo := rest }
        | none => some { p with running := false, registered := false }
    else none
  | .uartRead char2read =>
    if ¬ p.running then
      let read := p.queue.dequeue char2read
      some { p with
        queue := read.2, registered := true, returned := p.returned ++ read.1 }
    else none

/-- Every byte is, in the order of arrival, returned, in the queue or still in
the UART; the interrupt is off only while the queue is full. -/
structure Inv (p : Port) : Prop where
  history : p.received = p.returned ++ p.queue.items ++ p.rxFifo
  enabled : p.registered = false → p.queue.items.length = ringbufSize

theorem Inv.initial : Inv Port.initial := ⟨rfl, fun h => by cases h⟩

theorem Inv.step {p q : Port} {event : Event} (h : Inv p) (hstep : p.step event = some q) :
    Inv q := by
  cases event with
  | receive bytes =>
    cases hstep
    exact ⟨by simp [h.history], h.enabled⟩
  | isrEnter =>
    simp only [Port.step] at hstep
    split at hstep <;> cases hstep
    exact ⟨h.history, h.enabled⟩
  | isrLoop =>
    simp only [Port.step] at hstep
    split at hstep
    · split at hstep
      · cases hstep
        exact ⟨h.history, h.enabled⟩
      · rename_i byte rest hfifo
        split at hstep
        · rename_i queue hqueue
          cases hstep
          have hitems := BoundedQueue.enqueue_items hqueue
          refine ⟨by simp [h.history, hfifo, hitems], ?_⟩
          intro hoff
          have hfull := h.enabled hoff
          have := queue.length_le
          rw [hitems, List.length_append, List.length_singleton] at this
          omega
        · rename_i hqueue
          cases hstep
          exact ⟨h.history, fun _ => BoundedQueue.enqueue_eq_none hqueue⟩
    · cases hstep
  | uartRead char2read =>
    simp only [Port.step] at hstep
    split at hstep <;> cases hstep
    refine ⟨?_, fun h => by cases h⟩
    rw [h.history, ← p.queue.dequeue_append char2read]
    simp

end Port

/-! ### The ring refines the queue -/

/-- The write index that counts: the local one while the interrupt runs. -/
def writeIdx (s : Uart) : Nat :=
  match s.isr with
  | .outside => s.ring.vidxW
  | .inside vidxW _ => vidxW

/-- The unread bytes, oldest first. -/
def unread (s : Uart) : List UInt8 := contents s.ring.data s.ring.vidxR (writeIdx s)

structure Refines (s : Uart) (p : Port) : Prop where
  vidxR_lt : s.ring.vidxR < 2 * ringbufSize
  vidxW_lt : writeIdx s < 2 * ringbufSize
  running : p.running = true ↔ s.isr ≠ .outside
  full : ∀ vidxW vidxWFull, s.isr = .inside vidxW vidxWFull →
    vidxWFull = (s.ring.vidxR + ringbufSize) % (2 * ringbufSize)
  unread : p.queue.items = unread s
  registered : p.registered = s.registered
  rxFifo : p.rxFifo = s.rxFifo
  received : p.received = s.received
  returned : p.returned = s.returned

namespace Refines

theorem initial : Refines initial Port.initial where
  vidxR_lt := by decide
  vidxW_lt := by decide
  running := by decide
  full := by
    intro vidxW vidxWFull h
    cases h
  unread := rfl
  registered := rfl
  rxFifo := rfl
  received := rfl
  returned := rfl

variable {s : Uart} {p : Port}

theorem receive (h : Refines s p) (bytes : List UInt8) :
    Option.Rel Refines (step s (.receive bytes)) (p.step (.receive bytes)) := by
  apply Option.Rel.some
  exact { h with
    rxFifo := congrArg (· ++ bytes) h.rxFifo
    received := congrArg (· ++ bytes) h.received }

theorem isrEnter (h : Refines s p) :
    Option.Rel Refines (step s .isrEnter) (p.step .isrEnter) := by
  have hrunning : (¬ p.running = true ∧ p.registered = true) ↔
      s.isr = .outside ∧ s.registered = true := by
    rw [h.running, not_not, h.registered]
  simp only [step, stepIsrEnter, Port.step]
  by_cases henter : s.isr = .outside ∧ s.registered = true
  · rw [if_pos henter, if_pos (hrunning.mpr henter)]
    apply Option.Rel.some
    have hidx : writeIdx s = s.ring.vidxW := by simp [writeIdx, henter.1]
    refine { h with vidxW_lt := ?_, running := ?_, full := ?_, unread := ?_ }
    · exact hidx ▸ h.vidxW_lt
    · simp
    · intro vidxW vidxWFull hinside
      cases hinside
      exact and_vidxWrap _
    · rw [h.unread]
      simp [RxRing.unread, writeIdx, henter.1]
  · rw [if_neg henter, if_neg fun hport => henter (hrunning.mp hport)]
    exact Option.Rel.none

/-- The write index of a full ring is the one the interrupt computed on entry. -/
theorem full_iff (h : Refines s p) {vidxW vidxWFull : Nat}
    (hinside : s.isr = .inside vidxW vidxWFull) :
    vidxW = vidxWFull ↔ p.queue.items.length = ringbufSize := by
  have hidx : writeIdx s = vidxW := by simp [writeIdx, hinside]
  have hlt := h.vidxW_lt
  rw [hidx] at hlt
  rw [h.unread, RxRing.unread, contents_length, hidx, h.full _ _ hinside]
  exact (count_eq_full_iff h.vidxR_lt hlt).symm

theorem isrLoop (h : Refines s p) :
    Option.Rel Refines (step s .isrLoop) (p.step .isrLoop) := by
  simp only [step, stepIsrLoop, Port.step]
  cases hisr : s.isr with
  | outside =>
    have hoff : ¬ p.running = true := by simp [h.running, hisr]
    rw [if_neg hoff]
    exact Option.Rel.none
  | inside vidxW vidxWFull =>
    have hon : p.running = true := by simp [h.running, hisr]
    have hidx : writeIdx s = vidxW := by simp [writeIdx, hisr]
    have hlt := h.vidxW_lt
    have hunread := h.unread
    rw [RxRing.unread, hidx] at hunread
    rw [hidx] at hlt
    rw [if_pos hon, h.rxFifo]
    cases hfifo : s.rxFifo with
    | nil =>
      apply Option.Rel.some
      exact { h with
        vidxW_lt := hlt
        running := by simp
        full := by
          intro _ _ hinside
          cases hinside
        unread := hunread
        rxFifo := rfl }
    | cons byte rest =>
      dsimp only
      by_cases hfull : vidxW = vidxWFull
      · rw [BoundedQueue.enqueue_of_full ((h.full_iff hisr).mp hfull), if_neg (not_not.mpr hfull)]
        apply Option.Rel.some
        exact { h with
          vidxW_lt := hlt
          running := by simp
          full := by
            intro _ _ hinside
            cases hinside
          unread := hunread
          registered := rfl
          rxFifo := rfl }
      · have hroom : p.queue.items.length < ringbufSize := by
          have hne : p.queue.items.length ≠ ringbufSize :=
            fun hlen => hfull ((h.full_iff hisr).mpr hlen)
          have := p.queue.length_le
          omega
        obtain ⟨queue, hqueue, hitems⟩ := BoundedQueue.enqueue_of_lt hroom byte
        have hcount : count ringbufSize s.ring.vidxR vidxW < ringbufSize := by
          rw [hunread, contents_length] at hroom
          exact hroom
        rw [hqueue, if_pos hfull]
        apply Option.Rel.some
        have hslot : idxOf vidxW = slot ringbufSize vidxW := Fin.ext (and_idxWrap vidxW)
        have hnext : (vidxW + 1) &&& ringbufVidxWrap = next ringbufSize vidxW := and_vidxWrap _
        refine { h with vidxW_lt := ?_, running := ?_, full := ?_, unread := ?_, rxFifo := rfl }
        · simp only [writeIdx, hnext]
          exact next_lt hlt
        · simp [hon]
        · intro _ _ hinside
          cases hinside
          exact h.full _ _ hisr
        · simp only [RxRing.unread, writeIdx]
          simp only [hitems, hunread, hnext, hslot]
          exact (contents_write byte h.vidxR_lt hlt hcount).symm

theorem uartReadLoop_eq (data : Vector UInt8 ringbufSize) {vidxW : Nat}
    (hw : vidxW < 2 * ringbufSize) (cnt : Nat) {vidxR : Nat} (hr : vidxR < 2 * ringbufSize) :
    (uartReadLoop data vidxW cnt vidxR).1 = (contents data vidxR vidxW).take cnt ∧
      contents data (uartReadLoop data vidxW cnt vidxR).2 vidxW =
        (contents data vidxR vidxW).drop cnt ∧
      (uartReadLoop data vidxW cnt vidxR).2 < 2 * ringbufSize := by
  induction cnt generalizing vidxR with
  | zero => exact ⟨rfl, rfl, hr⟩
  | succ cnt ih =>
    unfold uartReadLoop
    by_cases hempty : vidxR = vidxW
    · rw [if_neg (not_not.mpr hempty), ← hempty, contents_empty hr]
      exact ⟨rfl, rfl, hr⟩
    · have hslot : idxOf vidxR = slot ringbufSize vidxR := Fin.ext (and_idxWrap vidxR)
      have hnext : (vidxR + 1) &&& ringbufVidxWrap = next ringbufSize vidxR := and_vidxWrap _
      obtain ⟨hout, hrest, hlt⟩ := ih (next_lt hr)
      rw [if_pos hempty, hnext, hslot, contents_read hr hw hempty]
      exact ⟨congrArg _ hout, hrest, hlt⟩

theorem uartRead (h : Refines s p) (char2read : Nat) :
    Option.Rel Refines (step s (.uartRead char2read)) (p.step (.uartRead char2read)) := by
  simp only [step, stepUartRead, Port.step]
  by_cases houtside : s.isr = .outside
  · have hoff : ¬ p.running = true := by simp [h.running, houtside]
    have hidx : writeIdx s = s.ring.vidxW := by simp [writeIdx, houtside]
    have hlt := h.vidxW_lt
    have hunread := h.unread
    rw [RxRing.unread, hidx] at hunread
    rw [hidx] at hlt
    obtain ⟨hout, hrest, hvidxR⟩ :=
      uartReadLoop_eq s.ring.data hlt char2read h.vidxR_lt
    rw [if_pos houtside, if_pos hoff]
    apply Option.Rel.some
    refine { h with vidxR_lt := hvidxR, vidxW_lt := ?_, full := ?_, unread := ?_, registered := rfl, returned := ?_ }
    · simpa only [writeIdx, houtside] using hlt
    · intro _ _ hinside
      cases houtside.symm.trans hinside
    · simp only [RxRing.unread, writeIdx, houtside, hrest, BoundedQueue.dequeue, hunread]
    · simp only [hout, BoundedQueue.dequeue, hunread, h.returned]
  · have hon : ¬ ¬ p.running = true := by simp [h.running, houtside]
    rw [if_neg houtside, if_neg hon]
    exact Option.Rel.none

theorem step (h : Refines s p) (event : Event) :
    Option.Rel Refines (RxRing.step s event) (p.step event) := by
  cases event with
  | receive bytes => exact h.receive bytes
  | isrEnter => exact h.isrEnter
  | isrLoop => exact h.isrLoop
  | uartRead char2read => exact h.uartRead char2read

end Refines

theorem refines_of_run {events : List Event} {s : Uart}
    (hrun : Run step anyStep initial events s) :
    ∃ p, Run Port.step anyStep Port.initial events p ∧ Refines s p ∧ Port.Inv p := by
  obtain ⟨p, hport, hrefines⟩ :=
    hrun.simulate Refines.initial fun _ _ event h => Refines.step h event
  exact ⟨p, hport, hrefines,
    hport.invariant Port.Inv.initial fun _ _ _ hinv _ hstep => hinv.step hstep⟩

/-- A full ring leaves the bytes in the UART. -/
theorem isrLoop_of_full {s t : Uart} {p : Port} (h : Refines s p)
    (hfull : (unread s).length = ringbufSize) (hstep : step s .isrLoop = some t) :
    t.rxFifo = s.rxFifo ∧ unread t = unread s := by
  simp only [step, stepIsrLoop] at hstep
  cases hisr : s.isr with
  | outside =>
    rw [hisr] at hstep
    cases hstep
  | inside vidxW vidxWFull =>
    have heq : vidxW = vidxWFull := (h.full_iff hisr).mpr (h.unread ▸ hfull)
    have hunread : unread s = contents s.ring.data s.ring.vidxR vidxW := by
      simp [unread, writeIdx, hisr]
    rw [hisr] at hstep
    cases hfifo : s.rxFifo with
    | nil =>
      simp only [hfifo] at hstep
      cases hstep
      exact ⟨rfl, hunread.symm⟩
    | cons byte rest =>
      simp only [hfifo, if_neg (not_not.mpr heq)] at hstep
      cases hstep
      exact ⟨rfl, hunread.symm⟩

theorem uartRead_order {s t : Uart} {p : Port} (h : Refines s p) {char2read : Nat}
    (hstep : step s (.uartRead char2read) = some t) :
    t.returned = s.returned ++ (unread s).take char2read ∧
      unread t = (unread s).drop char2read := by
  have hboth := h.uartRead char2read
  rw [hstep] at hboth
  simp only [Port.step] at hboth
  split at hboth
  · cases hboth with
    | some ht =>
      constructor
      · rw [← ht.returned, ← h.returned, ← h.unread]
        rfl
      · rw [← ht.unread, ← h.unread]
        rfl
  · cases hboth

/-- A byte that waits goes into the ring while there is room. -/
theorem isrLoop_of_room {s : Uart} {p : Port} (h : Refines s p) (hinside : s.isr ≠ .outside)
    {byte : UInt8} {rest : List UInt8} (hfifo : s.rxFifo = byte :: rest)
    (hroom : (unread s).length < ringbufSize) :
    ∃ t, step s .isrLoop = some t ∧ t.rxFifo = rest ∧ unread t = unread s ++ [byte] := by
  have hboth := h.isrLoop
  rw [← h.unread] at hroom
  obtain ⟨queue, hqueue, hitems⟩ := BoundedQueue.enqueue_of_lt hroom byte
  simp only [Port.step, if_pos (h.running.mpr hinside), h.rxFifo, hfifo, hqueue] at hboth
  obtain ⟨t, hstep⟩ : ∃ t, step s .isrLoop = some t := by
    cases hstep : step s .isrLoop with
    | none =>
      rw [hstep] at hboth
      cases hboth
    | some t => exact ⟨t, rfl⟩
  rw [hstep] at hboth
  cases hboth with
  | some ht =>
    refine ⟨t, hstep, ht.rxFifo.symm, ?_⟩
    rw [← ht.unread, ← h.unread]
    exact hitems

/-- Between two interrupts `uart_read` goes through. -/
theorem uartRead_isSome {s : Uart} (houtside : s.isr = .outside) (char2read : Nat) :
    ∃ t, step s (.uartRead char2read) = some t :=
  ⟨_, if_pos houtside⟩

/-- The interrupt is off only while the ring is full. -/
theorem registered_of_room {s : Uart} {p : Port} (h : Refines s p) (hinv : Port.Inv p)
    (hroom : (unread s).length < ringbufSize) : s.registered = true := by
  rw [← h.registered]
  by_contra hoff
  have hfull := hinv.enabled (Bool.eq_false_iff.mpr hoff)
  rw [h.unread] at hfull
  omega

/-- The ring as a queue: it simulates one, `unread` never exceeds it, and the
index tests of the code tell its two extreme fillings apart. -/
structure Fifo (events : List Event) (s : Uart) : Prop where
  simulation : ∃ p, Run Port.step anyStep Port.initial events p ∧ Refines s p
  history : s.received = s.returned ++ unread s ++ s.rxFifo
  length_le : (unread s).length ≤ ringbufSize
  empty_iff : s.ring.vidxR = writeIdx s ↔ unread s = []
  full_iff : writeIdx s = (s.ring.vidxR + ringbufSize) &&& ringbufVidxWrap ↔
    (unread s).length = ringbufSize
  full_keeps : (unread s).length = ringbufSize → ∀ t, step s .isrLoop = some t →
    t.rxFifo = s.rxFifo ∧ unread t = unread s
  room_registered : (unread s).length < ringbufSize → s.registered = true
  room_stores : (unread s).length < ringbufSize → s.isr ≠ .outside →
    ∀ byte rest, s.rxFifo = byte :: rest →
      ∃ t, step s .isrLoop = some t ∧ t.rxFifo = rest ∧ unread t = unread s ++ [byte]
  read_order : ∀ char2read t, step s (.uartRead char2read) = some t →
    t.returned = s.returned ++ (unread s).take char2read ∧ unread t = (unread s).drop char2read
  read_returns : s.isr = .outside → ∀ char2read, ∃ t, step s (.uartRead char2read) = some t ∧
    t.returned = s.returned ++ (unread s).take char2read

theorem uartRing_fifo (events : List Event) (s : Uart)
    (hrun : Run step anyStep initial events s) : Fifo events s := by
  obtain ⟨p, hport, h, hinv⟩ := refines_of_run hrun
  have hhistory := hinv.history
  have hle := p.queue.length_le
  rw [h.received, h.returned, h.unread, h.rxFifo] at hhistory
  rw [h.unread] at hle
  constructor
  · exact ⟨p, hport, h⟩
  · exact hhistory
  · exact hle
  · rw [← count_eq_zero_iff h.vidxR_lt h.vidxW_lt, ← List.length_eq_zero_iff, unread,
      contents_length]
  · rw [and_vidxWrap, ← count_eq_full_iff h.vidxR_lt h.vidxW_lt, unread, contents_length]
  · exact fun hfull t hstep => isrLoop_of_full h hfull hstep
  · exact registered_of_room h hinv
  · exact fun hroom hinside byte rest hfifo => isrLoop_of_room h hinside hfifo hroom
  · exact fun char2read t hstep => uartRead_order h hstep
  · intro houtside char2read
    obtain ⟨t, hstep⟩ := uartRead_isSome houtside char2read
    exact ⟨t, hstep, (uartRead_order h hstep).1⟩

/-- Two bytes arrive, and one of them is read. -/
def readOne : List Event :=
  [.receive [65, 66], .isrEnter, .isrLoop, .isrLoop, .isrLoop, .uartRead 1]

theorem uartRing_fifo_readOne :
    ∃ s, Fifo readOne s ∧ s.returned = [65] ∧ s.rxFifo = [] := by
  refine ⟨_, uartRing_fifo readOne _ (Run.of_exec rfl), rfl, rfl⟩

end Sv6x66.Cli.RxRing
