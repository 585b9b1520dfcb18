import Sv6x66.Lib.CString
import Sv6x66.Cli.RxRing

/-! The command line of `cli.c`. `Cli_Start` takes a byte from the receive ring, but the
byte behind an escape straight from the UART. -/
namespace Sv6x66.Cli.LineEditor
open Sv6x66.Lib
open Sv6x66.Lib.CString
open Sv6x66.Cli.RxRing

def cliBufferSize : Nat := 2048

def escape : UInt8 := 0x1b
def backspace : UInt8 := 0x08
def del : UInt8 := 0x7f
def enter : UInt8 := 0x0d
def help : UInt8 := 63

/-- The line, whether `Cli_Start` waits in `__get_char`, and the texts `At_Parser` was
called with. -/
structure Editor where
  sgCmdBuffer : Bytes
  sgCurPos : Nat
  escaped : Bool
  parsed : List Bytes
deriving DecidableEq

namespace Editor

def initial : Editor := ⟨List.replicate (cliBufferSize + 1) 0, 0, false, []⟩

/-- A character at the position, and the NUL behind it. -/
def append (ed : Editor) (ch : UInt8) : Editor :=
  if cliBufferSize - 1 > ed.sgCurPos then
    { ed with
      sgCmdBuffer := (ed.sgCmdBuffer.set ed.sgCurPos ch).set (ed.sgCurPos + 1) 0
      sgCurPos := ed.sgCurPos + 1 }
  else ed

/-- The `switch` of `Cli_Start`. What `At_Parser` writes into the line is cleared with it. -/
def switch (ed : Editor) (ch : UInt8) : Editor :=
  if ch = escape then { ed with escaped := true }
  else if ch = backspace ∨ ch = del then
    if 0 < ed.sgCurPos then
      { ed with
        sgCmdBuffer := ed.sgCmdBuffer.set (ed.sgCurPos - 1) 0, sgCurPos := ed.sgCurPos - 1 }
    else ed
  else if ch = enter then
    { ed with
      sgCmdBuffer := List.replicate (cliBufferSize + 1) 0
      sgCurPos := 0
      parsed :=
        if (cstr ed.sgCmdBuffer).length > 0 then ed.parsed ++ [cstr ed.sgCmdBuffer]
        else ed.parsed }
  else if ch = help then if ed.sgCurPos = 0 then ed else ed.append ch
  else ed.append ch

end Editor

structure Console where
  uart : Uart
  editor : Editor

def initial : Console := ⟨RxRing.initial, .initial⟩

inductive Event where
  | receive (bytes : List UInt8)
  | isrEnter
  | isrLoop
  | cliStart
  | getChar
deriving DecidableEq, Repr

/-- The byte the next call of `Cli_Start` reads. -/
def nextChar (s : Console) : Option UInt8 :=
  (uartReadLoop s.uart.ring.data s.uart.ring.vidxW 1 s.uart.ring.vidxR).1.head?

/-- Without a byte the task waits for the next interrupt. -/
def stepCliStart (s : Console) : Option Console :=
  if s.editor.escaped then none
  else (RxRing.step s.uart (.uartRead 1)).map fun uart =>
    match nextChar s with
    | none => { s with uart }
    | some ch => { uart, editor := s.editor.switch ch }

/-- `__get_char` gets the oldest byte that still is in the UART, and drops it. -/
def stepGetChar (s : Console) : Option Console :=
  if s.editor.escaped ∧ s.uart.isr = .outside then
    match s.uart.rxFifo with
    | [] => none
    | byte :: rest =>
      some { s with
        uart := { s.uart with rxFifo := rest, returned := s.uart.returned ++ [byte] }
        editor := { s.editor with escaped := false } }
  else none

def step (s : Console) : Event → Option Console
  | .receive bytes => (RxRing.step s.uart (.receive bytes)).map fun uart => { s with uart }
  | .isrEnter => (RxRing.step s.uart .isrEnter).map fun uart => { s with uart }
  | .isrLoop => (RxRing.step s.uart .isrLoop).map fun uart => { s with uart }
  | .cliStart => stepCliStart s
  | .getChar => stepGetChar s

/-! ### The edit of a sequence of bytes -/

/-- The line since the last Enter, whether the next byte is dropped, and the lines entered. -/
structure Edit where
  line : Bytes
  escaped : Bool
  entered : List Bytes
deriving DecidableEq

def Edit.next (e : Edit) (byte : UInt8) : Edit :=
  if e.escaped then { e with escaped := false }
  else if byte = escape then { e with escaped := true }
  else if byte = backspace ∨ byte = del then { e with line := e.line.dropLast }
  else if byte = enter then { e with line := [], entered := e.entered ++ [e.line] }
  else if byte = help ∧ e.line = [] then e
  else if e.line.length < cliBufferSize - 1 then { e with line := e.line ++ [byte] }
  else e

def edit (bytes : List UInt8) : Edit := bytes.foldl Edit.next ⟨[], false, []⟩

/-- The bytes that have arrived and wait neither in the ring nor in the UART. -/
def processed (s : Console) : List UInt8 :=
  s.uart.received.take (s.uart.received.length - (unread s.uart ++ s.uart.rxFifo).length)

/-- The lines given to `At_Parser` are those of the edit, but for empty ones, and there is
room for the line and its end. -/
structure Edits (s : Console) : Prop where
  parsed : s.editor.parsed = (edit (processed s)).entered.filter (· ≠ [])
  curPos_lt : s.editor.sgCurPos < cliBufferSize
  terminated : s.editor.sgCmdBuffer[s.editor.sgCurPos]? = some 0

/-- The byte behind an escape is taken when the ring is empty, and a line is entered that
has no NUL in it. -/
def Ordered (s : Console) : Event → Prop
  | .getChar => unread s.uart = []
  | .cliStart => nextChar s = some enter → 0 ∉ s.editor.sgCmdBuffer.take s.editor.sgCurPos
  | _ => True

instance (s : Console) (event : Event) : Decidable (Ordered s event) := by
  unfold Ordered
  split <;> infer_instance

/-! ### The line in the buffer -/

/-- The buffer holds the line, and zeros from its end on. -/
structure Represents (ed : Editor) (e : Edit) : Prop where
  buffer : ed.sgCmdBuffer = e.line ++ List.replicate (cliBufferSize + 1 - e.line.length) 0
  curPos : ed.sgCurPos = e.line.length
  short : e.line.length < cliBufferSize
  escaped : ed.escaped = e.escaped
  parsed : ed.parsed = e.entered.filter (· ≠ [])

namespace Represents

variable {ed : Editor} {e : Edit}

theorem initial : Represents .initial ⟨[], false, []⟩ where
  buffer := rfl
  curPos := rfl
  short := by decide
  escaped := rfl
  parsed := rfl

theorem take_curPos (h : Represents ed e) : ed.sgCmdBuffer.take ed.sgCurPos = e.line := by
  rw [h.buffer, h.curPos, List.take_left]

theorem getElem_curPos (h : Represents ed e) : ed.sgCmdBuffer[ed.sgCurPos]? = some 0 := by
  have hshort := h.short
  rw [h.buffer, h.curPos, List.getElem?_append_right (le_refl _), Nat.sub_self,
    List.getElem?_replicate, if_pos (by omega)]

/-- A line without NUL is the text `At_Parser` sees. -/
theorem cstr_buffer (h : Represents ed e) (hzero : 0 ∉ e.line) : cstr ed.sgCmdBuffer = e.line := by
  have hshort := h.short
  obtain ⟨room, hroom⟩ : ∃ room, cliBufferSize + 1 - e.line.length = room + 1 :=
    ⟨cliBufferSize - e.line.length, by omega⟩
  rw [h.buffer, hroom, cstr_append hzero, List.replicate_succ]
  simp [cstr]

theorem append (h : Represents ed e) (hline : e.line.length < cliBufferSize - 1) (ch : UInt8) :
    Represents (ed.append ch) { e with line := e.line ++ [ch] } := by
  obtain ⟨room, hroom⟩ : ∃ room, cliBufferSize + 1 - e.line.length = room + 1 + 1 :=
    ⟨cliBufferSize - 1 - e.line.length, by omega⟩
  have hwritten : (ed.sgCmdBuffer.set ed.sgCurPos ch).set (ed.sgCurPos + 1) 0 =
      (e.line ++ [ch]) ++ List.replicate (room + 1) 0 := by
    rw [h.buffer, h.curPos, hroom, List.set_append_right _ _ (le_refl _), Nat.sub_self,
      List.set_append_right _ _ (Nat.le_add_right _ 1), Nat.add_sub_cancel_left]
    simp [List.replicate_succ]
  unfold Editor.append
  rw [if_pos (by rw [h.curPos]; omega)]
  constructor
  · dsimp only
    rw [hwritten, List.length_append, List.length_singleton,
      show cliBufferSize + 1 - (e.line.length + 1) = room + 1 by omega]
  · simp [h.curPos]
  · dsimp only
    rw [List.length_append, List.length_singleton]
    omega
  · exact h.escaped
  · exact h.parsed

theorem append_full (h : Represents ed e) (hline : ¬ e.line.length < cliBufferSize - 1)
    (ch : UInt8) : ed.append ch = ed := by
  unfold Editor.append
  rw [if_neg (by rw [h.curPos]; omega)]

theorem dropLast (h : Represents ed e) (hpos : 0 < ed.sgCurPos) :
    Represents { ed with
      sgCmdBuffer := ed.sgCmdBuffer.set (ed.sgCurPos - 1) 0, sgCurPos := ed.sgCurPos - 1 }
      { e with line := e.line.dropLast } := by
  have hshort := h.short
  rw [h.curPos] at hpos
  obtain ⟨line, last, hline⟩ : ∃ line last, e.line = line ++ [last] :=
    ⟨_, _, (List.dropLast_append_getLast (List.ne_nil_of_length_pos hpos)).symm⟩
  have hlength : e.line.length = line.length + 1 := by simp [hline]
  have hwritten : ed.sgCmdBuffer.set (ed.sgCurPos - 1) 0 =
      line ++ List.replicate (cliBufferSize + 1 - line.length) 0 := by
    rw [h.buffer, h.curPos, hlength, hline, List.append_assoc, Nat.add_sub_cancel,
      List.set_append_right _ _ (le_refl _), Nat.sub_self,
      show cliBufferSize + 1 - line.length = cliBufferSize + 1 - (line.length + 1) + 1 by omega]
    rfl
  have hdrop : e.line.dropLast = line := by rw [hline, List.dropLast_concat]
  constructor
  · dsimp only
    rw [hdrop, hwritten]
  · dsimp only
    rw [hdrop, h.curPos, hlength, Nat.add_sub_cancel]
  · dsimp only
    rw [hdrop]
    omega
  · exact h.escaped
  · exact h.parsed

/-- The byte a waiting `__get_char` gets is dropped. -/
theorem drop (h : Represents ed e) (hescaped : ed.escaped = true) (byte : UInt8) :
    Represents { ed with escaped := false } (e.next byte) := by
  have hnext : e.next byte = { e with escaped := false } := by
    unfold Edit.next
    rw [if_pos (h.escaped ▸ hescaped)]
  rw [hnext]
  exact { h with escaped := rfl }

/-- The other characters. -/
theorem other (h : Represents ed e) (ch : UInt8) :
    Represents (ed.append ch)
      (if e.line.length < cliBufferSize - 1 then { e with line := e.line ++ [ch] } else e) := by
  split
  · exact h.append ‹_› ch
  · rw [h.append_full ‹_›]
    exact h

theorem switch (h : Represents ed e) (hescaped : ed.escaped = false) {ch : UInt8}
    (hclean : ch = enter → 0 ∉ ed.sgCmdBuffer.take ed.sgCurPos) :
    Represents (ed.switch ch) (e.next ch) := by
  have hpos : 0 < ed.sgCurPos ↔ e.line ≠ [] := by
    rw [h.curPos, List.length_pos_iff]
  have hidle : ¬ e.escaped = true := by
    rw [← h.escaped, hescaped]
    decide
  unfold Editor.switch Edit.next
  rw [if_neg hidle]
  by_cases hesc : ch = escape
  · rw [if_pos hesc, if_pos hesc]
    exact { h with escaped := rfl }
  rw [if_neg hesc, if_neg hesc]
  by_cases hback : ch = backspace ∨ ch = del
  · rw [if_pos hback, if_pos hback]
    by_cases hline : 0 < ed.sgCurPos
    · rw [if_pos hline]
      exact h.dropLast hline
    · have hnil : e.line = [] := by
        by_contra hne
        exact hline (hpos.mpr hne)
      rw [if_neg hline, hnil, List.dropLast_nil, ← hnil]
      exact h
  rw [if_neg hback, if_neg hback]
  by_cases henter : ch = enter
  · rw [if_pos henter, if_pos henter]
    have htext : cstr ed.sgCmdBuffer = e.line :=
      h.cstr_buffer (h.take_curPos ▸ hclean henter)
    refine ⟨rfl, rfl, by dsimp only; decide, h.escaped, ?_⟩
    dsimp only
    rw [htext, h.parsed, List.filter_append]
    by_cases hnil : e.line = []
    · simp [hnil]
    · rw [if_pos (List.length_pos_iff.mpr hnil)]
      simp [hnil]
  rw [if_neg henter, if_neg henter]
  by_cases hhelp : ch = help
  · rw [if_pos hhelp]
    by_cases hline : ed.sgCurPos = 0
    · rw [if_pos hline, if_pos ⟨hhelp, List.length_eq_zero_iff.mp (h.curPos ▸ hline)⟩]
      exact h
    · rw [if_neg hline, if_neg fun hempty => hline (h.curPos.trans (by rw [hempty.2]; rfl))]
      exact h.other ch
  · rw [if_neg hhelp, if_neg fun hempty => hhelp hempty.1]
    exact h.other ch

end Represents

/-! ### The bytes in order -/

theorem edit_snoc (bytes : List UInt8) (byte : UInt8) :
    edit (bytes ++ [byte]) = (edit bytes).next byte := by
  simp [edit]

/-- The ring is a queue between the UART and the line, and the buffer holds the edit of all
bytes returned. -/
structure Inv (s : Console) : Prop where
  queue : ∃ p, Refines s.uart p ∧ Port.Inv p
  line : Represents s.editor (edit s.uart.returned)

theorem queue_next {u u' : Uart} {event : RxRing.Event} (h : ∃ p, Refines u p ∧ Port.Inv p)
    (hstep : RxRing.step u event = some u') : ∃ p, Refines u' p ∧ Port.Inv p := by
  obtain ⟨p, hrefines, hinv⟩ := h
  have hboth := hrefines.step event
  rw [hstep] at hboth
  cases hnext : p.step event with
  | none =>
    rw [hnext] at hboth
    cases hboth
  | some p' =>
    rw [hnext] at hboth
    cases hboth with
    | some hrefines' => exact ⟨p', hrefines', hinv.step hnext⟩

/-- Reception returns nothing. -/
theorem returned_of_ne {u u' : Uart} {event : RxRing.Event} (h : ∀ n, event ≠ .uartRead n)
    (hstep : RxRing.step u event = some u') : u'.returned = u.returned := by
  cases event with
  | receive bytes =>
    cases hstep
    rfl
  | isrEnter =>
    simp only [RxRing.step, stepIsrEnter] at hstep
    split at hstep <;> cases hstep
    rfl
  | isrLoop =>
    simp only [RxRing.step, stepIsrLoop] at hstep
    split at hstep
    · cases hstep
    · cases hstep
      rfl
    · split at hstep <;> cases hstep <;> rfl
  | uartRead n => exact absurd rfl (h n)

theorem Inv.reception {s : Console} (h : Inv s) {event : RxRing.Event}
    (hevent : ∀ n, event ≠ .uartRead n) {t : Console}
    (hstep : ((RxRing.step s.uart event).map fun uart => { s with uart }) = some t) : Inv t := by
  obtain ⟨uart, huart, rfl⟩ := Option.map_eq_some_iff.mp hstep
  refine ⟨queue_next h.queue huart, ?_⟩
  dsimp only
  rw [returned_of_ne hevent huart]
  exact h.line

theorem nextChar_eq {s : Console} {p : Port} (h : Refines s.uart p) (hisr : s.uart.isr = .outside) :
    nextChar s = (unread s.uart).head? := by
  have hidx : writeIdx s.uart = s.uart.ring.vidxW := by simp [writeIdx, hisr]
  have hlt := h.vidxW_lt
  rw [hidx] at hlt
  unfold nextChar unread
  rw [(Refines.uartReadLoop_eq s.uart.ring.data hlt 1 h.vidxR_lt).1, hidx, List.head?_take]
  rfl

theorem Inv.cliStart {s t : Console} (h : Inv s) (hordered : Ordered s .cliStart)
    (hstep : stepCliStart s = some t) : Inv t := by
  obtain ⟨p, hrefines, hinv⟩ := h.queue
  unfold stepCliStart at hstep
  split at hstep
  · cases hstep
  · rename_i hescaped
    obtain ⟨uart, huart, rfl⟩ := Option.map_eq_some_iff.mp hstep
    have hisr : s.uart.isr = .outside := by
      by_contra hinside
      simp [RxRing.step, stepUartRead, hinside] at huart
    have hread := (uartRead_order hrefines huart).1
    have hnext := nextChar_eq hrefines hisr
    have hqueue := queue_next h.queue huart
    cases hunread : unread s.uart with
    | nil =>
      rw [hunread, List.take_nil, List.append_nil] at hread
      rw [hnext, hunread]
      exact ⟨hqueue, hread ▸ h.line⟩
    | cons ch rest =>
      rw [hunread, List.head?_cons] at hnext
      rw [hunread, List.take_succ_cons, List.take_zero] at hread
      rw [hnext]
      refine ⟨hqueue, ?_⟩
      dsimp only
      rw [hread, edit_snoc]
      apply h.line.switch (by simpa using hescaped)
      rintro rfl
      exact hordered hnext

theorem Inv.getChar {s t : Console} (h : Inv s) (hordered : Ordered s .getChar)
    (hstep : stepGetChar s = some t) : Inv t := by
  obtain ⟨p, hrefines, hinv⟩ := h.queue
  unfold stepGetChar at hstep
  split at hstep
  · rename_i hwaits
    cases hfifo : s.uart.rxFifo with
    | nil =>
      rw [hfifo] at hstep
      cases hstep
    | cons byte rest =>
      rw [hfifo] at hstep
      cases hstep
      have hempty : p.queue.items = [] := hrefines.unread.trans hordered
      have hport : Port.Inv { p with rxFifo := rest, returned := p.returned ++ [byte] } := by
        refine ⟨?_, hinv.enabled⟩
        have hhistory := hinv.history
        rw [hempty, hrefines.rxFifo, hfifo] at hhistory
        simp [hhistory, hempty]
      have hpair : Refines
          { s.uart with rxFifo := rest, returned := s.uart.returned ++ [byte] }
          { p with rxFifo := rest, returned := p.returned ++ [byte] } :=
        { hrefines with
          rxFifo := rfl
          returned := congrArg (· ++ [byte]) hrefines.returned }
      refine ⟨⟨_, hpair, hport⟩, ?_⟩
      dsimp only
      rw [edit_snoc]
      exact h.line.drop hwaits.1 byte
  · cases hstep

theorem Inv.next {s t : Console} {event : Event} (h : Inv s) (hordered : Ordered s event)
    (hstep : step s event = some t) : Inv t := by
  cases event with
  | receive bytes => exact @Inv.reception s h (.receive bytes) (by simp) t hstep
  | isrEnter => exact @Inv.reception s h .isrEnter (by simp) t hstep
  | isrLoop => exact @Inv.reception s h .isrLoop (by simp) t hstep
  | cliStart => exact h.cliStart hordered hstep
  | getChar => exact h.getChar hordered hstep

theorem Inv.initial : Inv initial where
  queue := ⟨Port.initial, Refines.initial, Port.Inv.initial⟩
  line := Represents.initial

theorem Inv.processed_eq {s : Console} (h : Inv s) : processed s = s.uart.returned := by
  obtain ⟨p, hrefines, hinv⟩ := h.queue
  have hhistory := hinv.history
  rw [hrefines.received, hrefines.returned, hrefines.unread, hrefines.rxFifo,
    List.append_assoc] at hhistory
  unfold processed
  rw [hhistory, List.length_append, Nat.add_sub_cancel, List.take_left]

theorem cliLine_of_run (events : List Event) (s : Console)
    (hrun : Run step Ordered initial events s) : Edits s := by
  have hinv : Inv s := hrun.invariant Inv.initial fun _ _ _ h hordered hstep => h.next hordered hstep
  constructor
  · rw [hinv.processed_eq]
    exact hinv.line.parsed
  · rw [hinv.line.curPos]
    exact hinv.line.short
  · exact hinv.line.getElem_curPos

/-- The letter behind an escape comes straight from the UART, and the line is entered. -/
def escapedLetter : List Event :=
  [.receive [escape], .isrEnter, .isrLoop, .isrLoop, .cliStart, .receive [97], .getChar,
    .receive [98, enter], .isrEnter, .isrLoop, .isrLoop, .isrLoop, .cliStart, .cliStart]

theorem cliLine_of_run_escaped :
    ∃ s, exec (guarded step fun s event => Ordered s event) initial escapedLetter = some s ∧
      Edits s := by
  obtain ⟨s, hexec⟩ := Option.isSome_iff_exists.mp
    (show (exec (guarded step fun s event => Ordered s event) initial escapedLetter).isSome by
      decide)
  refine ⟨s, hexec, cliLine_of_run escapedLetter s ?_⟩
  exact (Run.of_exec_guarded hexec).mono fun _ _ hordered => of_decide_eq_true hordered

/-- Both bytes of an escape reach the ring, and `__get_char` takes the byte behind them. -/
def escapeOvertaken : List Event :=
  [.receive [escape, 97], .isrEnter, .isrLoop, .isrLoop, .isrLoop, .cliStart, .receive [98],
    .getChar, .receive [enter], .isrEnter, .isrLoop, .isrLoop, .cliStart, .cliStart]

theorem escape_overtaken : ¬ ∀ events s, Run step anyStep initial events s → Edits s := by
  intro h
  have hrun : (exec step initial escapeOvertaken).map (fun s =>
      (s.editor.parsed, (edit (processed s)).entered.filter (· ≠ []))) =
        some ([[97]], [[98]]) := by
    decide
  obtain ⟨s, hexec, hpair⟩ := Option.map_eq_some_iff.mp hrun
  have hparsed := (h escapeOvertaken s (Run.of_exec hexec)).parsed
  rw [Prod.mk.injEq] at hpair
  rw [hpair.1, hpair.2] at hparsed
  exact absurd hparsed (by decide)

end Sv6x66.Cli.LineEditor
