import Sv6x66.Lib.ShiftWindow
import Sv6x66.Colink.UartFifo

/-! `maoxin_get_command`: commands of the lamp's other processor, five bytes each.
The buffer and `off` are static, so a command may arrive in any pieces; the scan of the
whole stream says which commands there are. -/
namespace Sv6x66.Colink.MaoxinCommand
open Sv6x66.Lib.StreamRing
open Sv6x66.Lib.ShiftWindow
open Sv6x66.Colink.UartFifo

def uartCommandLen : Nat := 5

/-- Command in the low 16 bits, parameter in the high 16 bits. -/
def commandWord (command param : UInt8) : UInt32 :=
  UInt32.ofNat (command.toNat ||| param.toNat <<< 16)

/-- The static variables. -/
structure Scanner where
  commandBuffer : List UInt8
  off : Nat
deriving DecidableEq, Repr

def powerOn : Scanner := ⟨List.replicate uartCommandLen 0, 0⟩

/-- What is returned, the variables behind the call, and the bytes still waiting. -/
def maoxinGetCommand (s : Scanner) (waiting : List UInt8) : UInt32 × Scanner × List UInt8 :=
  let (read, waiting) := uartDataReadData waiting (uartCommandLen - s.off)
  let commandBuffer := splice s.commandBuffer s.off read
  let off := s.off + read.length
  if off = uartCommandLen then
    if commandBuffer.getD 0 0 = 0xA0 ∧ commandBuffer.getD 1 0 = 0xFA ∧
        commandBuffer.getD 4 0 = 0xA5 then
      (commandWord (commandBuffer.getD 2 0) (commandBuffer.getD 3 0), ⟨commandBuffer, 0⟩, waiting)
    else
      let (commandBuffer, off) := resync 0xA0 commandBuffer
      (0, ⟨commandBuffer, off⟩, waiting)
  else (0, ⟨commandBuffer, off⟩, waiting)

/-- The calls one after the other, each with the bytes that arrive before it: what they
return, and what is left. -/
def calls : Scanner → List UInt8 → List (List UInt8) → List UInt32 × Scanner × List UInt8
  | s, waiting, [] => ([], s, waiting)
  | s, waiting, chunk :: chunks =>
    let (result, s, waiting) := maoxinGetCommand s (waiting ++ chunk)
    let (results, left) := calls s waiting chunks
    (result :: results, left)

/-- The commands of a stream, from left to right and none inside another. -/
def scan : List UInt8 → List UInt32
  | a :: b :: command :: param :: e :: rest =>
    if a = 0xA0 ∧ b = 0xFA ∧ e = 0xA5 then commandWord command param :: scan rest
    else scan (b :: command :: param :: e :: rest)
  | _ => []

/-- A call returns 0 also where it has no command. -/
def nonZero (results : List UInt32) : List UInt32 := results.filter (· ≠ 0)

/-! ### The scan -/

theorem scan_short {stream : List UInt8} (h : stream.length < uartCommandLen) : scan stream = [] := by
  unfold scan
  split
  · simp only [List.length_cons, uartCommandLen] at h
    omega
  · rfl

theorem scan_cons {byte : UInt8} (hbyte : byte ≠ 0xA0) (rest : List UInt8) :
    scan (byte :: rest) = scan rest := by
  by_cases hshort : (byte :: rest).length < uartCommandLen
  · rw [scan_short hshort, scan_short (Nat.lt_of_succ_lt hshort)]
  · match rest with
    | b :: command :: param :: e :: rest => rw [scan, if_neg fun h => hbyte h.1]
    | [] | [_] | [_, _] | [_, _, _] => simp [uartCommandLen] at hshort

/-- Where no `0xA0` stands no command begins. -/
theorem scan_drop {stream : List UInt8} (k : Nat) (h : ∀ i < k, stream[i]? ≠ some 0xA0) :
    scan stream = scan (stream.drop k) := by
  induction k generalizing stream with
  | zero => rw [List.drop_zero]
  | succ k ih =>
    cases stream with
    | nil => rw [List.drop_nil]
    | cons byte rest =>
      have hbyte : byte ≠ 0xA0 := fun heq => h 0 (Nat.succ_pos k) (by rw [heq]; rfl)
      rw [scan_cons hbyte, List.drop_succ_cons]
      exact ih fun i hi => h (i + 1) (Nat.succ_lt_succ hi)

/-! ### One call -/

/-- The state between two calls. -/
structure Partial (s : Scanner) : Prop where
  length : s.commandBuffer.length = uartCommandLen
  off_lt : s.off < uartCommandLen

/-- The bytes of the buffer that count. -/
def window (s : Scanner) : List UInt8 := s.commandBuffer.take s.off

theorem Partial.powerOn : Partial powerOn := ⟨rfl, by decide⟩

theorem Partial.length_window {s : Scanner} (hs : Partial s) : (window s).length = s.off := by
  have hlt := hs.off_lt
  unfold window
  rw [List.length_take, hs.length]
  omega

theorem scan_full {buffer : List UInt8} (hlength : buffer.length = uartCommandLen)
    (rest : List UInt8) :
    scan (buffer ++ rest) =
      if buffer.getD 0 0 = 0xA0 ∧ buffer.getD 1 0 = 0xFA ∧ buffer.getD 4 0 = 0xA5 then
        commandWord (buffer.getD 2 0) (buffer.getD 3 0) :: scan rest
      else scan (buffer.tail ++ rest) := by
  match buffer with
  | [a, b, command, param, e] => rfl
  | [] | [_] | [_, _] | [_, _, _] | [_, _, _, _] => cases hlength
  | _ :: _ :: _ :: _ :: _ :: _ :: _ => simp [uartCommandLen] at hlength

/-- The move leaves out nothing that could begin a command. -/
theorem scan_tail_resync {buffer : List UInt8} (hne : buffer ≠ []) (rest : List UInt8) :
    scan (buffer.tail ++ rest) = scan (buffer.drop (nextMark 0xA0 buffer) ++ rest) := by
  have hpos : 0 < nextMark 0xA0 buffer := nextMark_pos hne
  obtain ⟨k, hk⟩ := Nat.exists_eq_add_one.mpr hpos
  have hle : k + 1 ≤ buffer.length := hk ▸ nextMark_le
  have htail : k ≤ buffer.tail.length := by
    rw [List.length_tail]
    omega
  rw [hk, ← List.drop_tail, ← List.drop_append_of_le_length htail]
  apply scan_drop k
  intro i hi
  rw [List.getElem?_append_left (by omega), List.getElem?_tail]
  exact getElem?_ne_mark (Nat.succ_pos i) (by omega)

theorem nonZero_cons (result : UInt32) (results : List UInt32) :
    nonZero (result :: results) = nonZero [result] ++ nonZero results := by
  rw [← List.singleton_append, nonZero, List.filter_append]
  rfl

/-- A call either leaves the bytes it read in the window, or makes one step of the scan. -/
theorem maoxinGetCommand_scan {s s' : Scanner} {waiting waiting' : List UInt8} {result : UInt32}
    (hs : Partial s) (h : maoxinGetCommand s waiting = (result, s', waiting'))
    (later : List UInt8) :
    Partial s' ∧ nonZero (scan (window s ++ (waiting ++ later))) =
      nonZero [result] ++ nonZero (scan (window s' ++ (waiting' ++ later))) := by
  have hoff := hs.off_lt
  have hsplit : waiting = waiting.take (uartCommandLen - s.off) ++
      waiting.drop (uartCommandLen - s.off) := (List.take_append_drop _ _).symm
  have hle : s.off + (waiting.take (uartCommandLen - s.off)).length ≤ uartCommandLen := by
    rw [List.length_take]
    omega
  unfold maoxinGetCommand uartDataReadData at h
  generalize waiting.take (uartCommandLen - s.off) = read at *
  generalize waiting.drop (uartCommandLen - s.off) = rest at *
  dsimp only at h
  have hbuffer : (splice s.commandBuffer s.off read).length = uartCommandLen :=
    (splice_length (by rw [hs.length]; exact hle)).trans hs.length
  have hwindow : (splice s.commandBuffer s.off read).take (s.off + read.length) =
      window s ++ read := take_splice (by rw [hs.length]; exact hoff.le)
  rw [hsplit, List.append_assoc, ← List.append_assoc (window s), ← hwindow]
  by_cases hfull : s.off + read.length = uartCommandLen
  · have hwhole : (splice s.commandBuffer s.off read).take (s.off + read.length) =
        splice s.commandBuffer s.off read := by
      rw [hfull, ← hbuffer, List.take_length]
    rw [hwhole, scan_full hbuffer]
    rw [if_pos hfull] at h
    generalize splice s.commandBuffer s.off read = buffer at *
    split at h
    · cases h
      refine ⟨⟨hbuffer, Nat.succ_pos 4⟩, ?_⟩
      rw [if_pos ‹_›, nonZero_cons]
      rfl
    · cases h
      have hne : buffer ≠ [] := List.ne_nil_of_length_pos (by rw [hbuffer]; decide)
      refine ⟨⟨resync_length.trans hbuffer, lt_of_lt_of_eq (resync_lt hne) hbuffer⟩, ?_⟩
      rw [if_neg ‹_›, scan_tail_resync hne, ← resync_window]
      rfl
  · rw [if_neg hfull] at h
    cases h
    exact ⟨⟨hbuffer, lt_of_le_of_ne hle hfull⟩, rfl⟩

/-! ### All calls -/

theorem calls_scan {s s' : Scanner} {waiting waiting' : List UInt8} {chunks : List (List UInt8)}
    {results : List UInt32} (hs : Partial s)
    (h : calls s waiting chunks = (results, s', waiting')) :
    Partial s' ∧ nonZero (scan (window s ++ (waiting ++ chunks.flatten))) =
      nonZero results ++ nonZero (scan (window s' ++ waiting')) := by
  induction chunks generalizing s waiting results with
  | nil =>
    cases h
    exact ⟨hs, by rw [List.flatten_nil, List.append_nil]; rfl⟩
  | cons chunk chunks ih =>
    rw [calls] at h
    cases hcall : maoxinGetCommand s (waiting ++ chunk) with
    | mk result state =>
      obtain ⟨s₁, waiting₁⟩ := state
      obtain ⟨hs₁, hscan⟩ := maoxinGetCommand_scan hs hcall chunks.flatten
      cases hrest : calls s₁ waiting₁ chunks with
      | mk results₁ left =>
        rw [hcall] at h
        simp only [hrest] at h
        cases h
        obtain ⟨hs', hlast⟩ := ih hs₁ hrest
        refine ⟨hs', ?_⟩
        rw [List.flatten_cons, ← List.append_assoc waiting, hscan, hlast, ← List.append_assoc,
          ← nonZero_cons]

theorem maoxinGetCommand_waiting (s : Scanner) (waiting : List UInt8) :
    (maoxinGetCommand s waiting).2.2 = waiting.drop (uartCommandLen - s.off) := by
  unfold maoxinGetCommand uartDataReadData
  dsimp only
  split
  · split <;> rfl
  · rfl

theorem calls_append (s : Scanner) (waiting : List UInt8) (chunks later : List (List UInt8)) :
    (calls s waiting (chunks ++ later)).2 =
      (calls (calls s waiting chunks).2.1 (calls s waiting chunks).2.2 later).2 := by
  induction chunks generalizing s waiting with
  | nil => rfl
  | cons chunk chunks ih =>
    rw [List.cons_append, calls, calls]
    exact ih _ _

/-- Every call takes a byte, if one waits. -/
theorem calls_drain {s : Scanner} (hs : Partial s) {waiting : List UInt8} {n : Nat}
    (hn : waiting.length ≤ n) : (calls s waiting (List.replicate n [])).2.2 = [] := by
  induction n generalizing s waiting with
  | zero => exact List.length_eq_zero_iff.mp (Nat.le_zero.mp hn)
  | succ n ih =>
    rw [List.replicate_succ, calls, List.append_nil]
    obtain ⟨hs', -⟩ := maoxinGetCommand_scan hs
      (rfl : maoxinGetCommand s waiting = (_, _, _)) []
    apply ih hs'
    have hoff := hs.off_lt
    rw [maoxinGetCommand_waiting, List.length_drop]
    omega

theorem length_waiting_le (s : Scanner) (waiting : List UInt8) (chunks : List (List UInt8)) :
    (calls s waiting chunks).2.2.length ≤ waiting.length + chunks.flatten.length := by
  induction chunks generalizing s waiting with
  | nil => exact le_refl _
  | cons chunk chunks ih =>
    have hrest := ih (maoxinGetCommand s (waiting ++ chunk)).2.1
      (maoxinGetCommand s (waiting ++ chunk)).2.2
    have hleft : (maoxinGetCommand s (waiting ++ chunk)).2.2.length ≤
        waiting.length + chunk.length := by
      rw [maoxinGetCommand_waiting, List.length_drop, List.length_append]
      exact Nat.sub_le _ _
    refine le_trans hrest ?_
    rw [List.flatten_cons, List.length_append]
    omega

/-- However the stream arrives, the commands returned are the first ones of its scan; all
of them once it is read, and enough further calls read it. -/
theorem maoxinGetCommand_chunks (chunks : List (List UInt8)) :
    nonZero (calls powerOn [] chunks).1 <+: nonZero (scan chunks.flatten) ∧
      ((calls powerOn [] chunks).2.2 = [] →
        nonZero (calls powerOn [] chunks).1 = nonZero (scan chunks.flatten)) ∧
      ∀ n, chunks.flatten.length ≤ n →
        (calls powerOn [] (chunks ++ List.replicate n [])).2.2 = [] := by
  obtain ⟨hs, hscan⟩ := calls_scan .powerOn (rfl : calls powerOn [] chunks = (_, _, _))
  have hstream : scan (window powerOn ++ ([] ++ chunks.flatten)) = scan chunks.flatten := rfl
  rw [hstream] at hscan
  refine ⟨hscan ▸ List.prefix_append _ _, ?_, ?_⟩
  · intro hread
    have hshort : (window (calls powerOn [] chunks).2.1).length < uartCommandLen := by
      rw [hs.length_window]
      exact hs.off_lt
    rw [hscan, hread, List.append_nil, scan_short hshort]
    exact (List.append_nil _).symm
  · intro n hn
    rw [calls_append]
    have hle := length_waiting_le powerOn [] chunks
    rw [List.length_nil, Nat.zero_add] at hle
    exact calls_drain hs (hle.trans hn)

example : nonZero (calls powerOn [] [[0xA0, 0xA0, 0xFA], [1], [0, 0xA5, 0xA0], []]).1 = [1] := by
  decide

end Sv6x66.Colink.MaoxinCommand
