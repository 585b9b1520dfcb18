import Sv6x66.Colink.DlRequest

/-! The length behind `AT+SEND=`, and the data of that length. The line is read into what
is left of a buffer of 65 bytes for 200 ms, and the length goes to `OS_MemAlloc` with one
added. A write outside of a buffer has no result. -/
namespace Sv6x66.Colink.DlLength
open Sv6x66.Lib
open Sv6x66.Lib.CString
open Sv6x66.Lib.StreamRing
open Sv6x66.Colink.UartData
open Sv6x66.Colink.UartFifo
open Sv6x66.Colink.DlRequest

/-- `OS_MemAlloc`, what `atoi` gives for a number that is no `int`, and the stack behind
`buffer`: no NUL ends the line. -/
structure Platform where
  heap : Allocator
  convert : Int → UInt32
  convert_int : ∀ {value : Int}, -2 ^ 31 ≤ value → value < 2 ^ 31 → convert value = UInt32.ofInt value
  behind : Bytes

/-- `state` and `buffer` behind the second loop, and the bytes that wait then. -/
structure LineEnd where
  state : Nat
  buffer : Bytes
  waiting : Bytes
deriving DecidableEq, Repr

def lineLoop (deadline : UInt32) :
    List Round → (buffer : Bytes) → (off : Nat) → (waiting : Bytes) → Option LineEnd
  | [], buffer, _, waiting => some ⟨1, buffer, waiting⟩
  | round :: rounds, buffer, off, waiting =>
    if round.systick < deadline then
      match uartDataReadData (waiting ++ round.arrived) 1 with
      | ([], waiting) => lineLoop deadline rounds buffer off waiting
      | (ch :: _, waiting) =>
        if off < buffer.length then
          if ch = 10 then some ⟨2, buffer.set off ch, waiting⟩
          else lineLoop deadline rounds (buffer.set off ch) (off + 1) waiting
        else none
    else some ⟨1, buffer, waiting⟩

/-- `state` and `pbuf` behind the third loop. -/
def dataLoop (deadline : UInt32) (n : Nat) :
    List Round → (pbuf : Bytes) → (off : Nat) → (waiting : Bytes) → Option (Nat × Bytes)
  | [], pbuf, _, _ => some (2, pbuf)
  | round :: rounds, pbuf, off, waiting =>
    if round.systick < deadline then
      let (read, waiting) := uartDataReadData (waiting ++ round.arrived) (n - off)
      let off' := off + read.length
      if off' ≤ pbuf.length then
        if off' = n then some (3, splice pbuf off read)
        else dataLoop deadline n rounds (splice pbuf off read) off' waiting
      else none
    else some (2, pbuf)

/-- The length the line announces. -/
def announced (p : Platform) (buffer : Bytes) : UInt32 := p.convert (atoi (cstr (buffer ++ p.behind)))

/-- What the loops run through: the reading of the clock in front of each, and its rounds. -/
structure Sending where
  buffer : Vector UInt8 65
  lineSystick : UInt32
  line : List Round
  dataSystick : UInt32
  data : List Round

/-- The second loop of a sending, from the request on. -/
def readLine (sending : Sending) (waiting : Bytes) : Option LineEnd :=
  lineLoop (sending.lineSystick + 200) sending.line sending.buffer.toList 0 waiting

/-- From the second loop up to `pbuf[n] = 0`; the result is the text for `cJSON_Parse`, if
the function gets there. -/
def readData (p : Platform) (sending : Sending) (waiting : Bytes) : Option (Option Bytes) := do
  let line ← readLine sending waiting
  let n := announced p line.buffer
  if line.state ≠ 2 ∨ n < 100 then return none
  else
    match p.heap.alloc (n + 1).toNat with
    | none => return none
    | some pbuf =>
      let (state, pbuf) ←
        dataLoop (sending.dataSystick + 500) n.toNat sending.data pbuf 0 line.waiting
      if state ≠ 3 then return none
      else if n.toNat < pbuf.length then return some (pbuf.set n.toNat 0)
      else none

/-- Every write stays in its buffer, and data is only read into a block with room for the
announced length and a NUL. -/
def Safe (p : Platform) (sending : Sending) (waiting : Bytes) : Prop :=
  (readData p sending waiting).isSome ∧
    ∀ line, readLine sending waiting = some line → line.state = 2 →
      ¬ announced p line.buffer < 100 →
      ∀ pbuf, p.heap.alloc (announced p line.buffer + 1).toNat = some pbuf →
        (announced p line.buffer).toNat + 1 ≤ pbuf.length

/-! ### The line -/

/-- The bytes handed to the second loop: one in each round before the deadline that finds
one waiting, up to the end of the line. -/
def lineBytes (deadline : UInt32) : List Round → (waiting : Bytes) → Bytes
  | [], _ => []
  | round :: rounds, waiting =>
    if round.systick < deadline then
      match waiting ++ round.arrived with
      | [] => lineBytes deadline rounds []
      | ch :: waiting => if ch = 10 then [10] else ch :: lineBytes deadline rounds waiting
    else []

/-- The loop stays in the buffer exactly if it has room for the line. -/
theorem lineLoop_isSome {deadline : UInt32} {rounds : List Round} {buffer waiting : Bytes}
    {off : Nat} (hoff : off ≤ buffer.length) :
    (lineLoop deadline rounds buffer off waiting).isSome ↔
      off + (lineBytes deadline rounds waiting).length ≤ buffer.length := by
  induction rounds generalizing buffer off waiting with
  | nil => simpa [lineLoop, lineBytes] using hoff
  | cons round rounds ih =>
    rw [lineLoop, lineBytes]
    by_cases hearly : round.systick < deadline
    · rw [if_pos hearly, if_pos hearly]
      cases waiting ++ round.arrived with
      | nil => exact ih hoff
      | cons ch waiting =>
        simp only [uartDataReadData, List.take_succ_cons, List.drop_succ_cons, List.drop_zero]
        by_cases hroom : off < buffer.length
        · rw [if_pos hroom]
          by_cases hend : ch = 10
          · rw [if_pos hend, if_pos hend, List.length_singleton]
            simpa using hroom
          · rw [if_neg hend, if_neg hend, ih (by rw [List.length_set]; exact hroom),
              List.length_set, List.length_cons]
            omega
        · rw [if_neg hroom]
          constructor
          · intro h
            cases h
          · intro h
            split at h <;> simp only [List.length_cons] at h <;> omega
    · rw [if_neg hearly, if_neg hearly]
      simpa using hoff

/-- The line stands in the buffer from `off` on, and its end ends the loop. -/
theorem lineLoop_some {deadline : UInt32} {rounds : List Round} {buffer waiting : Bytes}
    {off : Nat} {line : LineEnd} (h : lineLoop deadline rounds buffer off waiting = some line) :
    line.buffer = splice buffer off (lineBytes deadline rounds waiting) ∧
      (line.state = 2 ↔ 10 ∈ lineBytes deadline rounds waiting) := by
  induction rounds generalizing buffer off waiting with
  | nil =>
    cases h
    exact ⟨(splice_nil buffer off).symm, by simp [lineBytes]⟩
  | cons round rounds ih =>
    rw [lineLoop] at h
    rw [lineBytes]
    by_cases hearly : round.systick < deadline
    · rw [if_pos hearly] at h ⊢
      cases hwaiting : waiting ++ round.arrived with
      | nil =>
        rw [hwaiting] at h
        exact ih h
      | cons ch waiting =>
        rw [hwaiting] at h
        simp only [uartDataReadData, List.take_succ_cons, List.drop_succ_cons, List.drop_zero] at h
        dsimp only
        split at h
        case isFalse => cases h
        case isTrue hroom =>
          split at h
          case isTrue hend =>
            cases h
            rw [if_pos hend, ← hend, ← splice_set hroom, splice_nil]
            simp
          case isFalse hend =>
            obtain ⟨hbuffer, hstate⟩ := ih h
            rw [if_neg hend, ← splice_set hroom]
            refine ⟨hbuffer, hstate.trans ?_⟩
            simp [Ne.symm hend]
    · rw [if_neg hearly] at h ⊢
      cases h
      exact ⟨(splice_nil buffer off).symm, by simp⟩

/-! ### The data -/

/-- With room for the data and a NUL the third loop stays in its block. -/
theorem dataLoop_spec {deadline : UInt32} {n : Nat} {rounds : List Round} {pbuf waiting : Bytes}
    {off : Nat} (hn : n < pbuf.length) (hoff : off ≤ n) :
    ∃ state pbuf', dataLoop deadline n rounds pbuf off waiting = some (state, pbuf') ∧
      pbuf'.length = pbuf.length := by
  induction rounds generalizing pbuf off waiting with
  | nil => exact ⟨2, pbuf, rfl, rfl⟩
  | cons round rounds ih =>
    rw [dataLoop]
    by_cases hearly : round.systick < deadline
    · have hread : off + (uartDataReadData (waiting ++ round.arrived) (n - off)).1.length ≤ n := by
        unfold uartDataReadData
        rw [List.length_take]
        omega
      rw [if_pos hearly]
      generalize uartDataReadData (waiting ++ round.arrived) (n - off) = next at hread ⊢
      obtain ⟨read, waiting⟩ := next
      dsimp only at hread ⊢
      have hlength : (splice pbuf off read).length = pbuf.length := splice_length (by omega)
      rw [if_pos (by omega)]
      split
      · exact ⟨3, _, rfl, hlength⟩
      · obtain ⟨state, pbuf', hrest, hrestLength⟩ := ih (hlength.symm ▸ hn) hread
        exact ⟨state, pbuf', hrest, hrestLength.trans hlength⟩
    · rw [if_neg hearly]
      exact ⟨2, pbuf, rfl, rfl⟩

/-- One added to the length wraps only for the greatest. -/
theorem toNat_add_one (n : UInt32) (hn : n ≠ 0xFFFFFFFF) : (n + 1).toNat = n.toNat + 1 := by
  have hlt := n.toNat_lt
  have hne : n.toNat ≠ 0xFFFFFFFF := fun h => hn (UInt32.toNat_inj.mp h)
  rw [UInt32.toNat_add]
  change (n.toNat + 1) % 2 ^ 32 = _
  rw [Nat.mod_eq_of_lt (by omega)]

/-- The bytes of the line, as far as they are read in time. -/
def Sending.text (sending : Sending) (waiting : Bytes) : Bytes :=
  lineBytes (sending.lineSystick + 200) sending.line waiting

/-- The line is `-1` or another text of the greatest length, and `OS_MemAlloc` has a block
of no bytes. -/
def EmptyBlock (p : Platform) (sending : Sending) (waiting : Bytes) : Prop :=
  10 ∈ sending.text waiting ∧
    announced p (splice sending.buffer.toList 0 (sending.text waiting)) = 0xFFFFFFFF ∧
    (p.heap.alloc 0).isSome

theorem safe_iff_text {p : Platform} {sending : Sending} {waiting : Bytes} :
    Safe p sending waiting ↔
      (sending.text waiting).length ≤ 65 ∧ ¬ EmptyBlock p sending waiting := by
  have hline : (readLine sending waiting).isSome ↔
      (sending.text waiting).length ≤ 65 := by
    unfold readLine Sending.text
    rw [lineLoop_isSome (Nat.zero_le _), Nat.zero_add, Vector.length_toList]
  unfold Safe readData
  cases hread : readLine sending waiting with
  | none =>
    rw [hread] at hline
    simp only [Option.isSome_none, Bool.false_eq_true, false_iff] at hline
    simp [hline]
  | some line =>
    obtain ⟨hbuffer, hstate⟩ := lineLoop_some hread
    have hempty : ¬ EmptyBlock p sending waiting ↔ (line.state = 2 →
        announced p line.buffer = 0xFFFFFFFF → p.heap.alloc 0 = none) := by
      unfold EmptyBlock Sending.text
      rw [← hbuffer, ← hstate]
      simp only [not_and, Option.not_isSome_iff_eq_none]
    rw [hread] at hline
    rw [hempty, and_iff_right (hline.mp rfl)]
    simp only [Option.bind_eq_bind, Option.bind_some, Option.some.injEq, forall_eq']
    generalize announced p line.buffer = n
    by_cases hskip : line.state ≠ 2 ∨ n < 100
    · rw [if_pos hskip]
      refine ⟨fun _ htwo hn => ?_, fun _ => ⟨rfl, fun htwo hlong => ?_⟩⟩
      · exact absurd (hskip.resolve_left (not_not_intro htwo)) (by rw [hn]; decide)
      · exact absurd hskip (not_or_intro (not_not_intro htwo) hlong)
    · obtain ⟨htwo, hlong⟩ := not_or.mp hskip
      rw [not_not] at htwo
      rw [if_neg hskip]
      cases halloc : p.heap.alloc (n + 1).toNat with
      | none =>
        refine ⟨fun _ _ hn => ?_, fun _ => ⟨rfl, fun _ _ pbuf hpbuf => by cases hpbuf⟩⟩
        rw [hn] at halloc
        exact halloc
      | some pbuf =>
        have hlength := p.heap.length_eq halloc
        by_cases hn : n = 0xFFFFFFFF
        · -- The block has no bytes.
          subst hn
          refine ⟨fun hsafe => ?_, fun hnone => ?_⟩
          · have hroom := hsafe.2 htwo hlong pbuf rfl
            rw [hlength] at hroom
            exact absurd hroom (by decide)
          · have hzero := hnone htwo rfl
            rw [show (0 : Nat) = ((0xFFFFFFFF : UInt32) + 1).toNat from rfl, halloc] at hzero
            cases hzero
        · rw [toNat_add_one n hn] at hlength
          have hroom : n.toNat < pbuf.length := by omega
          obtain ⟨state, pbuf', hdata, hkept⟩ : ∃ state pbuf', dataLoop (sending.dataSystick + 500)
              n.toNat sending.data pbuf 0 line.waiting = some (state, pbuf') ∧
              pbuf'.length = pbuf.length := dataLoop_spec hroom (Nat.zero_le _)
          refine ⟨fun _ _ hmax => absurd hmax hn, fun _ => ⟨?_, ?_⟩⟩
          · simp only [hdata, Option.bind_some]
            split
            · rfl
            · rw [if_pos (hkept.symm ▸ hroom)]
              rfl
          · intro _ _ block hblock
            cases hblock
            exact hroom

/-! ### The clock -/

/-- `OS_MsDelay(5)` lets five ticks pass between two rounds, and the count of the ticks
does not come round. -/
def Rising (tick : Nat) : List Round → Prop
  | [] => True
  | round :: rounds => tick ≤ round.systick.toNat ∧ Rising (round.systick.toNat + 5) rounds

theorem lineBytes_le {deadline : UInt32} {rounds : List Round} {tick : Nat}
    (hrising : Rising tick rounds) (waiting : Bytes) :
    5 * (lineBytes deadline rounds waiting).length ≤ deadline.toNat - tick + 4 := by
  induction rounds generalizing tick waiting with
  | nil => simp [lineBytes]
  | cons round rounds ih =>
    obtain ⟨htick, hrest⟩ := hrising
    rw [lineBytes]
    by_cases hearly : round.systick < deadline
    · have hlt : round.systick.toNat < deadline.toNat := hearly
      rw [if_pos hearly]
      cases waiting ++ round.arrived with
      | nil =>
        have hle := ih hrest []
        dsimp only
        omega
      | cons ch waiting =>
        have hle := ih hrest waiting
        dsimp only
        split
        · rw [List.length_singleton]
          omega
        · rw [List.length_cons]
          omega
    · rw [if_neg hearly]
      exact Nat.zero_le _

theorem length_text_le {sending : Sending} (hrising : Rising sending.lineSystick.toNat sending.line)
    (waiting : Bytes) : (sending.text waiting).length ≤ 40 := by
  have hle : 5 * (sending.text waiting).length ≤
      (sending.lineSystick + 200).toNat - sending.lineSystick.toNat + 4 :=
    lineBytes_le hrising waiting
  have hdeadline : (sending.lineSystick + 200).toNat ≤ sending.lineSystick.toNat + 200 := by
    rw [UInt32.toNat_add]
    exact Nat.mod_le _ _
  omega

/-- The line and the data are safe exactly if the buffer has room for the line and the data
is not read into an empty block. The clock alone sees to the first. -/
theorem length_safe_iff (p : Platform) (sending : Sending) (waiting : Bytes) :
    (Safe p sending waiting ↔
        (sending.text waiting).length ≤ 65 ∧ ¬ EmptyBlock p sending waiting) ∧
      (Rising sending.lineSystick.toNat sending.line → (sending.text waiting).length ≤ 40) :=
  ⟨safe_iff_text, fun hrising => length_text_le hrising waiting⟩

/-! ### A length of -1 -/

def smallPlatform : Platform where
  heap := smallHeap
  convert := UInt32.ofInt
  convert_int _ _ := rfl
  behind := []

/-- A byte of the line in every round, and one byte of data. -/
def minusOne : Sending where
  buffer := Vector.replicate 65 0
  lineSystick := 0
  line := [⟨0, ofString "-1\r\n"⟩, ⟨5, []⟩, ⟨10, []⟩, ⟨15, []⟩]
  dataSystick := 20
  data := [⟨20, [123]⟩]

theorem minusOne_unsafe : ¬ ∀ p sending waiting, Safe p sending waiting := by
  intro hall
  have hsafe := hall smallPlatform minusOne []
  exact absurd hsafe.1 (by decide)

end Sv6x66.Colink.DlLength
