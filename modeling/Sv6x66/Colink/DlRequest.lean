import Sv6x66.Lib.CString
import Sv6x66.Lib.Run
import Sv6x66.Lib.ShiftWindow
import Sv6x66.Colink.UartFifo

/-! The first loop of `colink_dl_check`, which waits for `AT+SEND=`. A poll that does not
fill the eight bytes of the window moves it all the same, and the bytes it moves to the
front may be old ones. -/
namespace Sv6x66.Colink.DlRequest
open Sv6x66.Lib
open Sv6x66.Lib.CString
open Sv6x66.Lib.StreamRing
open Sv6x66.Lib.ShiftWindow
open Sv6x66.Colink.UartFifo

def uartRequestS : Bytes := ofString "AT+SEND="

/-- The local variables, of `buffer` the eight bytes this loop uses; then the bytes that
wait, those that were read, and the number of polls that filled the window. -/
structure Search where
  startSystick : UInt32
  state : Nat
  buffer : Bytes
  off : Nat
  waiting : Bytes
  consumed : Bytes
  filled : Nat
deriving DecidableEq, Repr

/-- Before the first poll; `buffer` is not assigned. -/
def search (startSystick : UInt32) (buffer : Vector UInt8 8) : Search :=
  ⟨startSystick, 0, buffer.toList, 0, [], [], 0⟩

/-- What `OS_GetSysTick` gives at the head of a round, and the bytes that arrived since
the poll before. -/
structure Round where
  systick : UInt32
  arrived : Bytes
deriving DecidableEq, Repr

/-- The bytes the next poll reads. -/
def pollRead (s : Search) (arrived : Bytes) : Bytes × Bytes :=
  uartDataReadData (s.waiting ++ arrived) (8 - s.off)

/-- One round of the loop, which ends with the request or after ten seconds. -/
def step (s : Search) (round : Round) : Option Search :=
  if s.state ≠ 0 ∨ ¬ round.systick < s.startSystick + 10000 then none
  else
    let (read, waiting) := pollRead s round.arrived
    let buffer := splice s.buffer s.off read
    let off := s.off + read.length
    let consumed := s.consumed ++ read
    let filled := if off = 8 then s.filled + 1 else s.filled
    if off = 8 ∧ buffer = uartRequestS then
      some { s with state := 1, buffer, off, waiting, consumed, filled }
    else
      let (buffer, off) := resync 65 buffer
      some { s with buffer, off, waiting, consumed, filled }

/-- The request stands in the stream at `i`, and nowhere before. -/
def FirstAt (stream : Bytes) (i : Nat) : Prop :=
  (stream.drop i).take 8 = uartRequestS ∧ ∀ j < i, (stream.drop j).take 8 ≠ uartRequestS

/-- A poll that fills the window does not take old bytes in it for the request, and one
that does not fill it has read nothing of the request yet. -/
def Whole (i : Nat) (s : Search) (round : Round) : Prop :=
  let read := (pollRead s round.arrived).1
  if s.off + read.length = 8 then
    splice s.buffer s.off read = uartRequestS → uartRequestS <:+ s.consumed ++ read
  else s.consumed.length + read.length ≤ i

instance (i : Nat) (s : Search) (round : Round) : Decidable (Whole i s round) :=
  inferInstanceAs (Decidable (if s.off + (pollRead s round.arrived).1.length = 8 then
    splice s.buffer s.off (pollRead s round.arrived).1 = uartRequestS →
      uartRequestS <:+ s.consumed ++ (pollRead s round.arrived).1
    else s.consumed.length + (pollRead s round.arrived).1.length ≤ i))

instance (stream : Bytes) (i : Nat) : Decidable (FirstAt stream i) :=
  inferInstanceAs (Decidable (_ ∧ _))

/-- The request is still ahead or in the window, behind bytes that may be old. -/
structure Ahead (i : Nat) (s : Search) : Prop where
  off_lt : s.off < 8
  window : ∃ old lead real, s.buffer.take s.off = old ++ real ∧ s.consumed = lead ++ real ∧
    lead.length ≤ i

/-- What holds between two polls of a stream with the request at `i`. -/
structure Sound (stream : Bytes) (i : Nat) (s : Search) : Prop where
  length : s.buffer.length = 8
  ordered : s.consumed ++ s.waiting <+: stream
  filled_le : s.filled ≤ s.consumed.length
  ahead : s.state = 0 → Ahead i s
  found : s.state ≠ 0 → s.state = 1 ∧ s.consumed = stream.take (i + 8)

/-! ### The first occurrence -/

theorem FirstAt.le {stream : Bytes} {i j : Nat} (h : FirstAt stream i)
    (hj : (stream.drop j).take 8 = uartRequestS) : i ≤ j :=
  Nat.le_of_not_lt fun hlt => h.2 j hlt hj

theorem FirstAt.mark {stream : Bytes} {i : Nat} (h : FirstAt stream i) :
    stream[i]? = some 65 := by
  have hhead : (((stream.drop i).take 8)[0]?) = some 65 := by
    rw [h.1]
    decide
  rw [List.getElem?_take_of_lt (by decide), List.getElem?_drop] at hhead
  exact hhead

/-- The request at the end of what was read stands in the stream where it began. -/
theorem take_of_suffix {stream consumed : Bytes} (htaken : consumed <+: stream)
    (hsuffix : uartRequestS <:+ consumed) :
    (stream.drop (consumed.length - 8)).take 8 = uartRequestS ∧ 8 ≤ consumed.length := by
  obtain ⟨before, rfl⟩ := hsuffix
  obtain ⟨after, rfl⟩ := htaken
  have hlength : uartRequestS.length = 8 := by decide
  have hstart : (before ++ uartRequestS).length - 8 = before.length := by
    rw [List.length_append, hlength, Nat.add_sub_cancel]
  refine ⟨?_, by rw [List.length_append, hlength]; exact Nat.le_add_left _ _⟩
  rw [hstart, List.append_assoc, List.drop_left, ← hlength, List.take_left]

/-! ### One poll -/

section

variable {stream : Bytes} {i : Nat} {s t : Search} {round : Round}

/-- What a poll does that reads `read`: it finds the request, or moves the window on. -/
structure Poll (s t : Search) (round : Round) (read : Bytes) : Prop where
  state : s.state = 0
  split : s.waiting ++ round.arrived = read ++ t.waiting
  consumed : t.consumed = s.consumed ++ read
  fits : s.off + read.length ≤ 8
  filled : t.filled = if s.off + read.length = 8 then s.filled + 1 else s.filled
  next : (s.off + read.length = 8 ∧ splice s.buffer s.off read = uartRequestS ∧
      t.state = 1 ∧ t.buffer = splice s.buffer s.off read) ∨
    (¬ (s.off + read.length = 8 ∧ splice s.buffer s.off read = uartRequestS) ∧ t.state = 0 ∧
      t.buffer = (resync 65 (splice s.buffer s.off read)).1 ∧
      t.off = (resync 65 (splice s.buffer s.off read)).2)

theorem poll_of_step (hoff : s.off ≤ 8) (h : step s round = some t) :
    Poll s t round (pollRead s round.arrived).1 := by
  have hsplit : s.waiting ++ round.arrived =
      (pollRead s round.arrived).1 ++ (pollRead s round.arrived).2 :=
    (List.take_append_drop _ _).symm
  have hfits : s.off + (pollRead s round.arrived).1.length ≤ 8 := by
    unfold pollRead uartDataReadData
    rw [List.length_take]
    omega
  unfold step at h
  split at h
  · cases h
  · have hstate : s.state = 0 := by omega
    dsimp only at h
    split at h
    case isTrue hfound =>
      cases h
      exact ⟨hstate, hsplit, rfl, hfits, rfl, .inl ⟨hfound.1, hfound.2, rfl, rfl⟩⟩
    case isFalse hnot =>
      cases h
      exact ⟨hstate, hsplit, rfl, hfits, rfl, .inr ⟨hnot, hstate, rfl, rfl⟩⟩

/-- The request is not lost when a full window is moved on that does not show it. -/
theorem move_ahead {old lead real : Bytes} (hfirst : FirstAt stream i)
    (htaken : lead ++ real <+: stream) (hlead : lead.length ≤ i)
    (hlength : (old ++ real).length = 8) (hne : old ++ real ≠ uartRequestS) :
    ∃ old' lead' real', (old ++ real).drop (nextMark 65 (old ++ real)) = old' ++ real' ∧
      lead ++ real = lead' ++ real' ∧ lead'.length ≤ i := by
  have hle : nextMark 65 (old ++ real) ≤ (old ++ real).length := nextMark_le
  have hmarks : ∀ j, 0 < j → j < nextMark 65 (old ++ real) → (old ++ real)[j]? ≠ some 65 :=
    fun j => getElem?_ne_mark
  generalize nextMark 65 (old ++ real) = n at *
  by_cases hold : n ≤ old.length
  · -- Only old bytes are dropped.
    exact ⟨old.drop n, lead, real, List.drop_append_of_le_length hold, rfl, hlead⟩
  · obtain ⟨k, rfl⟩ := Nat.exists_eq_add_of_le (Nat.le_of_not_le hold)
    rw [List.length_append] at hle
    refine ⟨[], lead ++ real.take k, real.drop k, ?_, ?_, ?_⟩
    · rw [← List.drop_drop, List.drop_left, List.nil_append]
    · rw [List.append_assoc, List.take_append_drop]
    · rw [List.length_append, List.length_take, Nat.min_eq_left (by omega)]
      by_contra hgt
      -- Else the request begins among the bytes that are dropped.
      obtain ⟨p, hp⟩ := Nat.exists_eq_add_of_le hlead
      obtain ⟨after, rfl⟩ := htaken
      have hmark : (old ++ real)[old.length + p]? = some 65 := by
        have hstream := hfirst.mark
        rw [hp, List.append_assoc, List.getElem?_append_right (Nat.le_add_right _ _),
          Nat.add_sub_cancel_left, List.getElem?_append_left (by omega)] at hstream
        rw [List.getElem?_append_right (Nat.le_add_right _ _), Nat.add_sub_cancel_left, hstream]
      by_cases hzero : old.length + p = 0
      · -- At the front of the window it would be seen.
        have hempty : old = [] := List.length_eq_zero_iff.mp (by omega)
        have hreal : real.length = 8 := by rwa [hempty] at hlength
        have hseen := hfirst.1
        rw [hp, show p = 0 by omega, Nat.add_zero, List.append_assoc, List.drop_left, ← hreal,
          List.take_left] at hseen
        exact hne (by rw [hempty, hseen]; rfl)
      · exact hmarks _ (by omega) (by omega) hmark

/-- One poll of the kind allowed. -/
theorem Sound.step (hs : Sound stream i s) (hfirst : FirstAt stream i)
    (harrived : s.consumed ++ (s.waiting ++ round.arrived) <+: stream)
    (hwhole : Whole i s round) (h : step s round = some t) : Sound stream i t := by
  have hstate : s.state = 0 := by
    unfold DlRequest.step at h
    split at h
    · cases h
    · omega
  obtain ⟨hoff, old, lead, real, hwindow, hconsumed, hlead⟩ := hs.ahead hstate
  have hpoll := poll_of_step hoff.le h
  unfold Whole at hwhole
  generalize (pollRead s round.arrived).1 = read at hpoll hwhole
  dsimp only at hwhole
  have hfits : s.off + read.length ≤ s.buffer.length := by
    rw [hs.length]
    exact hpoll.fits
  have hlength : (splice s.buffer s.off read).length = 8 := (splice_length hfits).trans hs.length
  have hbuffer : (splice s.buffer s.off read).take (s.off + read.length) = old ++ (real ++ read) := by
    rw [take_splice (by omega), hwindow, List.append_assoc]
  have hread : t.consumed = lead ++ (real ++ read) := by
    rw [hpoll.consumed, hconsumed, List.append_assoc]
  have hordered : t.consumed ++ t.waiting <+: stream := by
    rwa [hpoll.consumed, List.append_assoc, ← hpoll.split]
  have htaken : t.consumed <+: stream := (List.prefix_append _ _).trans hordered
  have hfilled : t.filled ≤ t.consumed.length := by
    have hle := hs.filled_le
    rw [hpoll.filled, hpoll.consumed, List.length_append]
    split <;> omega
  have hfull : s.off + read.length = 8 → splice s.buffer s.off read = old ++ (real ++ read) := by
    intro hfull
    rw [← hbuffer, hfull, ← hlength, List.take_length]
  have hnext := hpoll.next
  generalize splice s.buffer s.off read = buffer at *
  obtain ⟨hfills, hseen, hfound, hkeep⟩ | ⟨hnot, hsearching, hmoved, hkept⟩ := hnext
  · -- The window shows the request, in bytes that were all read.
    rw [if_pos hfills] at hwhole
    obtain ⟨hat, hle⟩ := take_of_suffix htaken (hpoll.consumed ▸ hwhole hseen)
    have hstart := hfirst.le hat
    have hlen : t.consumed.length = i + 8 := by
      have hsum := congrArg List.length (hfull hfills)
      have hconsumedLength := congrArg List.length hread
      rw [hlength, List.length_append] at hsum
      rw [List.length_append] at hconsumedLength
      omega
    refine ⟨by rw [hkeep, hlength], hordered, hfilled, ?_, ?_⟩
    · intro hzero
      omega
    · intro _
      refine ⟨hfound, ?_⟩
      rw [← hlen]
      exact List.prefix_iff_eq_take.mp htaken
  · refine ⟨by rw [hmoved, resync_length, hlength], hordered, hfilled, ?_, ?_⟩
    · intro _
      have hwindow' : t.buffer.take t.off = buffer.drop (nextMark 65 buffer) := by
        rw [hmoved, hkept, resync_window]
      have hne : buffer ≠ [] := List.ne_nil_of_length_pos (by omega)
      refine ⟨by rw [hkept, ← hlength]; exact resync_lt hne, ?_⟩
      rw [hwindow', hread]
      by_cases hfills : s.off + read.length = 8
      · have hwhole := hfull hfills
        rw [hwhole] at hlength ⊢
        exact move_ahead hfirst (hread ▸ htaken) hlead hlength
          (hwhole ▸ fun hseen => hnot ⟨hfills, hseen⟩)
      · -- Nothing of the request has been read; all of the window may be old.
        rw [if_neg hfills, ← List.length_append, ← hpoll.consumed, hread] at hwhole
        exact ⟨_, _, [], (List.append_nil _).symm, (List.append_nil _).symm, hwhole⟩
    · intro hone
      exact absurd hsearching hone

end

/-! ### All polls -/

theorem sound_search {stream : Bytes} {i : Nat} (startSystick : UInt32)
    (buffer : Vector UInt8 8) : Sound stream i (search startSystick buffer) where
  length := Vector.length_toList
  ordered := List.nil_prefix
  filled_le := Nat.le_refl 0
  ahead _ := ⟨Nat.succ_pos 7, [], [], [], rfl, rfl, Nat.zero_le i⟩
  found h := absurd rfl h

theorem step_order {s t : Search} {round : Round} (h : step s round = some t) :
    t.consumed ++ t.waiting = s.consumed ++ s.waiting ++ round.arrived := by
  have hsplit : (pollRead s round.arrived).1 ++ (pollRead s round.arrived).2 =
      s.waiting ++ round.arrived := List.take_append_drop _ _
  unfold step at h
  split at h
  · cases h
  · dsimp only at h
    split at h
    · cases h
      rw [List.append_assoc, hsplit, List.append_assoc]
    · cases h
      rw [List.append_assoc, hsplit, List.append_assoc]

/-- The bytes that arrive in the rounds. -/
def arrivals (rounds : List Round) : Bytes := (rounds.map Round.arrived).flatten

theorem arrivals_append (rounds : List Round) (round : Round) :
    arrivals (rounds ++ [round]) = arrivals rounds ++ round.arrived := by
  unfold arrivals
  rw [List.map_append, List.flatten_append, List.map_singleton, List.flatten_singleton]

theorem order_of_run {allowed : Search → Round → Prop} {startSystick : UInt32}
    {buffer : Vector UInt8 8} {rounds : List Round} {s : Search}
    (hrun : Run step allowed (search startSystick buffer) rounds s) :
    s.consumed ++ s.waiting = arrivals rounds := by
  induction hrun with
  | nil => rfl
  | snoc _ _ hnext ih => rw [step_order hnext, ih, arrivals_append]

theorem sound_of_run {stream : Bytes} {i : Nat} (hfirst : FirstAt stream i)
    {startSystick : UInt32} {buffer : Vector UInt8 8} {rounds : List Round} {s : Search}
    (hrun : Run step (Whole i) (search startSystick buffer) rounds s)
    (hstream : arrivals rounds <+: stream) : Sound stream i s := by
  induction hrun with
  | nil => exact sound_search startSystick buffer
  | @snoc rounds s round t hbefore hwhole hnext ih =>
    rw [arrivals_append] at hstream
    apply (ih ((List.prefix_append _ _).trans hstream)).step hfirst _ hwhole hnext
    rwa [← List.append_assoc, order_of_run hbefore]

/-- In a run of such polls the request is found with exactly the bytes up to its end
read. Until then its end has not been read, and fewer polls than that have filled the
window. -/
theorem request_found (stream : Bytes) (i : Nat) (hfirst : FirstAt stream i)
    (startSystick : UInt32) (buffer : Vector UInt8 8) (rounds : List Round) (s : Search)
    (hrun : Run step (Whole i) (search startSystick buffer) rounds s)
    (hstream : arrivals rounds <+: stream) :
    (s.state = 1 ∧ s.consumed = stream.take (i + 8)) ∨
      (s.state = 0 ∧ s.consumed.length < i + 8 ∧ s.filled < i + 8) := by
  have hs := sound_of_run hfirst hrun hstream
  by_cases hstate : s.state = 0
  · obtain ⟨hoff, old, lead, real, hwindow, hconsumed, hlead⟩ := hs.ahead hstate
    have hreal : real.length ≤ s.off := by
      have hlength := congrArg List.length hwindow
      rw [List.length_take, List.length_append] at hlength
      omega
    have hlt : s.consumed.length < i + 8 := by
      rw [hconsumed, List.length_append]
      omega
    exact .inr ⟨hstate, hlt, lt_of_le_of_lt hs.filled_le hlt⟩
  · exact .inl (hs.found hstate)

def zeros : Vector UInt8 8 := Vector.replicate 8 0

/-- Rounds of 100 ms, the first with the bytes given and the others with none. -/
def roundsOf (chunks : List Bytes) (n : Nat) : List Round :=
  (List.range n).map fun k => ⟨UInt32.ofNat (100 * k), chunks.getD k []⟩

/-- A quiet poll, noise that is gone before the request, and all of it at once. -/
def bootRounds : List Round := roundsOf [[], ofString "boot", uartRequestS] 3

def bootFound : Search where
  startSystick := 0
  state := 1
  buffer := uartRequestS
  off := 8
  waiting := []
  consumed := ofString "boot" ++ uartRequestS
  filled := 1

theorem bootRounds_run : Run step (Whole 4) (search 0 zeros) bootRounds bootFound := by
  have hexec : exec (guarded step fun s round => decide (Whole 4 s round)) (search 0 zeros)
      bootRounds = some bootFound := by decide
  exact (Run.of_exec_guarded hexec).mono fun _ _ => of_decide_eq_true

theorem request_found_boot :
    (bootFound.state = 1 ∧ bootFound.consumed = (ofString "boot" ++ uartRequestS).take (4 + 8)) ∨
      (bootFound.state = 0 ∧ bootFound.consumed.length < 4 + 8 ∧ bootFound.filled < 4 + 8) :=
  request_found (ofString "boot" ++ uartRequestS) 4 (by decide) 0 zeros bootRounds bootFound
    bootRounds_run (by decide)

/-- The request in two pieces, with a poll between them, in ten seconds. -/
theorem split_request_lost : ¬ ∀ stream i, FirstAt stream i →
    ∀ startSystick buffer rounds s, Run step anyStep (search startSystick buffer) rounds s →
      arrivals rounds = stream → s.waiting = [] → s.state = 1 := by
  intro hall
  have hlost : (exec step (search 0 zeros) (roundsOf [ofString "AT+", ofString "SEND="] 100)).map
      (fun s => (s.state, s.waiting)) = some (0, []) := by decide
  obtain ⟨s, hs, heq⟩ := Option.map_eq_some_iff.mp hlost
  have hstate : s.state = 0 := congrArg Prod.fst heq
  have hone := hall uartRequestS 0 (by decide) 0 zeros _ s (Run.of_exec hs)
    (by decide) (congrArg Prod.snd heq)
  omega

end Sv6x66.Colink.DlRequest
