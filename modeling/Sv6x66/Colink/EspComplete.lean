import Sv6x66.Colink.EspFinish

/-! When the receiver of `esp_touch.c` has to finish. The count of accepted data is
compared with `password_len + 9` by equality, and only with a `password_len` other
than zero. -/
namespace Sv6x66.Colink.EspComplete
open Sv6x66.Lib Function EspTouch EspRun EspFinish

/-- The indices received, with this datum. -/
def indicesWith (s : Sys) (d : Datum) : Finset Nat := insert d.index.toNat (indices s.received)

def below (received : Finset Nat) (n : Nat) : Finset Nat := received.filter (· < n)

/-- The password length is not entered as zero together with all of the first nine
bytes; and it is entered before the count goes beyond its end, and not after a wrap
of the count, which would leave it behind the bytes received. -/
def Timely (s : Sys) (event : Event) : Prop :=
  ∀ d ∈ datumOf s.smnt event, payloadAt s.smnt d.index.toNat = 0 →
    if passwordLenWith s.smnt d = 0 then ¬ Finset.range espPasswordOff ⊆ indicesWith s d
    else d.index = 1 →
      (below (indicesWith s d) (d.value.toNat + espPasswordOff)).card ≤ s.smnt.index.toNat + 1 ∧
        s.smnt.index.toNat + 1 ≤ d.value.toNat + espPasswordOff

instance (s : Sys) (event : Event) : Decidable (Timely s event) :=
  inferInstanceAs (Decidable (∀ d ∈ datumOf s.smnt event,
    payloadAt s.smnt d.index.toNat = 0 → _))

/-- Every byte up to the end of the password came in a datum with a correct CRC. -/
def AllReceived (s : Sys) : Prop :=
  Finset.range (s.smnt.passwordLen.toNat + espPasswordOff) ⊆ indices s.received

instance (s : Sys) : Decidable (AllReceived s) :=
  inferInstanceAs (Decidable (Finset.range _ ⊆ indices s.received))

def Completes (s : Sys) : Prop := AllReceived s → s.smnt.state = .finish

theorem not_completes {s : Sys} (hall : AllReceived s) (hlocked : s.smnt.state = .locked) :
    ¬ Completes s := by
  intro h
  have hfinish := h hall
  rw [hlocked] at hfinish
  cases hfinish

/-- The count is not behind the bytes received, and has not passed the end of the
password. -/
structure OnTime (s : Sys) : Prop where
  entered : ∀ i : Fin 128, s.smnt.payloadMulticast i ≠ 0 → (i : Nat) ∈ indices s.received
  unknown : s.smnt.passwordLen = 0 → ¬ Finset.range espPasswordOff ⊆ indices s.received
  counted : s.smnt.passwordLen ≠ 0 →
    (below (indices s.received) (s.smnt.passwordLen.toNat + espPasswordOff)).card ≤
        s.smnt.index.toNat ∧
      (s.smnt.state = .finish ∨
        s.smnt.index.toNat < s.smnt.passwordLen.toNat + espPasswordOff)

theorem card_below_insert_le (i : Nat) (received : Finset Nat) (n : Nat) :
    (below (insert i received) n).card ≤ (below received n).card + 1 := by
  have hsub : below (insert i received) n ⊆ insert i (below received n) := by
    intro j hj
    obtain ⟨hmem, hlt⟩ := Finset.mem_filter.mp hj
    rcases Finset.mem_insert.mp hmem with rfl | hold
    · exact Finset.mem_insert_self ..
    · exact Finset.mem_insert_of_mem (Finset.mem_filter.mpr ⟨hold, hlt⟩)
  exact (Finset.card_le_card hsub).trans (Finset.card_insert_le ..)

namespace OnTime

variable {s t : Sys}

theorem completes (h : OnTime s) : Completes s := by
  intro hall
  by_cases hzero : s.smnt.passwordLen = 0
  · unfold AllReceived at hall
    rw [hzero, UInt8.toNat_zero, zero_add] at hall
    exact absurd hall (h.unknown hzero)
  · obtain ⟨hcard, hstate⟩ := h.counted hzero
    refine hstate.resolve_right fun hlt => ?_
    have hsub : Finset.range (s.smnt.passwordLen.toNat + espPasswordOff) ⊆
        below (indices s.received) (s.smnt.passwordLen.toNat + espPasswordOff) := by
      intro i hi
      exact Finset.mem_filter.mpr ⟨hall hi, Finset.mem_range.mp hi⟩
    have hle := Finset.card_le_card hsub
    rw [Finset.card_range] at hle
    omega

/-- The same data and the same indices. -/
theorem same (h : OnTime s) (hpayload : t.smnt.payloadMulticast = s.smnt.payloadMulticast)
    (hindex : t.smnt.index = s.smnt.index) (hpassword : t.smnt.passwordLen = s.smnt.passwordLen)
    (hindices : indices t.received = indices s.received)
    (hstate : s.smnt.state = .finish → t.smnt.state = .finish) : OnTime t := by
  constructor
  · rw [hindices, hpayload]
    exact h.entered
  · rw [hindices, hpassword]
    exact h.unknown
  · rw [hindices, hpassword, hindex]
    intro hne
    exact (h.counted hne).imp_right (Or.imp_left hstate)

/-- A datum that is entered counts one, and at most one index is new. -/
theorem stored (h : OnTime s) {d : Datum} (hd : d.index.toNat < 128)
    (hentered : Entered s.smnt d hd t.smnt) (hlocked : s.smnt.state ≠ .finish)
    (htimely : if passwordLenWith s.smnt d = 0 then
        ¬ Finset.range espPasswordOff ⊆ indicesWith s d
      else d.index = 1 →
        (below (indicesWith s d) (d.value.toNat + espPasswordOff)).card ≤
            s.smnt.index.toNat + 1 ∧
          s.smnt.index.toNat + 1 ≤ d.value.toNat + espPasswordOff)
    (hindices : indices t.received = indicesWith s d) : OnTime t := by
  have hpassword := hentered.passwordLen
  constructor
  · rw [hindices]
    exact hentered.mem_insert h.entered
  · intro hzero
    rw [hpassword] at hzero
    rw [if_pos hzero] at htimely
    rw [hindices]
    exact htimely
  · intro hne
    rw [hpassword] at hne
    rw [if_neg hne] at htimely
    -- one more datum, and the count has not passed the end
    have hcount : (below (indicesWith s d) (t.smnt.passwordLen.toNat + espPasswordOff)).card ≤
          s.smnt.index.toNat + 1 ∧
        s.smnt.index.toNat + 1 ≤ t.smnt.passwordLen.toNat + espPasswordOff := by
      rw [hpassword]
      by_cases hone : d.index = 1
      · rw [passwordLenWith, if_pos hone]
        exact htimely hone
      · rw [passwordLenWith, if_neg hone] at hne ⊢
        obtain ⟨hcard, hstate⟩ := h.counted hne
        have hlt := hstate.resolve_left hlocked
        have hle := card_below_insert_le d.index.toNat (indices s.received)
          (s.smnt.passwordLen.toNat + espPasswordOff)
        exact ⟨hle.trans (by omega), hlt⟩
    have hbyte := t.smnt.passwordLen.toNat_lt
    have hnat : t.smnt.index.toNat = s.smnt.index.toNat + 1 := by
      rw [hentered.index, UInt16.toNat_add, UInt16.toNat_one, Nat.mod_eq_of_lt]
      simp only [espPasswordOff, datumDataLength, ipAddressLength] at hcount
      omega
    rw [hindices, hnat, hentered.finish, Finished, hnat, hpassword]
    rw [hpassword] at hcount
    refine ⟨hcount.1, ?_⟩
    rcases hcount.2.eq_or_lt with heq | hlt
    · exact Or.inl ⟨hne, heq⟩
    · exact Or.inr hlt

theorem step (h : OnTime s) {event : Event} (htimely : Timely s event) (hnext : Next s event t) :
    OnTime t := by
  cases hnext with
  | tick =>
    obtain ⟨hdata, hstate⟩ := cyclecall_spec s.smnt
    refine h.same hdata.payload hdata.index hdata.passwordLen rfl fun hfinish => ?_
    rcases hstate with ⟨skip, probability, heq⟩ | ⟨hnot, -⟩
    · rw [heq]
      exact hfinish
    · exact absurd hfinish hnot
  | skip f hnot => exact h
  | search f smnt hlocked hnot hlocking hdata =>
    exact h.same hdata.payload hdata.index hdata.passwordLen rfl fun hfinish => absurd hfinish hnot
  | lock f smnt hlocking hsmnt hlock =>
    refine h.same hlock.payload hlock.index hlock.passwordLen rfl fun hfinish => ?_
    rw [hlocking] at hfinish
    cases hfinish
  | take f packet taken smnt received htakes hsmnt htook htake =>
    have hkept := (takePacket_spec htook).kept
    have hlocked : s.smnt.state ≠ .finish := by
      rw [htakes.1]
      decide
    have hnever : s.smnt.state = .finish → smnt.state = .finish :=
      fun hfinish => absurd hfinish hlocked
    cases htake with
    | kept => exact h.same hkept.payload hkept.index hkept.passwordLen rfl hnever
    | unchecked => exact h.same hkept.payload hkept.index hkept.passwordLen rfl hnever
    | known d hd hlast hcheck hentered =>
      refine h.same hkept.payload hkept.index hkept.passwordLen ?_ hnever
      rw [indices_append, Finset.insert_eq_of_mem]
      exact h.entered _ hentered
    | stored d hd hlast hcheck hfree =>
      have hzero : payloadAt s.smnt d.index.toNat = 0 := by
        rw [payloadAt_of_lt hd, hfree]
      have hdatum := htimely d (datumOf_take htakes htook hlast hcheck) hzero
      exact h.stored hd (entered_storeDatum hd hkept hlocked) hlocked hdatum (indices_append _ _)

end OnTime

theorem onTime_initial : OnTime initial where
  entered := fun i hi => absurd rfl hi
  unknown := fun _ hsub => absurd (hsub (Finset.mem_range.mpr (show 0 < espPasswordOff by decide)))
    (Finset.notMem_empty 0)
  counted := fun hne => absurd rfl hne

theorem completes_of_run (events : List Event) (s : Sys)
    (hrun : Run step Timely initial events s) : Completes s := by
  have hstep : ∀ s event t, OnTime s → Timely s event → step s event = some t → OnTime t :=
    fun s event t h htimely hstep => h.step htimely (next_spec hstep)
  exact (hrun.invariant onTime_initial hstep).completes

/-- In no order, with a repetition. -/
def mixed : List EspDecode.Send :=
  [3, 0, 1, 8, 3, 2, 4, 9, 5, 6, 7].map fun i => ⟨i, UInt8.ofNat (i + 1)⟩

theorem completes_of_run_mixed :
    ∃ s, Run step Timely initial (sendAll EspDecode.somePhone EspDecode.shortPayload mixed) s ∧
      AllReceived s ∧ s.smnt.state = .finish := by
  have hexec : (exec (guarded step fun s event => decide (Timely s event)) initial
      (sendAll EspDecode.somePhone EspDecode.shortPayload mixed)).any
      fun s => decide (AllReceived s) := by
    decide +kernel
  obtain ⟨s, hs, hall⟩ := (Option.any_eq_true _ _).mp hexec
  have hrun := (Run.of_exec_guarded hs).mono fun s event h => of_decide_eq_true h
  exact ⟨s, hrun, of_decide_eq_true hall, completes_of_run _ s hrun (of_decide_eq_true hall)⟩

/-! ### A late password length -/

/-- The count has passed the end of the password. -/
structure Passed (s : Sys) : Prop where
  known : s.smnt.passwordLen ≠ 0
  past : s.smnt.passwordLen.toNat + espPasswordOff < s.smnt.index.toNat
  unfinished : s.smnt.state ≠ .finish

/-- The count does not wrap. -/
def Counts (s : Sys) (event : Event) : Prop :=
  ∀ d ∈ datumOf s.smnt event, payloadAt s.smnt d.index.toNat = 0 → s.smnt.index.toNat + 1 < 2 ^ 16

namespace Passed

variable {s t : Sys}

theorem same (h : Passed s) (hindex : t.smnt.index = s.smnt.index)
    (hpassword : t.smnt.passwordLen = s.smnt.passwordLen) (hstate : t.smnt.state ≠ .finish) :
    Passed t where
  known := hpassword ▸ h.known
  past := by
    rw [hpassword, hindex]
    exact h.past
  unfinished := hstate

/-- A datum that is entered with the count at the end or past it. -/
theorem stored {d : Datum} (hd : d.index.toNat < 128) (hentered : Entered s.smnt d hd t.smnt)
    (hknown : passwordLenWith s.smnt d ≠ 0)
    (hpast : (passwordLenWith s.smnt d).toNat + espPasswordOff < s.smnt.index.toNat + 1)
    (hcounts : s.smnt.index.toNat + 1 < 2 ^ 16) : Passed t := by
  have hlen := hentered.passwordLen
  have hindex : t.smnt.index.toNat = s.smnt.index.toNat + 1 := by
    rw [hentered.index, UInt16.toNat_add, UInt16.toNat_one, Nat.mod_eq_of_lt hcounts]
  refine ⟨hlen ▸ hknown, ?_, ?_⟩
  · rw [hlen, hindex]
    exact hpast
  · rw [Ne, hentered.finish, Finished, hlen, hindex]
    rintro ⟨-, heq⟩
    omega

theorem step (h : Passed s) (hpassword : s.smnt.passwordLen = s.smnt.payloadMulticast 1)
    {event : Event} (hcounts : Counts s event) (hnext : Next s event t) : Passed t := by
  cases hnext with
  | tick =>
    obtain ⟨hdata, hstate⟩ := cyclecall_spec s.smnt
    refine h.same hdata.index hdata.passwordLen fun hfinish => ?_
    rcases hstate with ⟨skip, probability, heq⟩ | ⟨-, hlocking⟩
    · rw [heq] at hfinish
      exact h.unfinished hfinish
    · rw [hlocking] at hfinish
      cases hfinish
  | skip f hnot => exact h
  | search f smnt hlocked hnot hlocking hdata =>
    refine h.same hdata.index hdata.passwordLen ?_
    rw [hlocking]
    decide
  | lock f smnt hlocking hsmnt hlock =>
    refine h.same hlock.index hlock.passwordLen ?_
    rw [hlock.locked]
    decide
  | take f packet taken smnt received htakes hsmnt htook htake =>
    have hkept := (takePacket_spec htook).kept
    have hunfinished : taken.state ≠ .finish := hkept.state ▸ h.unfinished
    cases htake with
    | kept => exact h.same hkept.index hkept.passwordLen hunfinished
    | unchecked => exact h.same hkept.index hkept.passwordLen hunfinished
    | known d hd => exact h.same hkept.index hkept.passwordLen hunfinished
    | stored d hd hlast hcheck hfree =>
      have hzero : payloadAt s.smnt d.index.toNat = 0 := by
        rw [payloadAt_of_lt hd, hfree]
      -- byte 1 is entered, so that no datum of it is
      have hother : d.index ≠ 1 := by
        intro hone
        rw [(slot_eq_one_iff d hd).mpr hone, ← hpassword] at hfree
        exact h.known hfree
      have hlen : passwordLenWith s.smnt d = s.smnt.passwordLen := if_neg hother
      have hroom := hcounts d (datumOf_take htakes htook hlast hcheck) hzero
      exact stored hd (entered_storeDatum hd hkept h.unfinished) (hlen ▸ h.known)
        (hlen ▸ h.past.trans (by omega)) hroom

end Passed

/-- A password length that is entered late. -/
theorem passed_of_late {s t : Sys} {event : Event} {d : Datum} (hnext : Next s event t)
    (hdatum : datumOf s.smnt event = some d) (hfree : payloadAt s.smnt d.index.toNat = 0)
    (hone : d.index = 1) (hvalue : d.value ≠ 0)
    (hlate : d.value.toNat + espPasswordOff < s.smnt.index.toNat + 1)
    (hcounts : s.smnt.index.toNat + 1 < 2 ^ 16) : Passed t := by
  cases hnext with
  | tick => cases hdatum
  | skip f hnot => exact absurd (take_of_datumOf hdatum).1 hnot
  | search f smnt hlocked => exact absurd (take_of_datumOf hdatum).1.1 hlocked
  | lock f smnt hlocking =>
    have hlocked := (take_of_datumOf hdatum).1.1
    rw [hlocking] at hlocked
    cases hlocked
  | take f packet taken smnt received htakes hsmnt htook htake =>
    have hkept := (takePacket_spec htook).kept
    obtain ⟨hlast, hcheck⟩ := (take_of_datumOf hdatum).2 packet taken htook
    have hlocked : s.smnt.state ≠ .finish := by
      rw [htakes.1]
      decide
    have hlen : passwordLenWith s.smnt d = d.value := if_pos hone
    cases htake with
    | kept hnot => exact absurd hlast hnot
    | unchecked _ hnone =>
      rw [hcheck] at hnone
      cases hnone
    | known d' hd _ hcheck' hentered =>
      obtain rfl := Option.some.inj (hcheck.symm.trans hcheck')
      rw [payloadAt_of_lt hd] at hfree
      exact absurd hfree hentered
    | stored d' hd _ hcheck' =>
      obtain rfl := Option.some.inj (hcheck.symm.trans hcheck')
      exact Passed.stored hd (entered_storeDatum hd hkept hlocked) (hlen ▸ hvalue) (hlen ▸ hlate)
        hcounts

/-- Behind a password length that was entered late, the receiver does not finish
while the count does not wrap. -/
theorem not_finish_of_passed {events : List Event} {s t : Sys} (hpassed : Passed s)
    (hpassword : s.smnt.passwordLen = s.smnt.payloadMulticast 1)
    (hrun : Run step Counts s events t) : t.smnt.state ≠ .finish := by
  have hboth := hrun.invariant
    (I := fun s => Passed s ∧ s.smnt.passwordLen = s.smnt.payloadMulticast 1)
    ⟨hpassed, hpassword⟩ fun s event t h hcounts hstep =>
      ⟨h.1.step h.2 hcounts (next_spec hstep), passwordLen_step h.2 (next_spec hstep)⟩
  exact hboth.1.unfinished

/-- The password length comes last, behind the SSID. -/
def lateLength : List EspDecode.Send :=
  [0, 2, 3, 4, 5, 6, 7, 8, 9, 10, 11, 1].map fun i => ⟨i, UInt8.ofNat (i + 1)⟩

/-- No password. -/
def openPayload : List UInt8 := [9, 0, 33, 44, 55, 66, 77, 88, 99]

theorem completion_missed :
    (∃ s, Run step anyStep initial (sendAll EspDecode.somePhone longPayload lateLength) s ∧
      ¬ Completes s) ∧
    ∃ s, Run step anyStep initial (sendAll EspDecode.somePhone openPayload
        (EspDecode.inOrder.take 9)) s ∧ ¬ Completes s := by
  have hlate : (exec step initial (sendAll EspDecode.somePhone longPayload lateLength)).any
      fun s => decide (AllReceived s ∧ s.smnt.state = .locked) := by
    decide +kernel
  have hopen : (exec step initial (sendAll EspDecode.somePhone openPayload
      (EspDecode.inOrder.take 9))).any
      fun s => decide (AllReceived s ∧ s.smnt.state = .locked) := by
    decide +kernel
  constructor
  · obtain ⟨s, hs, hfacts⟩ := (Option.any_eq_true _ _).mp hlate
    obtain ⟨hall, hlocked⟩ := of_decide_eq_true hfacts
    exact ⟨s, Run.of_exec hs, not_completes hall hlocked⟩
  · obtain ⟨s, hs, hfacts⟩ := (Option.any_eq_true _ _).mp hopen
    obtain ⟨hall, hlocked⟩ := of_decide_eq_true hfacts
    exact ⟨s, Run.of_exec hs, not_completes hall hlocked⟩

end Sv6x66.Colink.EspComplete
