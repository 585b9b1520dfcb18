import Sv6x66.Colink.EspDecode
import Sv6x66.Colink.EspRun

/-! When the receiver of `esp_touch.c` may finish. It counts accepted data and
stops at `password_len + 9`; that they are the first `password_len + 9` bytes is
not checked. -/
namespace Sv6x66.Colink.EspFinish
open Sv6x66.Lib Function EspTouch EspRun

/-- The datum with a correct CRC that a frame completes. -/
def datumOf (s : Smnt) : Event → Option Datum
  | .frame f =>
    if Takes s f then (takePacket s f.pDest f.length).bind fun r => completed r.1 r.2 else none
  | .tick => none

/-- `password_len` with this datum. -/
def passwordLenWith (s : Smnt) (d : Datum) : UInt8 := if d.index = 1 then d.value else s.passwordLen

/-- A datum that is accepted is of a new index and, with the password length
known, no index is beyond the password. -/
def Sound (s : Sys) (event : Event) : Prop :=
  ∀ d ∈ datumOf s.smnt event, payloadAt s.smnt d.index.toNat = 0 →
    (∀ r ∈ s.received, r.index ≠ d.index) ∧
      (passwordLenWith s.smnt d ≠ 0 →
        ∀ i ∈ d.index :: s.received.map Received.index,
          i.toNat < (passwordLenWith s.smnt d).toNat + espPasswordOff)

instance (s : Sys) (event : Event) : Decidable (Sound s event) :=
  inferInstanceAs (Decidable (∀ d ∈ datumOf s.smnt event, payloadAt s.smnt d.index.toNat = 0 → _))

/-- The indices of the data with a correct CRC. -/
def indices (received : List Received) : Finset Nat :=
  (received.map fun r => r.index.toNat).toFinset

theorem mem_indices {received : List Received} {i : Nat} :
    i ∈ indices received ↔ ∃ r ∈ received, r.index.toNat = i := by
  simp [indices]

theorem indices_append (received : List Received) (r : Received) :
    indices (received ++ [r]) = insert r.index.toNat (indices received) := by
  ext i
  simp only [mem_indices, Finset.mem_insert, List.mem_append, List.mem_singleton]
  constructor
  · rintro ⟨x, hx | rfl, rfl⟩
    · exact Or.inr ⟨x, hx, rfl⟩
    · exact Or.inl rfl
  · rintro (rfl | ⟨x, hx, rfl⟩)
    · exact ⟨r, Or.inr rfl, rfl⟩
    · exact ⟨x, Or.inl hx, rfl⟩

/-- The counter counts the indices received, each entered with the value it was
first received with. -/
structure Counted (s : Sys) : Prop where
  bound : ∀ i ∈ indices s.received, i < 128
  entered : ∀ i : Fin 128, s.smnt.payloadMulticast i ≠ 0 → (i : Nat) ∈ indices s.received
  value : ∀ i ∈ indices s.received,
    ∃ r ∈ s.received, r.index.toNat = i ∧ r.value = payloadAt s.smnt i
  count : s.smnt.index.toNat = (indices s.received).card
  finish : s.smnt.state = .finish → Finished s.smnt ∧
    ∀ i ∈ indices s.received, i < s.smnt.passwordLen.toNat + espPasswordOff

theorem payloadAt_of_lt {s : Smnt} {i : Nat} (h : i < 128) :
    payloadAt s i = s.payloadMulticast ⟨i, h⟩ := by
  unfold payloadAt
  rw [dif_pos h]

theorem payloadAt_congr {s t : Smnt} (h : t.payloadMulticast = s.payloadMulticast) (i : Nat) :
    payloadAt t i = payloadAt s i := by
  unfold payloadAt
  rw [h]

/-! ### A datum that is entered -/

theorem datumOf_take {s taken : Smnt} {f : Frame} {packet : Packet} {d : Datum}
    (htakes : Takes s f) (htook : takePacket s f.pDest f.length = some (packet, taken))
    (hlast : packet = .last) (hcheck : checkDatum taken.packetData = some d) :
    datumOf s (.frame f) = some d := by
  simp only [datumOf, completed]
  rw [if_pos htakes, htook, Option.bind_some, if_pos hlast, hcheck]

theorem take_of_datumOf {s : Smnt} {f : Frame} {d : Datum} (h : datumOf s (.frame f) = some d) :
    Takes s f ∧ ∀ packet taken, takePacket s f.pDest f.length = some (packet, taken) →
      packet = .last ∧ checkDatum taken.packetData = some d := by
  unfold datumOf at h
  by_cases htakes : Takes s f
  · refine ⟨htakes, fun packet taken htook => ?_⟩
    simp only [htakes, htook, if_true, Option.bind_some, completed] at h
    split at h
    · exact ⟨‹_›, h⟩
    · cases h
  · simp only [htakes, if_false] at h
    cases h

theorem slot_eq_one_iff (d : Datum) (hd : d.index.toNat < 128) :
    (⟨d.index.toNat, hd⟩ : Fin 128) = 1 ↔ d.index = 1 := by
  rw [Fin.ext_iff, ← UInt8.toNat_inj]
  rfl

theorem storeDatum_passwordLen (s : Smnt) (d : Datum) (hd : d.index.toNat < 128) :
    (storeDatum s ⟨_, hd⟩ d.value).passwordLen = passwordLenWith s d := by
  change (if (⟨d.index.toNat, hd⟩ : Fin 128) = 1 then d.value else s.passwordLen) = _
  simp only [slot_eq_one_iff, passwordLenWith]

theorem storeDatum_finish_iff {s : Smnt} (h : s.state ≠ .finish) (i : Fin 128) (value : UInt8) :
    (storeDatum s i value).state = .finish ↔ Finished (storeDatum s i value) := by
  change (if Finished (enterDatum s i value) then SmntStatus.finish else s.state) = .finish ↔
    Finished (enterDatum s i value)
  split
  · exact iff_of_true rfl ‹_›
  · exact iff_of_false h ‹_›

/-- What entering a datum changes of what the receiver has. -/
structure Entered (s : Smnt) (d : Datum) (hd : d.index.toNat < 128) (t : Smnt) : Prop where
  payload : t.payloadMulticast = update s.payloadMulticast ⟨_, hd⟩ d.value
  passwordLen : t.passwordLen = passwordLenWith s d
  index : t.index = s.index + 1
  finish : t.state = .finish ↔ Finished t

theorem entered_storeDatum {s taken : Smnt} {d : Datum} (hd : d.index.toNat < 128)
    (hkept : Kept s taken) (hstate : s.state ≠ .finish) :
    Entered s d hd { storeDatum taken ⟨_, hd⟩ d.value with groupAddr := 0xFF } where
  payload := by
    rw [← hkept.payload]
    rfl
  passwordLen := by
    rw [passwordLenWith, ← hkept.passwordLen]
    exact storeDatum_passwordLen taken d hd
  index := by
    rw [← hkept.index]
    rfl
  finish := storeDatum_finish_iff (hkept.state ▸ hstate) _ _

/-- A byte that is entered is the one of the datum, or was there before. -/
theorem Entered.mem_insert {s t : Smnt} {d : Datum} {hd : d.index.toNat < 128}
    {received : Finset Nat} (h : Entered s d hd t)
    (hbefore : ∀ i : Fin 128, s.payloadMulticast i ≠ 0 → (i : Nat) ∈ received) (i : Fin 128)
    (hi : t.payloadMulticast i ≠ 0) : (i : Nat) ∈ insert d.index.toNat received := by
  by_cases heq : i = ⟨_, hd⟩
  · rw [heq]
    exact Finset.mem_insert_self ..
  · rw [h.payload, update_of_ne heq] at hi
    exact Finset.mem_insert_of_mem (hbefore i hi)

namespace Counted

variable {s t : Sys}

/-- The same data, in a state that is not the end unless it was. -/
theorem same (h : Counted s) (hpayload : t.smnt.payloadMulticast = s.smnt.payloadMulticast)
    (hindex : t.smnt.index = s.smnt.index) (hpassword : t.smnt.passwordLen = s.smnt.passwordLen)
    (hreceived : t.received = s.received)
    (hstate : t.smnt.state = .finish → s.smnt.state = .finish) : Counted t := by
  constructor
  · rw [hreceived]
    exact h.bound
  · rw [hreceived, hpayload]
    exact h.entered
  · rw [hreceived]
    intro i hi
    rw [payloadAt_congr hpayload]
    exact h.value i hi
  · rw [hreceived, hindex]
    exact h.count
  · intro hfinish
    obtain ⟨hfinished, hall⟩ := h.finish (hstate hfinish)
    unfold Finished at *
    rw [hreceived, hpassword, hindex]
    exact ⟨hfinished, hall⟩

/-- A datum of an index that is entered changes nothing. -/
theorem known (h : Counted s) {d : Datum} (hd : d.index.toNat < 128) {origins : List Origin}
    (hentered : s.smnt.payloadMulticast ⟨_, hd⟩ ≠ 0)
    (hpayload : t.smnt.payloadMulticast = s.smnt.payloadMulticast)
    (hindex : t.smnt.index = s.smnt.index)
    (hreceived : t.received = s.received ++ [⟨d.index, d.value, origins⟩])
    (hstate : t.smnt.state ≠ .finish) : Counted t := by
  have hold : indices t.received = indices s.received := by
    rw [hreceived, indices_append, Finset.insert_eq_of_mem]
    exact h.entered _ hentered
  constructor
  · rw [hold]
    exact h.bound
  · rw [hold, hpayload]
    exact h.entered
  · rw [hold]
    intro i hi
    obtain ⟨r, hr, hri, hvalue⟩ := h.value i hi
    refine ⟨r, ?_, hri, hvalue.trans (payloadAt_congr hpayload i).symm⟩
    rw [hreceived]
    exact List.mem_append_left _ hr
  · rw [hold, hindex]
    exact h.count
  · exact fun hfinish => absurd hfinish hstate

/-- A datum of a new index counts. -/
theorem stored (h : Counted s) {d : Datum} (hd : d.index.toNat < 128) {origins : List Origin}
    (hentered : Entered s.smnt d hd t.smnt) (hnew : ∀ r ∈ s.received, r.index ≠ d.index)
    (hall : passwordLenWith s.smnt d ≠ 0 → ∀ i ∈ d.index :: s.received.map Received.index,
      i.toNat < (passwordLenWith s.smnt d).toNat + espPasswordOff)
    (hreceived : t.received = s.received ++ [⟨d.index, d.value, origins⟩]) : Counted t := by
  have hindices : indices t.received = insert d.index.toNat (indices s.received) := by
    rw [hreceived, indices_append]
  have hfresh : d.index.toNat ∉ indices s.received := by
    intro hmem
    obtain ⟨r, hr, heq⟩ := mem_indices.mp hmem
    exact hnew r hr (UInt8.toNat_inj.mp heq)
  have hcard : (indices s.received).card < 2 ^ 16 - 1 := by
    have hsub : indices s.received ⊆ Finset.range 128 := by
      intro i hi
      exact Finset.mem_range.mpr (h.bound i hi)
    have := Finset.card_le_card hsub
    rw [Finset.card_range] at this
    omega
  have hcount : t.smnt.index.toNat = (indices t.received).card := by
    rw [hentered.index, hindices, Finset.card_insert_of_notMem hfresh, UInt16.toNat_add, h.count,
      UInt16.toNat_one]
    omega
  constructor
  · rw [hindices]
    intro i hi
    rcases Finset.mem_insert.mp hi with rfl | hold
    · exact hd
    · exact h.bound i hold
  · rw [hindices]
    exact hentered.mem_insert h.entered
  · rw [hindices]
    intro i hi
    by_cases heq : i = d.index.toNat
    · subst heq
      refine ⟨⟨d.index, d.value, origins⟩, ?_, rfl, ?_⟩
      · rw [hreceived]
        simp
      · rw [payloadAt_of_lt hd, hentered.payload, update_self]
    · have hold : i ∈ indices s.received := Finset.mem_of_mem_insert_of_ne hi heq
      obtain ⟨r, hr, hri, hvalue⟩ := h.value i hold
      refine ⟨r, ?_, hri, ?_⟩
      · rw [hreceived]
        exact List.mem_append_left _ hr
      · have hbound := h.bound i hold
        have hne : (⟨i, hbound⟩ : Fin 128) ≠ ⟨_, hd⟩ := fun h => heq (congrArg Fin.val h)
        rw [hvalue, payloadAt_of_lt hbound, payloadAt_of_lt hbound, hentered.payload,
          update_of_ne hne]
  · exact hcount
  · intro hfinish
    have hfinished := hentered.finish.mp hfinish
    refine ⟨hfinished, ?_⟩
    rw [hindices, hentered.passwordLen]
    have hne : passwordLenWith s.smnt d ≠ 0 := hentered.passwordLen ▸ hfinished.1
    intro i hi
    rcases Finset.mem_insert.mp hi with rfl | hold
    · exact hall hne d.index (List.mem_cons_self ..)
    · obtain ⟨r, hr, rfl⟩ := mem_indices.mp hold
      exact hall hne r.index (List.mem_cons_of_mem _ (List.mem_map_of_mem hr))

theorem step (h : Counted s) {event : Event} (hsound : Sound s event) (hnext : Next s event t) :
    Counted t := by
  cases hnext with
  | tick =>
    obtain ⟨hdata, hstate⟩ := cyclecall_spec s.smnt
    refine h.same hdata.payload hdata.index hdata.passwordLen rfl fun hfinish => ?_
    rcases hstate with ⟨skip, probability, heq⟩ | ⟨-, hlocking⟩
    · rw [heq] at hfinish
      exact hfinish
    · rw [hlocking] at hfinish
      cases hfinish
  | skip f hnot => exact h
  | search f smnt hlocked hnot hlocking hdata =>
    refine h.same hdata.payload hdata.index hdata.passwordLen rfl fun hfinish => ?_
    rw [hlocking] at hfinish
    cases hfinish
  | lock f smnt hlocking hsmnt hlock =>
    refine h.same hlock.payload hlock.index hlock.passwordLen rfl fun hfinish => ?_
    rw [hlock.locked] at hfinish
    cases hfinish
  | take f packet taken smnt received htakes hsmnt htook htake =>
    have hkept := (takePacket_spec htook).kept
    have hlocked : s.smnt.state ≠ .finish := by
      rw [htakes.1]
      decide
    have hstate : taken.state ≠ .finish := hkept.state ▸ hlocked
    cases htake with
    | kept => exact h.same hkept.payload hkept.index hkept.passwordLen rfl fun hfinish => absurd hfinish hstate
    | unchecked => exact h.same hkept.payload hkept.index hkept.passwordLen rfl fun hfinish => absurd hfinish hstate
    | known d hd _ hcheck hentered => exact h.known hd hentered hkept.payload hkept.index rfl hstate
    | stored d hd hlast hcheck hfree =>
      have hdatum := datumOf_take htakes htook hlast hcheck
      have hzero : payloadAt s.smnt d.index.toNat = 0 := by
        rw [payloadAt_of_lt hd, hfree]
      obtain ⟨hnew, hall⟩ := hsound d hdatum hzero
      exact h.stored hd (entered_storeDatum hd hkept hlocked) hnew hall rfl

end Counted

theorem counted_of_run {events : List Event} {s : Sys}
    (hrun : Run step Sound initial events s) : Counted s := by
  refine hrun.invariant ?_ fun s event t hs hsound hstep => hs.step hsound (next_spec hstep)
  constructor
  · intro i hi
    simp [indices, initial] at hi
  · intro i hi
    exact absurd rfl hi
  · intro i hi
    simp [indices, initial] at hi
  · rfl
  · intro hfinish
    cases hfinish

/-- Every byte up to the end of the password came in a datum with a correct CRC. -/
def Complete (s : Sys) : Prop :=
  s.smnt.state = .finish → ∀ i < s.smnt.passwordLen.toNat + espPasswordOff,
    ∃ r ∈ s.received, r.index.toNat = i ∧ r.value = payloadAt s.smnt i

theorem complete_of_run (events : List Event) (s : Sys)
    (hrun : Run step Sound initial events s) : Complete s := by
  have h := counted_of_run hrun
  intro hfinish i hi
  obtain ⟨⟨-, hcount⟩, hall⟩ := h.finish hfinish
  have hsub : indices s.received ⊆
      Finset.range (s.smnt.passwordLen.toNat + espPasswordOff) := by
    intro j hj
    exact Finset.mem_range.mpr (hall j hj)
  have heq := Finset.eq_of_subset_of_card_le hsub (by rw [Finset.card_range, ← hcount, h.count])
  apply h.value
  rw [heq]
  exact Finset.mem_range.mpr hi

/-- The guide of a phone, and its data in this order. -/
def sendAll (phone : EspDecode.Phone) (bytes : List UInt8) (sends : List EspDecode.Send) :
    List Event :=
  (EspDecode.guideFrames phone 1 ++ sends.flatMap (EspDecode.datumFrames phone bytes)).map .frame

theorem complete_of_run_short :
    ∃ s, Run step Sound initial
        (sendAll EspDecode.somePhone EspDecode.shortPayload EspDecode.inOrder) s ∧
      s.smnt.state = .finish ∧ Complete s := by
  have hexec : (exec (guarded step fun s event => decide (Sound s event)) initial
      (sendAll EspDecode.somePhone EspDecode.shortPayload EspDecode.inOrder)).any
      fun s => decide (s.smnt.state = .finish) := by
    decide +kernel
  obtain ⟨s, hs, hfinish⟩ := (Option.any_eq_true _ _).mp hexec
  have hrun := (Run.of_exec_guarded hs).mono fun s event h => of_decide_eq_true h
  exact ⟨s, hrun, of_decide_eq_true hfinish, complete_of_run _ s hrun⟩

/-- A payload with an SSID behind the password, and a pass that loses datum 5. -/
def longPayload : List UInt8 := [12, 1, 33, 44, 55, 66, 77, 88, 99, 110, 121, 132]

def lossy : List EspDecode.Send :=
  [0, 1, 2, 3, 4, 6, 7, 8, 9, 10].map fun i => ⟨i, UInt8.ofNat (i + 1)⟩

/-- Datum 10 is counted in place of datum 5, a byte of the source address. -/
theorem finish_early :
    ∃ s, Run step anyStep initial (sendAll EspDecode.somePhone longPayload lossy) s ∧
      s.smnt.state = .finish ∧ ¬ Complete s := by
  have hexec : (exec step initial (sendAll EspDecode.somePhone longPayload lossy)).any fun s =>
      decide (s.smnt.state = .finish ∧ s.smnt.passwordLen = 1 ∧
        ∀ r ∈ s.received, r.index.toNat ≠ 5) := by
    decide +kernel
  obtain ⟨s, hs, hfacts⟩ := (Option.any_eq_true _ _).mp hexec
  obtain ⟨hfinish, hlen, hnever⟩ := of_decide_eq_true hfacts
  refine ⟨s, Run.of_exec hs, hfinish, fun hcomplete => ?_⟩
  obtain ⟨r, hr, hindex, -⟩ := hcomplete hfinish 5 (by rw [hlen]; decide)
  exact hnever r hr hindex

end Sv6x66.Colink.EspFinish
