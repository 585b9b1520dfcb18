import Sv6x66.Colink.EspTouch
import Sv6x66.Lib.Run

/-! Runs of the receiver of `esp_touch.c` over frames and ticks. Beside the
receiver, a run keeps where each packet came from, the data with a correct CRC,
and what the last lock began. -/
namespace Sv6x66.Colink.EspRun
open Sv6x66.Lib Function EspTouch

/-- Source and BSSID of a packet. -/
structure Origin where
  src : Mac
  bssid : Mac

/-- A datum with a correct CRC, and the origins of its packets. -/
structure Received where
  index : UInt8
  value : UInt8
  origins : List Origin

/-- The receiver at a lock, and the frames taken since. -/
structure Session where
  start : Smnt
  frames : List Frame

/-- The phone locked on. -/
def Session.origin (session : Session) : Origin :=
  ⟨session.start.syncAppMac, session.start.syncBssid⟩

/-- The three packets of the datum came from here. -/
def Received.From (r : Received) (origin : Origin) : Prop := r.origins = List.replicate 3 origin

theorem Received.from_iff (r : Received) (origin : Origin) :
    (r.origins.length = 3 ∧ ∀ o ∈ r.origins, o.src = origin.src ∧ o.bssid = origin.bssid) ↔
      r.From origin := by
  unfold Received.From
  rw [List.eq_replicate_iff]
  apply and_congr_right
  intro _
  apply forall₂_congr
  intro o _
  cases o
  cases origin
  simp

instance (r : Received) (origin : Origin) : Decidable (r.From origin) :=
  decidable_of_iff _ (r.from_iff origin)

structure Sys where
  smnt : Smnt
  /-- The origins of the packets of the datum under way. -/
  origins : List Origin
  received : List Received
  session : Option Session

inductive Event where
  | frame (f : Frame)
  | tick

def initial : Sys := ⟨esptouchSmntInit, [], [], none⟩

/-- The frame goes to `esptouch_smnt_muticastadd`. -/
def Takes (s : Smnt) (f : Frame) : Prop :=
  s.state = .locked ∧ MacMulticast f.pDest ∧ f.pSrc = s.syncAppMac

instance (s : Smnt) (f : Frame) : Decidable (Takes s f) :=
  inferInstanceAs (Decidable (_ ∧ _ ∧ _))

def Frame.origin (f : Frame) : Origin := ⟨f.pSrc, f.pBssid⟩

def originsAfter (origins : List Origin) (f : Frame) : Packet → List Origin
  | .ignored => origins
  | .first => [Frame.origin f]
  | .next => origins ++ [Frame.origin f]
  | .last => origins ++ [Frame.origin f]

/-- The datum that a packet completes. -/
def completed (packet : Packet) (taken : Smnt) : Option Datum :=
  if packet = .last then checkDatum taken.packetData else none

def receivedAfter (received : List Received) (origins : List Origin) (datum : Option Datum) :
    List Received :=
  received ++ (datum.map fun d => ⟨d.index, d.value, origins⟩).toList

def sessionAfter (s smnt : Smnt) (session : Option Session) : Option Session :=
  if s.state = .locking ∧ smnt.state = .locked then some ⟨smnt, []⟩ else session

def stepFrame (s : Sys) (f : Frame) : Option Sys := do
  let smnt ← esptouchSmntDatahandler s.smnt f
  if Takes s.smnt f then
    let (packet, taken) ← takePacket s.smnt f.pDest f.length
    let origins := originsAfter s.origins f packet
    pure {
      smnt
      origins
      received := receivedAfter s.received origins (completed packet taken)
      session := s.session.map fun session => { session with frames := session.frames ++ [f] } }
  else pure { s with smnt, session := sessionAfter s.smnt smnt s.session }

def step (s : Sys) : Event → Option Sys
  | .frame f => stepFrame s f
  | .tick => some { s with smnt := esptouchSmntCyclecall s.smnt }

/-! ### What a packet does -/

/-- The transitions of `takePacket`. -/
inductive Took (s : Smnt) (pAddr : Mac) : Packet → Smnt → Prop where
  | ignored (probability : UInt8) :
      Took s pAddr .ignored { s with chCurrentProbability := probability }
  | first (probability : UInt8) (code : UInt16) : s.groupAddr ≠ pAddr 3 →
      Took s pAddr .first { s with
        chCurrentProbability := probability
        packetData := update s.packetData 0 code
        groupAddr := pAddr 3
        packetCount := 1 }
  | next (probability : UInt8) (code : UInt16) (slot : Fin 3) : s.groupAddr = pAddr 3 →
      s.packetCount.toNat = slot → slot ≠ 2 →
      Took s pAddr .next { s with
        chCurrentProbability := probability
        packetData := update s.packetData slot code
        packetCount := s.packetCount + 1 }
  | last (probability : UInt8) (code : UInt16) (slot : Fin 3) : s.groupAddr = pAddr 3 →
      s.packetCount.toNat = slot → slot = 2 →
      Took s pAddr .last { s with
        chCurrentProbability := probability
        packetData := update s.packetData slot code
        packetCount := s.packetCount + 1 }

theorem takePacket_spec {s taken : Smnt} {pAddr : Mac} {length : Int} {packet : Packet}
    (h : takePacket s pAddr length = some (packet, taken)) : Took s pAddr packet taken := by
  unfold takePacket at h
  split at h
  · cases h
    exact .ignored s.chCurrentProbability
  · dsimp only at h
    split at h
    · cases h
      exact .ignored _
    · split at h
      · rename_i hgroup
        split at h
        · rename_i hlt
          have hslot : (holdChannel s).packetCount = s.packetCount := rfl
          split at h
          · cases h
            exact .ignored _
          · by_cases htwo : s.packetCount.toNat = 2
            · have hlast : (s.packetCount + 1).toNat = dataPacketNum := by
                rw [UInt8.toNat_add, htwo]
                rfl
              simp only [hslot, hlast, if_true] at h
              cases h
              exact .last _ _ ⟨_, hlt⟩ hgroup rfl (Fin.ext htwo)
            · have hlast : ¬ (s.packetCount + 1).toNat = dataPacketNum := by
                rw [hslot] at hlt
                rw [UInt8.toNat_add, UInt8.toNat_one]
                simp only [dataPacketNum]
                omega
              simp only [hslot, hlast, if_false] at h
              cases h
              exact .next _ _ ⟨_, hlt⟩ hgroup rfl fun heq => htwo (congrArg Fin.val heq)
        · cases h
      · cases h
        exact .first _ _ ‹_›

/-- A packet enters nothing. -/
structure Kept (s t : Smnt) : Prop where
  payload : t.payloadMulticast = s.payloadMulticast
  index : t.index = s.index
  passwordLen : t.passwordLen = s.passwordLen
  state : t.state = s.state

theorem Took.kept {s taken : Smnt} {pAddr : Mac} {packet : Packet}
    (h : Took s pAddr packet taken) : Kept s taken := by
  cases h <;> exact ⟨rfl, rfl, rfl, rfl⟩

theorem datahandler_takes {s : Smnt} {f : Frame} (h : Takes s f) :
    esptouchSmntDatahandler s f = esptouchSmntMuticastadd s f.pDest f.length := by
  obtain ⟨hlocked, hmulticast, hsrc⟩ := h
  unfold esptouchSmntDatahandler
  simp [hlocked, hmulticast, hsrc]

theorem muticastadd_eq {s taken : Smnt} {pAddr : Mac} {length : Int} {packet : Packet}
    (h : takePacket s pAddr length = some (packet, taken)) :
    esptouchSmntMuticastadd s pAddr length =
      if packet = .last then (acceptDatum taken).map fun t => { t with groupAddr := 0xFF }
      else some taken := by
  unfold esptouchSmntMuticastadd
  rw [h]
  simp only [Option.bind_eq_bind, Option.bind_some]
  split
  · rw [Option.map_eq_bind]
    rfl
  · rfl

/-! ### What a frame does that is not taken -/

/-- The payload and what it is entered with. -/
structure SameData (s t : Smnt) : Prop where
  payload : t.payloadMulticast = s.payloadMulticast
  index : t.index = s.index
  passwordLen : t.passwordLen = s.passwordLen
  totalLen : t.totalLen = s.totalLen
  packetData : t.packetData = s.packetData

/-- The frame completes the guide. -/
structure LockedBy (s : Smnt) (f : Frame) (t : Smnt) : Prop extends SameData s t where
  locked : t.state = .locked
  closed : t.groupAddr = 0xFF
  full : 3 ≤ t.packetCount.toNat
  source : t.syncAppMac = f.pSrc
  bssid : t.syncBssid = f.pBssid

theorem shiftOut_le (rounds diff : Nat) : (shiftOut rounds diff).1 ≤ diff := by
  induction rounds generalizing diff with
  | zero => exact le_refl diff
  | succ rounds ih =>
    unfold shiftOut
    split
    · exact (ih (diff / 2)).trans (Nat.div_le_self diff 2)
    · exact le_refl diff

theorem guideAgain_spec {s : Smnt} {f : Frame} (hlocking : s.state = .locking)
    (hsrc : f.pSrc = s.syncAppMac) (length : Nat) :
    ((guideAgain s f.pBssid length).state = .locking ∧
      SameData s (guideAgain s f.pBssid length)) ∨
    LockedBy s f (guideAgain s f.pBssid length) := by
  unfold guideAgain
  dsimp only
  split
  · split
    · rename_i hguide
      have hle := shiftOut_le 8 (s.packetCount ||| guideBit s.offsetLen length).toNat
      right
      refine ⟨⟨rfl, rfl, rfl, rfl, rfl⟩, rfl, rfl, ?_, hsrc.symm, rfl⟩
      change 3 ≤ (s.packetCount ||| guideBit s.offsetLen length).toNat
      omega
    · exact Or.inl ⟨hlocking, rfl, rfl, rfl, rfl, rfl⟩
  · exact Or.inl ⟨hlocking, rfl, rfl, rfl, rfl, rfl⟩

theorem guidePacket_spec {s : Smnt} {f : Frame} (hlocking : s.state = .locking)
    (hsrc : f.pSrc = s.syncAppMac) :
    ((guidePacket s f.pDest f.pBssid f.length).state = .locking ∧
      SameData s (guidePacket s f.pDest f.pBssid f.length)) ∨
    LockedBy s f (guidePacket s f.pDest f.pBssid f.length) := by
  unfold guidePacket
  split
  · split
    · rcases guideAgain_spec hlocking hsrc f.length with ⟨hstate, hdata⟩ | hlock
      · exact Or.inl ⟨hstate, hdata.payload, hdata.index, hdata.passwordLen, hdata.totalLen,
          hdata.packetData⟩
      · exact Or.inr ⟨⟨hlock.payload, hlock.index, hlock.passwordLen, hlock.totalLen,
          hlock.packetData⟩, hlock.locked, hlock.closed, hlock.full, hlock.source, hlock.bssid⟩
    · exact Or.inl ⟨hlocking, rfl, rfl, rfl, rfl, rfl⟩
  · exact Or.inl ⟨hlocking, rfl, rfl, rfl, rfl, rfl⟩

/-- A frame that is not taken does nothing, keeps looking for a lock, or locks. -/
theorem datahandler_untaken {s t : Smnt} {f : Frame} (h : esptouchSmntDatahandler s f = some t)
    (hnot : ¬ Takes s f) :
    t = s ∨
    (s.state ≠ .locked ∧ s.state ≠ .finish ∧ t.state = .locking ∧ SameData s t) ∨
    (s.state = .locking ∧ LockedBy s f t) := by
  unfold esptouchSmntDatahandler at h
  split at h
  · cases h
    exact Or.inl rfl
  · rename_i hfinish
    split at h
    · cases h
      exact Or.inl rfl
    · rename_i hmulticast
      split at h
      · rename_i hlocking
        have hlocked : s.state ≠ .locked := by
          rw [hlocking]
          decide
        split at h
        · rename_i hsrc
          cases h
          split
          · rcases guidePacket_spec hlocking hsrc with hsearch | hlock
            · exact Or.inr (Or.inl ⟨hlocked, hfinish, hsearch⟩)
            · exact Or.inr (Or.inr ⟨hlocking, hlock⟩)
          · exact Or.inl rfl
        · cases h
          right
          left
          refine ⟨hlocked, hfinish, ?_⟩
          split
          · exact ⟨hlocking, rfl, rfl, rfl, rfl, rfl⟩
          · exact ⟨hlocking, rfl, rfl, rfl, rfl, rfl⟩
      · split at h
        · rename_i hlocked
          split at h
          · cases h
            exact Or.inl rfl
          · rename_i hsrc
            exact absurd ⟨hlocked, not_not.mp hmulticast, not_not.mp hsrc⟩ hnot
        · cases h
          exact Or.inr (Or.inl ⟨‹_›, hfinish, rfl, rfl, rfl, rfl, rfl, rfl⟩)

theorem cyclecall_spec (s : Smnt) :
    SameData s (esptouchSmntCyclecall s) ∧
      ((∃ skip probability, esptouchSmntCyclecall s =
          { s with directTimerSkip := skip, chCurrentProbability := probability }) ∨
        (s.state ≠ .finish ∧ (esptouchSmntCyclecall s).state = .locking)) := by
  unfold esptouchSmntCyclecall
  split
  · exact ⟨⟨rfl, rfl, rfl, rfl, rfl⟩, Or.inl ⟨_, s.chCurrentProbability, rfl⟩⟩
  · split
    · exact ⟨⟨rfl, rfl, rfl, rfl, rfl⟩, Or.inl ⟨_, s.chCurrentProbability, rfl⟩⟩
    · split
      · exact ⟨⟨rfl, rfl, rfl, rfl, rfl⟩, Or.inl ⟨s.directTimerSkip, _, rfl⟩⟩
      · exact ⟨⟨rfl, rfl, rfl, rfl, rfl⟩, Or.inr ⟨‹_›, rfl⟩⟩

/-! ### The transitions of a run -/

def sessionTaking (session : Option Session) (f : Frame) : Option Session :=
  session.map fun session => { session with frames := session.frames ++ [f] }

/-- A taken frame and what becomes of it. -/
inductive Take (s : Sys) (f : Frame) (packet : Packet) (taken : Smnt) : Smnt → List Received → Prop
    where
  | kept : packet ≠ .last → Take s f packet taken taken s.received
  | unchecked : packet = .last → checkDatum taken.packetData = none →
      Take s f packet taken { taken with groupAddr := 0xFF } s.received
  | known (d : Datum) (h : d.index.toNat < 128) : packet = .last →
      checkDatum taken.packetData = some d → s.smnt.payloadMulticast ⟨_, h⟩ ≠ 0 →
      Take s f packet taken { taken with groupAddr := 0xFF }
        (s.received ++ [⟨d.index, d.value, originsAfter s.origins f .last⟩])
  | stored (d : Datum) (h : d.index.toNat < 128) : packet = .last →
      checkDatum taken.packetData = some d → s.smnt.payloadMulticast ⟨_, h⟩ = 0 →
      Take s f packet taken { storeDatum taken ⟨_, h⟩ d.value with groupAddr := 0xFF }
        (s.received ++ [⟨d.index, d.value, originsAfter s.origins f .last⟩])

/-- The transitions of a run. -/
inductive Next (s : Sys) : Event → Sys → Prop where
  | tick : Next s .tick { s with smnt := esptouchSmntCyclecall s.smnt }
  | skip (f : Frame) : ¬ Takes s.smnt f → Next s (.frame f) s
  | search (f : Frame) (smnt : Smnt) : s.smnt.state ≠ .locked → s.smnt.state ≠ .finish →
      smnt.state = .locking → SameData s.smnt smnt → Next s (.frame f) { s with smnt }
  | lock (f : Frame) (smnt : Smnt) : s.smnt.state = .locking →
      esptouchSmntDatahandler s.smnt f = some smnt → LockedBy s.smnt f smnt →
      Next s (.frame f) { s with smnt, session := some ⟨smnt, []⟩ }
  | take (f : Frame) (packet : Packet) (taken smnt : Smnt) (received : List Received) :
      Takes s.smnt f → esptouchSmntMuticastadd s.smnt f.pDest f.length = some smnt →
      takePacket s.smnt f.pDest f.length = some (packet, taken) → Take s f packet taken smnt received →
      Next s (.frame f)
        ⟨smnt, originsAfter s.origins f packet, received, sessionTaking s.session f⟩

theorem take_spec {s : Sys} {f : Frame} {packet : Packet} {taken smnt : Smnt}
    (htook : takePacket s.smnt f.pDest f.length = some (packet, taken))
    (h : esptouchSmntMuticastadd s.smnt f.pDest f.length = some smnt) :
    Take s f packet taken smnt (receivedAfter s.received (originsAfter s.origins f packet)
      (completed packet taken)) := by
  have hpayload := (takePacket_spec htook).kept.payload
  rw [muticastadd_eq htook] at h
  unfold completed
  by_cases hlast : packet = .last
  · subst hlast
    simp only [if_true] at h ⊢
    unfold acceptDatum at h
    cases hcheck : checkDatum taken.packetData with
    | none =>
      rw [hcheck] at h
      cases h
      simp only [receivedAfter, Option.map_none, Option.toList_none, List.append_nil]
      exact .unchecked rfl hcheck
    | some d =>
      rw [hcheck] at h
      dsimp only at h
      split at h
      · rename_i hindex
        simp only [Option.map_some, Option.some.injEq, hpayload] at h
        subst h
        split
        · exact .stored d hindex rfl hcheck ‹_›
        · exact .known d hindex rfl hcheck ‹_›
      · cases h
  · simp only [if_neg hlast, Option.some.injEq] at h ⊢
    subst h
    simp only [receivedAfter, Option.map_none, Option.toList_none, List.append_nil]
    exact .kept hlast

theorem next_spec {s t : Sys} {event : Event} (h : step s event = some t) : Next s event t := by
  cases event with
  | tick =>
    cases h
    exact .tick
  | frame f =>
    obtain ⟨smnt, hsmnt, hrest⟩ := Option.bind_eq_some_iff.mp h
    by_cases htakes : Takes s.smnt f
    · rw [if_pos htakes] at hrest
      obtain ⟨⟨packet, taken⟩, htook, heq⟩ := Option.bind_eq_some_iff.mp hrest
      cases heq
      rw [datahandler_takes htakes] at hsmnt
      exact .take f packet taken smnt _ htakes hsmnt htook (take_spec htook hsmnt)
    · rw [if_neg htakes] at hrest
      cases hrest
      rcases datahandler_untaken hsmnt htakes with rfl | ⟨hlocked, hfinish, hstate, hdata⟩ |
        ⟨hlocking, hlock⟩
      · have hsession : sessionAfter s.smnt s.smnt s.session = s.session := by
          unfold sessionAfter
          rw [if_neg]
          rintro ⟨hlocking, hlocked⟩
          rw [hlocking] at hlocked
          cases hlocked
        rw [hsession]
        exact .skip f htakes
      · have hsession : sessionAfter s.smnt smnt s.session = s.session := by
          unfold sessionAfter
          rw [if_neg]
          rintro ⟨-, hafter⟩
          rw [hstate] at hafter
          cases hafter
        rw [hsession]
        exact .search f smnt hlocked hfinish hstate hdata
      · have hsession : sessionAfter s.smnt smnt s.session = some ⟨smnt, []⟩ := by
          unfold sessionAfter
          rw [if_pos ⟨hlocking, hlock.locked⟩]
        rw [hsession]
        exact .lock f smnt hlocking hsmnt hlock

/-! ### The password length -/

theorem take_passwordLen {s : Sys} {f : Frame} {packet : Packet} {taken smnt : Smnt}
    {received : List Received} (htake : Take s f packet taken smnt received)
    (h : taken.passwordLen = taken.payloadMulticast 1) :
    smnt.passwordLen = smnt.payloadMulticast 1 := by
  cases htake with
  | kept => exact h
  | unchecked => exact h
  | known d hd => exact h
  | stored d hd =>
    change (if (⟨d.index.toNat, hd⟩ : Fin 128) = 1 then d.value else taken.passwordLen) =
      update taken.payloadMulticast ⟨d.index.toNat, hd⟩ d.value 1
    split
    · rename_i heq
      rw [heq, update_self]
    · rename_i hne
      rw [update_of_ne (Ne.symm hne), h]

theorem passwordLen_step {s t : Sys} {event : Event}
    (h : s.smnt.passwordLen = s.smnt.payloadMulticast 1) (hnext : Next s event t) :
    t.smnt.passwordLen = t.smnt.payloadMulticast 1 := by
  cases hnext with
  | tick =>
    obtain ⟨hdata, -⟩ := cyclecall_spec s.smnt
    rw [hdata.passwordLen, hdata.payload, h]
  | skip f hnot => exact h
  | search f smnt hlocked hfinish hlocking hdata => exact hdata.payload ▸ hdata.passwordLen ▸ h
  | lock f smnt hlocking hsmnt hlock => exact hlock.payload ▸ hlock.passwordLen ▸ h
  | take f packet taken smnt received htakes hadd htook htake =>
    have hkept := (takePacket_spec htook).kept
    apply take_passwordLen htake
    rw [hkept.passwordLen, hkept.payload, h]

/-- `password_len` is the byte that `esptouch_smnt_finish` reads. -/
theorem passwordLen_of_run {allowed : Sys → Event → Prop} {events : List Event} {s : Sys}
    (hrun : Run step allowed initial events s) :
    s.smnt.passwordLen = s.smnt.payloadMulticast 1 :=
  hrun.invariant (I := fun s => s.smnt.passwordLen = s.smnt.payloadMulticast 1) rfl
    fun _ _ _ h _ hstep => passwordLen_step h (next_spec hstep)

end Sv6x66.Colink.EspRun
