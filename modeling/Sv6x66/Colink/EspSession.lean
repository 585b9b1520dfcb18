import Sv6x66.Colink.EspFinish

/-! What one lock of the receiver of `esp_touch.c` has to do with the next. The
payload, the counters and the overhead survive a channel hop and a change of the
source, and the BSSID of a packet is not compared with that of the lock. -/
namespace Sv6x66.Colink.EspSession
open Sv6x66.Lib Function EspTouch EspRun

/-! ### What the receiver is moved by -/

/-- The receivers take the same packets from here on. With three or more packets
counted the next packet begins a datum, so the first one is not read. -/
structure Agree (s t : Smnt) : Prop where
  state : s.state = t.state
  groupAddr : s.groupAddr = t.groupAddr
  offsetLen : s.offsetLen = t.offsetLen
  payload : s.payloadMulticast = t.payloadMulticast
  index : s.index = t.index
  passwordLen : s.passwordLen = t.passwordLen
  second : s.packetData 1 = t.packetData 1
  third : s.packetData 2 = t.packetData 2
  underway : (s.packetCount = t.packetCount ∧ s.packetData 0 = t.packetData 0) ∨
    (3 ≤ s.packetCount.toNat ∧ 3 ≤ t.packetCount.toNat)

theorem Agree.refl (s : Smnt) : Agree s s :=
  ⟨rfl, rfl, rfl, rfl, rfl, rfl, rfl, rfl, Or.inl ⟨rfl, rfl⟩⟩

theorem Agree.symm {s t : Smnt} (h : Agree s t) : Agree t s where
  state := h.state.symm
  groupAddr := h.groupAddr.symm
  offsetLen := h.offsetLen.symm
  payload := h.payload.symm
  index := h.index.symm
  passwordLen := h.passwordLen.symm
  second := h.second.symm
  third := h.third.symm
  underway := by
    rcases h.underway with ⟨hcount, hfirst⟩ | ⟨hs, ht⟩
    · exact Or.inl ⟨hcount.symm, hfirst.symm⟩
    · exact Or.inr ⟨ht, hs⟩

theorem Agree.trans {s t u : Smnt} (h : Agree s t) (h' : Agree t u) : Agree s u where
  state := h.state.trans h'.state
  groupAddr := h.groupAddr.trans h'.groupAddr
  offsetLen := h.offsetLen.trans h'.offsetLen
  payload := h.payload.trans h'.payload
  index := h.index.trans h'.index
  passwordLen := h.passwordLen.trans h'.passwordLen
  second := h.second.trans h'.second
  third := h.third.trans h'.third
  underway := by
    rcases h.underway with ⟨hcount, hfirst⟩ | ⟨hs, ht⟩
    · rcases h'.underway with ⟨hcount', hfirst'⟩ | ⟨ht, hu⟩
      · exact Or.inl ⟨hcount.trans hcount', hfirst.trans hfirst'⟩
      · exact Or.inr ⟨hcount ▸ ht, hu⟩
    · rcases h'.underway with ⟨hcount', -⟩ | ⟨-, hu⟩
      · exact Or.inr ⟨hs, hcount' ▸ ht⟩
      · exact Or.inr ⟨hs, hu⟩

instance (s t : Smnt) : Decidable (Agree s t) :=
  decidable_of_iff
    ((s.state = t.state ∧ s.groupAddr = t.groupAddr ∧ s.offsetLen = t.offsetLen ∧
      s.payloadMulticast = t.payloadMulticast ∧ s.index = t.index ∧
      s.passwordLen = t.passwordLen) ∧
      s.packetData 1 = t.packetData 1 ∧ s.packetData 2 = t.packetData 2 ∧
      ((s.packetCount = t.packetCount ∧ s.packetData 0 = t.packetData 0) ∨
        (3 ≤ s.packetCount.toNat ∧ 3 ≤ t.packetCount.toNat)))
    ⟨fun h => ⟨h.1.1, h.1.2.1, h.1.2.2.1, h.1.2.2.2.1, h.1.2.2.2.2.1, h.1.2.2.2.2.2, h.2.1,
        h.2.2.1, h.2.2.2⟩,
      fun h => ⟨⟨h.state, h.groupAddr, h.offsetLen, h.payload, h.index, h.passwordLen⟩,
        h.second, h.third, h.underway⟩⟩

namespace Agree

variable {s t : Smnt}

theorem holdChannel (h : Agree s t) : Agree (holdChannel s) (holdChannel t) :=
  ⟨h.state, h.groupAddr, h.offsetLen, h.payload, h.index, h.passwordLen, h.second, h.third,
    h.underway⟩

/-- With fewer than three packets counted all of them agree. -/
theorem counted (h : Agree s t) (hlt : s.packetCount.toNat < 3) :
    s.packetCount = t.packetCount ∧ s.packetData = t.packetData := by
  rcases h.underway with ⟨hcount, hfirst⟩ | ⟨hs, -⟩
  · refine ⟨hcount, ?_⟩
    funext i
    fin_cases i
    · exact hfirst
    · exact h.second
    · exact h.third
  · exact absurd hs (by omega)

theorem first (h : Agree s t) (group : UInt8) (code : UInt16) :
    Agree
      { s with packetData := update s.packetData 0 code, groupAddr := group, packetCount := 1 }
      { t with packetData := update t.packetData 0 code, groupAddr := group, packetCount := 1 } :=
  ⟨h.state, rfl, h.offsetLen, h.payload, h.index, h.passwordLen, h.second, h.third,
    Or.inl ⟨rfl, rfl⟩⟩

theorem next (h : Agree s t) (hlt : s.packetCount.toNat < 3) (slot : Fin 3) (code : UInt16) :
    Agree
      { s with packetData := update s.packetData slot code, packetCount := s.packetCount + 1 }
      { t with packetData := update t.packetData slot code, packetCount := t.packetCount + 1 } := by
  obtain ⟨hcount, hdata⟩ := h.counted hlt
  exact ⟨h.state, h.groupAddr, h.offsetLen, h.payload, h.index, h.passwordLen,
    congrArg (update · slot code 1) hdata, congrArg (update · slot code 2) hdata,
    Or.inl ⟨congrArg (· + 1) hcount, congrArg (update · slot code 0) hdata⟩⟩

theorem close (h : Agree s t) : Agree { s with groupAddr := 0xFF } { t with groupAddr := 0xFF } :=
  ⟨h.state, rfl, h.offsetLen, h.payload, h.index, h.passwordLen, h.second, h.third, h.underway⟩

theorem enterDatum (h : Agree s t) (i : Fin 128) (value : UInt8) :
    Agree (enterDatum s i value) (enterDatum t i value) := by
  refine ⟨h.state, h.groupAddr, h.offsetLen, ?_, congrArg (· + 1) h.index, ?_, h.second, h.third,
    h.underway⟩
  · change update s.payloadMulticast i value = update t.payloadMulticast i value
    rw [h.payload]
  · change (if i = 1 then value else s.passwordLen) = if i = 1 then value else t.passwordLen
    rw [h.passwordLen]

theorem finished (h : Agree s t) : Finished s ↔ Finished t := by
  unfold Finished
  rw [h.passwordLen, h.index]

theorem storeDatum (h : Agree s t) (i : Fin 128) (value : UInt8) :
    Agree (storeDatum s i value) (storeDatum t i value) := by
  have hentered := h.enterDatum i value
  refine ⟨?_, hentered.groupAddr, hentered.offsetLen, hentered.payload, hentered.index,
    hentered.passwordLen, hentered.second, hentered.third, hentered.underway⟩
  unfold EspTouch.storeDatum
  dsimp only
  simp only [hentered.finished, hentered.state]

/-- Related results: both or neither, and agreeing. -/
theorem acceptDatum (h : Agree s t) (hdata : s.packetData = t.packetData) :
    Option.Rel Agree (acceptDatum s) (acceptDatum t) := by
  unfold EspTouch.acceptDatum
  rw [hdata, h.payload]
  split
  · exact .some h
  · split
    · split
      · exact .some (h.storeDatum _ _)
      · exact .some h
    · exact .none

/-- The same packet is taken, and a last one makes the same datum. -/
def TakenAlike (a b : Packet × Smnt) : Prop :=
  a.1 = b.1 ∧ Agree a.2 b.2 ∧ (a.1 = .last → a.2.packetData = b.2.packetData)

theorem takePacket (h : Agree s t) (pAddr : Mac) (length : Int) :
    Option.Rel TakenAlike (takePacket s pAddr length) (takePacket t pAddr length) := by
  have hheld := h.holdChannel
  unfold EspTouch.takePacket
  split
  · exact .some ⟨rfl, h, by simp⟩
  · dsimp only
    generalize EspTouch.holdChannel s = s at hheld ⊢
    generalize EspTouch.holdChannel t = t at hheld ⊢
    rw [hheld.offsetLen, hheld.groupAddr]
    split
    · exact .some ⟨rfl, hheld, by simp⟩
    · split
      · by_cases hlt : s.packetCount.toNat < 3
        · obtain ⟨hcount, hdata⟩ := hheld.counted hlt
          have hlt' : t.packetCount.toNat < 3 := hcount ▸ hlt
          rw [dif_pos hlt, dif_pos hlt']
          simp only [hcount, hdata]
          split
          · exact .some ⟨rfl, hheld, by simp⟩
          · have hnext := hheld.next hlt ⟨_, hlt'⟩
              (toUint16 (length - (t.offsetLen.toNat + espTouchPacketSub : Nat)))
            rw [hcount, hdata, hheld.offsetLen, hheld.groupAddr] at hnext
            exact .some ⟨rfl, hnext, fun _ => rfl⟩
        · have hlt' : ¬ t.packetCount.toNat < 3 := by
            rcases hheld.underway with ⟨hcount, -⟩ | ⟨-, ht⟩
            · rwa [← hcount]
            · omega
          rw [dif_neg hlt, dif_neg hlt']
          exact .none
      · have hfirst := hheld.first (pAddr 3)
          (toUint16 (length - (t.offsetLen.toNat + espTouchPacketSub : Nat)))
        rw [hheld.offsetLen] at hfirst
        exact .some ⟨rfl, hfirst, by simp⟩

theorem muticastadd (h : Agree s t) (pAddr : Mac) (length : Int) :
    Option.Rel Agree (esptouchSmntMuticastadd s pAddr length)
      (esptouchSmntMuticastadd t pAddr length) := by
  have htook := h.takePacket pAddr length
  cases hs : EspTouch.takePacket s pAddr length with
  | none =>
    rw [hs] at htook
    cases ht : EspTouch.takePacket t pAddr length with
    | none =>
      unfold esptouchSmntMuticastadd
      rw [hs, ht]
      exact .none
    | some b =>
      rw [ht] at htook
      cases htook
  | some a =>
    rw [hs] at htook
    cases ht : EspTouch.takePacket t pAddr length with
    | none =>
      rw [ht] at htook
      cases htook
    | some b =>
      rw [ht] at htook
      cases htook with
      | some halike =>
        obtain ⟨hpacket, hagree, hdata⟩ := halike
        rw [muticastadd_eq hs, muticastadd_eq ht, ← hpacket]
        split
        · have haccept := hagree.acceptDatum (hdata ‹_›)
          generalize EspTouch.acceptDatum a.2 = a' at haccept ⊢
          generalize EspTouch.acceptDatum b.2 = b' at haccept ⊢
          cases haccept with
          | none => exact .none
          | some hresult => exact .some hresult.close
        · exact .some hagree

end Agree

/-- The frames go to `esptouch_smnt_muticastadd` one after the other. -/
def replay (s : Smnt) (frames : List Frame) : Option Smnt :=
  frames.foldlM (fun s f => esptouchSmntMuticastadd s f.pDest f.length) s

theorem replay_append (s : Smnt) (frames : List Frame) (f : Frame) :
    replay s (frames ++ [f]) =
      (replay s frames).bind fun s => esptouchSmntMuticastadd s f.pDest f.length := by
  simp [replay, List.foldlM_append]

theorem Agree.replay {s t : Smnt} (h : Agree s t) (frames : List Frame) :
    Option.Rel Agree (replay s frames) (replay t frames) := by
  induction frames generalizing s t with
  | nil => exact .some h
  | cons f frames ih =>
    have hfirst := h.muticastadd f.pDest f.length
    simp only [EspSession.replay, List.foldlM_cons, Option.bind_eq_bind]
    generalize esptouchSmntMuticastadd s f.pDest f.length = s' at hfirst ⊢
    generalize esptouchSmntMuticastadd t f.pDest f.length = t' at hfirst ⊢
    cases hfirst with
    | none => exact .none
    | some hagree => exact ih hagree

/-! ### What belongs to a lock -/

/-- The frame completes the guide. -/
def Locks (s : Smnt) (f : Frame) : Prop :=
  s.state = .locking ∧ ∃ t ∈ esptouchSmntDatahandler s f, t.state = .locked

instance (s : Smnt) (f : Frame) : Decidable (Locks s f) := inferInstanceAs (Decidable (_ ∧ _))

/-- A packet taken carries the BSSID of the lock, and a lock is made by the phone
that sent every datum so far. -/
def OwnFrame (s : Sys) (f : Frame) : Prop :=
  (Takes s.smnt f → f.pBssid = s.smnt.syncBssid) ∧
    (Locks s.smnt f → ∀ r ∈ s.received, r.From (Frame.origin f))

instance (s : Sys) (f : Frame) : Decidable (OwnFrame s f) :=
  inferInstanceAs (Decidable ((_ → _) ∧ (_ → _)))

def Own (s : Sys) : Event → Prop
  | .frame f => EspFinish.Sound s (.frame f) ∧ OwnFrame s f
  | .tick => True

instance (s : Sys) : (event : Event) → Decidable (Own s event)
  | .frame _ => inferInstanceAs (Decidable (_ ∧ _))
  | .tick => inferInstanceAs (Decidable True)

theorem Own.sound {s : Sys} {event : Event} (h : Own s event) : EspFinish.Sound s event := by
  cases event with
  | frame f => exact h.1
  | tick =>
    intro d hd
    cases hd

/-- While the lock lasts: the receiver is where the frames taken lead from the
lock, and all it holds came from the phone locked on. -/
structure Current (s : Sys) (session : Session) : Prop where
  source : s.smnt.syncAppMac = session.start.syncAppMac
  bssid : s.smnt.syncBssid = session.start.syncBssid
  locked : session.start.state = .locked
  bssids : ∀ f ∈ session.frames, f.pBssid = session.start.syncBssid
  received : ∀ r ∈ s.received, r.From session.origin
  underway : s.smnt.packetCount.toNat < 3 →
    s.origins = List.replicate s.smnt.packetCount.toNat session.origin
  replayed : ∃ r, replay session.start session.frames = some r ∧ Agree r s.smnt

structure Separate (s : Sys) : Prop where
  current : s.smnt.state = .locked ∨ s.smnt.state = .finish →
    ∃ session, s.session = some session ∧ Current s session
  past : ∀ session, s.session = some session →
    ∀ r, replay session.start session.frames = some r → r.state = .finish →
      s.smnt.state = .finish

namespace Separate

variable {s t : Sys}

/-- Back to looking for a lock. -/
theorem search (h : Separate s) (hfinish : s.smnt.state ≠ .finish)
    (hlocking : t.smnt.state = .locking) (hsession : t.session = s.session) : Separate t where
  current hstate := by
    rw [hlocking] at hstate
    rcases hstate with hstate | hstate <;> cases hstate
  past session hsome r hr hrfinish := by
    rw [hsession] at hsome
    exact absurd (h.past session hsome r hr hrfinish) hfinish

theorem idle (h : Separate s) (skip probability : UInt8) :
    Separate { s with
      smnt := { s.smnt with directTimerSkip := skip, chCurrentProbability := probability } } where
  current hstate := by
    obtain ⟨session, hsome, hcurrent⟩ := h.current hstate
    obtain ⟨r, hr, hagree⟩ := hcurrent.replayed
    refine ⟨session, hsome, hcurrent.source, hcurrent.bssid, hcurrent.locked, hcurrent.bssids,
      hcurrent.received, hcurrent.underway, r, hr, ?_⟩
    exact ⟨hagree.state, hagree.groupAddr, hagree.offsetLen, hagree.payload, hagree.index,
      hagree.passwordLen, hagree.second, hagree.third, hagree.underway⟩
  past := h.past

theorem lock {f : Frame} {smnt : Smnt} (hlock : LockedBy s.smnt f smnt)
    (hown : ∀ r ∈ s.received, r.From (Frame.origin f)) :
    Separate { s with smnt, session := some ⟨smnt, []⟩ } where
  current _ := by
    refine ⟨⟨smnt, []⟩, rfl, rfl, rfl, hlock.locked, by simp, ?_, ?_, smnt, rfl, Agree.refl smnt⟩
    · have horigin : Session.origin ⟨smnt, []⟩ = Frame.origin f := by
        rw [Session.origin, Frame.origin, hlock.source, hlock.bssid]
      rw [horigin]
      exact hown
    · intro hlt
      exact absurd hlock.full (Nat.not_le.mpr hlt)
  past session hsome r hr hrfinish := by
    cases hsome
    cases hr
    rw [hlock.locked] at hrfinish
    cases hrfinish

/-- The origins of the datum under way, with one more packet. -/
theorem underway_took {smnt taken : Smnt} {pAddr : Mac} {packet : Packet} {origins : List Origin}
    {origin : Origin} {f : Frame} (htook : Took smnt pAddr packet taken)
    (hfrom : Frame.origin f = origin)
    (hold : smnt.packetCount.toNat < 3 →
      origins = List.replicate smnt.packetCount.toNat origin) :
    (taken.packetCount.toNat < 3 →
      originsAfter origins f packet = List.replicate taken.packetCount.toNat origin) ∧
    (packet = .last → originsAfter origins f packet = List.replicate 3 origin) := by
  cases htook with
  | ignored probability => exact ⟨hold, by simp⟩
  | first probability code hgroup =>
    refine ⟨fun _ => ?_, by simp⟩
    rw [originsAfter, hfrom]
    rfl
  | next probability code slot hgroup hslot hnot =>
    refine ⟨fun hlt => ?_, by simp⟩
    have hsum : (smnt.packetCount + 1).toNat = smnt.packetCount.toNat + 1 := by
      rw [UInt8.toNat_add, UInt8.toNat_one]
      omega
    rw [originsAfter, hfrom, hold (by omega)]
    change _ = List.replicate (smnt.packetCount + 1).toNat origin
    rw [hsum, List.replicate_succ']
  | last probability code slot hgroup hslot htwo =>
    subst htwo
    have hcount : smnt.packetCount.toNat = 2 := hslot
    have hthree : originsAfter origins f .last = List.replicate 3 origin := by
      rw [originsAfter, hfrom, hold (by omega), hcount]
      rfl
    refine ⟨fun hlt => absurd hlt ?_, fun _ => hthree⟩
    change ¬ (smnt.packetCount + 1).toNat < 3
    rw [UInt8.toNat_add, hcount]
    decide

theorem took_frame {smnt taken : Smnt} {pAddr : Mac} {packet : Packet}
    (htook : Took smnt pAddr packet taken) :
    taken.syncAppMac = smnt.syncAppMac ∧ taken.syncBssid = smnt.syncBssid := by
  cases htook <;> exact ⟨rfl, rfl⟩

theorem take_frame {f : Frame} {packet : Packet} {taken smnt : Smnt} {received : List Received}
    (htake : Take s f packet taken smnt received) :
    smnt.syncAppMac = taken.syncAppMac ∧ smnt.syncBssid = taken.syncBssid ∧
      smnt.packetCount = taken.packetCount := by
  cases htake <;> exact ⟨rfl, rfl, rfl⟩

theorem take_received {f : Frame} {packet : Packet} {taken smnt : Smnt}
    {received : List Received} {origin : Origin}
    (htake : Take s f packet taken smnt received) (hold : ∀ r ∈ s.received, r.From origin)
    (hlast : packet = .last → originsAfter s.origins f packet = List.replicate 3 origin) :
    ∀ r ∈ received, r.From origin := by
  cases htake with
  | kept hpacket => exact hold
  | unchecked hpacket hnone => exact hold
  | known d hd hpacket hcheck hentered =>
    subst hpacket
    intro r hr
    rcases List.mem_append.mp hr with hr | hr
    · exact hold r hr
    · rw [List.mem_singleton.mp hr]
      exact hlast rfl
  | stored d hd hpacket hcheck hfree =>
    subst hpacket
    intro r hr
    rcases List.mem_append.mp hr with hr | hr
    · exact hold r hr
    · rw [List.mem_singleton.mp hr]
      exact hlast rfl

theorem replay_take {session : Session} {smnt : Smnt} {f : Frame}
    (hreplayed : ∃ r, replay session.start session.frames = some r ∧ Agree r s.smnt)
    (hadd : esptouchSmntMuticastadd s.smnt f.pDest f.length = some smnt) :
    ∃ r, replay session.start (session.frames ++ [f]) = some r ∧ Agree r smnt := by
  obtain ⟨r, hr, hagree⟩ := hreplayed
  have hnext := hagree.muticastadd f.pDest f.length
  rw [replay_append, hr, Option.bind_some]
  rw [hadd] at hnext
  generalize esptouchSmntMuticastadd r f.pDest f.length = r' at hnext ⊢
  cases hnext with
  | some hagree' => exact ⟨_, rfl, hagree'⟩

theorem take (h : Separate s) {f : Frame} {packet : Packet} {taken smnt : Smnt}
    {received : List Received} (htakes : Takes s.smnt f) (hown : f.pBssid = s.smnt.syncBssid)
    (hadd : esptouchSmntMuticastadd s.smnt f.pDest f.length = some smnt)
    (htook : takePacket s.smnt f.pDest f.length = some (packet, taken))
    (htake : Take s f packet taken smnt received) :
    Separate ⟨smnt, originsAfter s.origins f packet, received, sessionTaking s.session f⟩ := by
  obtain ⟨session, hsession, hcurrent⟩ := h.current (Or.inl htakes.1)
  obtain ⟨hsource, hbssid⟩ := took_frame (takePacket_spec htook)
  obtain ⟨hsource', hbssid', hcount⟩ := take_frame htake
  have horigin : Frame.origin f = session.origin := by
    rw [Frame.origin, Session.origin, ← hcurrent.source, ← hcurrent.bssid, hown, htakes.2.2]
  obtain ⟨hunderway, hlast⟩ :=
    underway_took (takePacket_spec htook) horigin hcurrent.underway
  have hreplayed := replay_take hcurrent.replayed hadd
  have htaking : sessionTaking s.session f =
      some { session with frames := session.frames ++ [f] } := by
    rw [hsession]
    rfl
  constructor
  · intro _
    refine ⟨_, htaking, (hsource'.trans hsource).trans hcurrent.source,
      (hbssid'.trans hbssid).trans hcurrent.bssid, hcurrent.locked, ?_,
      take_received htake hcurrent.received hlast, ?_, hreplayed⟩
    · intro g hg
      rcases List.mem_append.mp hg with hg | hg
      · exact hcurrent.bssids g hg
      · rw [List.mem_singleton.mp hg, hown]
        exact hcurrent.bssid
    · change smnt.packetCount.toNat < 3 → _ = List.replicate smnt.packetCount.toNat _
      rw [hcount]
      exact hunderway
  · intro session' hsession' r hr hrfinish
    cases htaking.symm.trans hsession'
    obtain ⟨r', hr', hagree⟩ := hreplayed
    cases hr.symm.trans hr'
    exact hagree.state.symm.trans hrfinish

theorem step (h : Separate s) {event : Event} (hown : Own s event) (hnext : Next s event t) :
    Separate t := by
  cases hnext with
  | tick =>
    obtain ⟨-, ⟨skip, probability, heq⟩ | ⟨hfinish, hlocking⟩⟩ := cyclecall_spec s.smnt
    · rw [heq]
      exact h.idle skip probability
    · exact h.search hfinish hlocking rfl
  | skip f hnot => exact h
  | search f smnt hlocked hfinish hlocking hdata => exact h.search hfinish hlocking rfl
  | lock f smnt hlocking hsmnt hlock =>
    exact lock hlock (hown.2.2 ⟨hlocking, smnt, hsmnt, hlock.locked⟩)
  | take f packet taken smnt received htakes hadd htook htake =>
    exact h.take htakes (hown.2.1 htakes) hadd htook htake

end Separate

theorem separate_of_run {events : List Event} {s : Sys} (hrun : Run step Own initial events s) :
    Separate s := by
  refine hrun.invariant ?_ fun s event t hs hown hstep => hs.step hown (next_spec hstep)
  constructor
  · rintro (hstate | hstate) <;> cases hstate
  · intro session hsession
    cases hsession

/-! ### Separation -/

/-- Every byte up to the end of the password delivered came from the phone of the
last lock. -/
def FromLock (s : Sys) : Prop :=
  s.smnt.state = .finish → ∃ session ∈ s.session,
    ∀ i < (payloadAt s.smnt 1).toNat + espPasswordOff,
      ∃ r ∈ s.received, r.index.toNat = i ∧ r.value = payloadAt s.smnt i ∧ r.From session.origin

/-- The same frames were taken since locks that found the same. -/
def SameSession (s₁ s₂ : Sys) : Prop :=
  ∃ session₁ ∈ s₁.session, ∃ session₂ ∈ s₂.session,
    session₁.frames = session₂.frames ∧ Agree session₁.start session₂.start

theorem replay_finish_ne_nil {session : Session} {r : Smnt} (hlocked : session.start.state = .locked)
    (hreplay : replay session.start session.frames = some r) (hfinish : r.state = .finish) :
    session.frames ≠ [] := by
  intro hnil
  rw [hnil] at hreplay
  cases hreplay
  rw [hlocked] at hfinish
  cases hfinish

theorem Separate.equal_result {s₁ s₂ : Sys} (h₁ : Separate s₁) (h₂ : Separate s₂)
    (hfinish : s₁.smnt.state = .finish) (hsame : SameSession s₁ s₂) :
    s₂.smnt.state = .finish ∧ esptouchSmntFinish s₂.smnt = esptouchSmntFinish s₁.smnt := by
  obtain ⟨session₁, hsession₁, session₂, hsession₂, hframes, hagree⟩ := hsame
  obtain ⟨session, hsession, hcurrent₁⟩ := h₁.current (Or.inr hfinish)
  cases hsession.symm.trans hsession₁
  obtain ⟨r₁, hr₁, hagree₁⟩ := hcurrent₁.replayed
  have hr₁finish : r₁.state = .finish := hagree₁.state.trans hfinish
  have hreplays := hagree.replay session₁.frames
  rw [hr₁, hframes] at hreplays
  cases hr₂ : replay session₂.start session₂.frames with
  | none =>
    rw [hr₂] at hreplays
    cases hreplays
  | some r₂ =>
    rw [hr₂] at hreplays
    cases hreplays with
    | some hreplayed =>
      have hfinish₂ := h₂.past session₂ hsession₂ r₂ hr₂ (hreplayed.state.symm.trans hr₁finish)
      obtain ⟨session, hsession, hcurrent₂⟩ := h₂.current (Or.inr hfinish₂)
      cases hsession.symm.trans hsession₂
      obtain ⟨r, hr, hagree₂⟩ := hcurrent₂.replayed
      cases hr.symm.trans hr₂
      have hpayload : s₂.smnt.payloadMulticast = s₁.smnt.payloadMulticast :=
        (hagree₂.symm.trans (hreplayed.symm.trans hagree₁)).payload
      have hbssid : s₂.smnt.syncBssid = s₁.smnt.syncBssid := by
        obtain ⟨f, hf⟩ := List.exists_mem_of_ne_nil _
          (replay_finish_ne_nil hcurrent₁.locked hr₁ hr₁finish)
        rw [hcurrent₂.bssid, ← hcurrent₂.bssids f (hframes ▸ hf), hcurrent₁.bssids f hf,
          hcurrent₁.bssid]
      refine ⟨hfinish₂, ?_⟩
      unfold esptouchSmntFinish payloadAt
      rw [hpayload, hbssid]

theorem separation_of_runs (events₁ events₂ : List Event) (s₁ s₂ : Sys)
    (hrun₁ : Run step Own initial events₁ s₁) (hrun₂ : Run step Own initial events₂ s₂) :
    FromLock s₁ ∧
      (s₁.smnt.state = .finish → SameSession s₁ s₂ →
        s₂.smnt.state = .finish ∧ esptouchSmntFinish s₂.smnt = esptouchSmntFinish s₁.smnt) := by
  have h₁ := separate_of_run hrun₁
  have h₂ := separate_of_run hrun₂
  constructor
  · intro hfinish
    obtain ⟨session, hsession, hcurrent⟩ := h₁.current (Or.inr hfinish)
    have hlength : payloadAt s₁.smnt 1 = s₁.smnt.passwordLen := (passwordLen_of_run hrun₁).symm
    refine ⟨session, hsession, fun i hi => ?_⟩
    rw [hlength] at hi
    obtain ⟨r, hr, hindex, hvalue⟩ := EspFinish.complete_of_run events₁ s₁
      (hrun₁.mono fun s event hown => hown.sound) hfinish i hi
    exact ⟨r, hr, hindex, hvalue, hcurrent.received r hr⟩
  · exact h₁.equal_result h₂

def otherPhone : EspDecode.Phone := ⟨true, ![2, 0, 0, 0, 0, 9], ![2, 0, 0, 0, 0, 2], 3⟩

/-- Half of the data, a hop, and the rest after another lock. -/
def hopping (phone : EspDecode.Phone) : List Event :=
  EspFinish.sendAll EspDecode.somePhone EspDecode.shortPayload (EspDecode.inOrder.take 5) ++
    List.replicate 21 .tick ++
    EspFinish.sendAll phone EspDecode.shortPayload (EspDecode.inOrder.drop 5)

/-- Every event followed by a frame of another phone. -/
def disturbed (events : List Event) : List Event :=
  events.flatMap fun event => [event, .frame (otherPhone.frame 7 40)]

def afterHop : List Event :=
  (hopping EspDecode.somePhone).take 46 ++ disturbed ((hopping EspDecode.somePhone).drop 46)

instance (s₁ s₂ : Sys) : Decidable (SameSession s₁ s₂) :=
  inferInstanceAs (Decidable (∃ session₁ ∈ s₁.session, ∃ session₂ ∈ s₂.session, _))

def ownExec (events : List Event) : Option Sys :=
  exec (guarded step fun s event => decide (Own s event)) initial events

theorem separation_of_runs_hopping :
    ∃ s₁ s₂, Run step Own initial (hopping EspDecode.somePhone) s₁ ∧
      Run step Own initial afterHop s₂ ∧ s₁.smnt.state = .finish ∧ SameSession s₁ s₂ ∧
      FromLock s₁ ∧ esptouchSmntFinish s₂.smnt = esptouchSmntFinish s₁.smnt := by
  have hexec : (ownExec (hopping EspDecode.somePhone)).any fun s₁ => (ownExec afterHop).any fun s₂ =>
      decide (s₁.smnt.state = .finish ∧ SameSession s₁ s₂) := by
    decide +kernel
  obtain ⟨s₁, hs₁, hexec⟩ := (Option.any_eq_true _ _).mp hexec
  obtain ⟨s₂, hs₂, hfacts⟩ := (Option.any_eq_true _ _).mp hexec
  obtain ⟨hfinish, hsame⟩ := of_decide_eq_true hfacts
  have hrun₁ := (Run.of_exec_guarded hs₁).mono fun s event h => of_decide_eq_true h
  have hrun₂ := (Run.of_exec_guarded hs₂).mono fun s event h => of_decide_eq_true h
  obtain ⟨hfrom, hresult⟩ := separation_of_runs _ _ s₁ s₂ hrun₁ hrun₂
  exact ⟨s₁, s₂, hrun₁, hrun₂, hfinish, hsame, hfrom, (hresult hfinish hsame).2⟩

/-- The other phone finishes what the first one began. -/
theorem hop_mixes :
    ∃ s, Run step anyStep initial (hopping otherPhone) s ∧
      s.smnt.state = .finish ∧ ¬ FromLock s := by
  have hexec : (exec step initial (hopping otherPhone)).any fun s =>
      decide (s.smnt.state = .finish ∧ ∀ session ∈ s.session,
        ∀ r ∈ s.received, r.index.toNat = 2 → ¬ r.From session.origin) := by
    decide +kernel
  obtain ⟨s, hs, hfacts⟩ := (Option.any_eq_true _ _).mp hexec
  obtain ⟨hfinish, hother⟩ := of_decide_eq_true hfacts
  refine ⟨s, Run.of_exec hs, hfinish, fun hfrom => ?_⟩
  obtain ⟨session, hsession, hall⟩ := hfrom hfinish
  obtain ⟨r, hr, hindex, -, hrfrom⟩ := hall 2 (Nat.lt_add_left _ (by decide))
  exact hother session hsession r hr hindex hrfrom

end Sv6x66.Colink.EspSession
