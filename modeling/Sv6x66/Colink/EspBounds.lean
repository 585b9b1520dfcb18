import Sv6x66.Colink.EspReading

/-! When the receiver of `esp_touch.c` stays inside its arrays. -/
namespace Sv6x66.Colink.EspBounds
open Sv6x66.Lib Function EspTouch EspRun EspFinish EspReading

-- the literals of `Fin 128` below stand on it
local instance payload_neZero : NeZero 128 := ⟨by decide⟩

def espPasswordSize : Nat := 65

/-- The copy of the password at the end stays inside `payload_multicast` and `esp_password`. -/
def CopyFits (s : Smnt) : Prop :=
  s.state = .finish → espPasswordOff + (s.payloadMulticast 1).toNat ≤ 128 ∧
    (s.payloadMulticast 1).toNat ≤ espPasswordSize

/-- The receiver takes all these events and stays inside its arrays. -/
def StaysInside (events : List Event) : Prop :=
  ∃ s, Run step anyStep initial events s ∧ CopyFits s.smnt

/-! ### What the frames must say -/

/-- The reception ends with these data. -/
def Whole (data : List Datum) : Prop :=
  valueOf data 1 ≠ 0 ∧ data.length % 2 ^ 16 = (valueOf data 1).toNat + espPasswordOff

/-- A packet of the group 255 begins no datum behind a lock or behind a datum, a datum
carries an index below 128, and the data that end the reception a password that fits. -/
structure Within (r : Reading) (group : UInt8) (length : Int) : Prop where
  begins : ¬ TooLong length → r.count = 0 → group ≠ 0xFF
  index : ∀ d ∈ r.carried group length, d.index.toNat < 128
  password : ∀ d ∈ r.carried group length, valueOf r.data d.index.toNat = 0 →
    Whole (r.data ++ [d]) → (valueOf (r.data ++ [d]) 1).toNat ≤ espPasswordSize

/-- The packet that is heard, if one is, behind those heard before. -/
def Inside (p : Sys × List Heard) (event : Event) : Prop :=
  ∀ group length, heard p.1.smnt event = some (.packet group length) →
    Within (reading p.2) group length

/-! ### What the receiver makes of a frame -/

/-- `packet_data` with this frame as the third packet. -/
def lastPacket (s : Smnt) (f : Frame) : Fin 3 → UInt16 :=
  update s.packetData 2 (toUint16 (dataLength s f))

/-- The third packet, and not the one before it again. -/
def Completes (s : Smnt) (f : Frame) : Prop :=
  Continues s f ∧ s.packetCount.toNat = 2 ∧ ((s.packetData 2).toNat : Int) ≠ dataLength s f

/-- The datum is the last one that is waited for. -/
def Ends (s : Smnt) (d : Datum) : Prop :=
  passwordLenWith s d ≠ 0 ∧
    (s.index + 1).toNat = (passwordLenWith s d).toNat + espPasswordOff

/-- The accesses the frame leads to stay inside the arrays. -/
structure FrameInside (s : Smnt) (f : Frame) : Prop where
  packet : Continues s f → s.packetCount.toNat < 3
  index : Completes s f → ∀ d ∈ checkDatum (lastPacket s f), d.index.toNat < 128
  copy : Completes s f → ∀ d ∈ checkDatum (lastPacket s f), payloadAt s d.index.toNat = 0 →
    Ends s d → (passwordLenWith s d).toNat ≤ espPasswordSize

/-! ### One frame -/

theorem takePacket_of_not_continues {s : Smnt} {f : Frame} (htakes : Takes s f)
    (h : ¬ Continues s f) :
    ∃ packet taken, takePacket s f.pDest f.length = some (packet, taken) ∧ packet ≠ .last := by
  unfold takePacket
  split
  · exact ⟨_, _, rfl, by decide⟩
  · rename_i hsame
    dsimp only
    split
    · exact ⟨_, _, rfl, by decide⟩
    · rename_i hlong
      split
      · rename_i hgroup
        exact absurd ⟨htakes, not_not.mp hsame, not_le.mp hlong, hgroup⟩ h
      · exact ⟨_, _, rfl, by decide⟩

theorem takePacket_of_completes {s : Smnt} {f : Frame} (h : Completes s f) :
    ∃ taken, takePacket s f.pDest f.length = some (.last, taken) ∧
      taken.packetData = lastPacket s f := by
  obtain ⟨hcontinues, hcount, hnew⟩ := h
  have hslot : (⟨s.packetCount.toNat, by omega⟩ : Fin 3) = 2 := Fin.ext hcount
  have hlast : (s.packetCount + 1).toNat = dataPacketNum := by
    rw [UInt8.toNat_add, hcount]
    rfl
  rw [takePacket_of_continues hcontinues, dif_pos (by omega), hslot, if_neg hnew, if_pos hlast]
  exact ⟨_, rfl, rfl⟩

/-- A frame that goes to the packets and completes no datum. -/
theorem takePacket_of_not_completes {s : Smnt} {f : Frame} (htakes : Takes s f)
    (hslot : Continues s f → s.packetCount.toNat < 3) (h : ¬ Completes s f) :
    ∃ packet taken, takePacket s f.pDest f.length = some (packet, taken) ∧ packet ≠ .last := by
  by_cases hcontinues : Continues s f
  · rw [takePacket_of_continues hcontinues, dif_pos (hslot hcontinues)]
    split
    · exact ⟨_, _, rfl, by decide⟩
    · rename_i hnew
      refine ⟨_, _, rfl, ?_⟩
      split
      · rename_i hlast
        have hcount : s.packetCount.toNat = 2 := by
          have hsmall := hslot hcontinues
          rw [UInt8.toNat_add, UInt8.toNat_one, dataPacketNum] at hlast
          omega
        have htwo : (⟨s.packetCount.toNat, hslot hcontinues⟩ : Fin 3) = 2 := Fin.ext hcount
        rw [htwo] at hnew
        exact absurd ⟨hcontinues, hcount, hnew⟩ h
      · decide
  · exact takePacket_of_not_continues htakes hcontinues

theorem datahandler_of_not_takes {s : Smnt} {f : Frame} (h : ¬ Takes s f) :
    ∃ t, esptouchSmntDatahandler s f = some t := by
  unfold esptouchSmntDatahandler
  split
  · exact ⟨_, rfl⟩
  · split
    · exact ⟨_, rfl⟩
    · rename_i hmulticast
      split
      · split
        · exact ⟨_, rfl⟩
        · exact ⟨_, rfl⟩
      · split
        · rename_i hlocked
          split
          · exact ⟨_, rfl⟩
          · rename_i hsrc
            exact absurd ⟨hlocked, not_not.mp hmulticast, not_not.mp hsrc⟩ h
        · exact ⟨_, rfl⟩

theorem copyFits_of_ne_finish {s : Smnt} (h : s.state ≠ .finish) : CopyFits s :=
  fun hfinish => absurd hfinish h

theorem password_eq_of_entered {s t : Smnt} {d : Datum} {hd : d.index.toNat < 128}
    (h : Entered s d hd t) (hpassword : s.passwordLen = s.payloadMulticast 1) :
    t.passwordLen = t.payloadMulticast 1 := by
  rw [h.passwordLen, h.payload, passwordLenWith]
  split
  · rename_i hone
    rw [(slot_eq_one_iff d hd).mpr hone, update_self]
  · rename_i hother
    rw [update_of_ne (fun heq => hother ((slot_eq_one_iff d hd).mp heq.symm)), hpassword]

/-- A datum that is entered ends the reception with a password that fits, or does not end it. -/
theorem copyFits_entered_iff {s t : Smnt} {d : Datum} {hd : d.index.toNat < 128}
    (h : Entered s d hd t) (hpassword : t.passwordLen = t.payloadMulticast 1) :
    CopyFits t ↔ (Ends s d → (passwordLenWith s d).toNat ≤ espPasswordSize) := by
  have hends : t.state = .finish ↔ Ends s d := by
    rw [h.finish, Finished, h.passwordLen, h.index, Ends]
  rw [CopyFits, hends, ← hpassword, h.passwordLen]
  apply imp_congr_right
  intro _
  have hsmaller : espPasswordOff + espPasswordSize ≤ 128 := by decide
  constructor
  · exact fun hboth => hboth.2
  · exact fun hsize => ⟨(Nat.add_le_add_left hsize _).trans hsmaller, hsize⟩

theorem muticastadd_completes_iff {s : Smnt} {f : Frame} (h : Completes s f)
    (hstate : s.state ≠ .finish) (hpassword : s.passwordLen = s.payloadMulticast 1) :
    (∃ t, esptouchSmntMuticastadd s f.pDest f.length = some t ∧ CopyFits t) ↔
      FrameInside s f := by
  obtain ⟨taken, htook, hdata⟩ := takePacket_of_completes h
  have hkept := (takePacket_spec htook).kept
  have hslot : Continues s f → s.packetCount.toNat < 3 := fun _ => by
    rw [h.2.1]
    decide
  rw [muticastadd_eq htook, if_pos rfl, acceptDatum, hdata]
  cases hcheck : checkDatum (lastPacket s f) with
  | none =>
    refine iff_of_true ⟨_, rfl, copyFits_of_ne_finish (hkept.state ▸ hstate)⟩ ⟨hslot, ?_, ?_⟩
    · rintro - d hd
      rw [hcheck] at hd
      cases hd
    · rintro - d hd
      rw [hcheck] at hd
      cases hd
  | some d =>
    have hunique (other : Datum) (hother : other ∈ checkDatum (lastPacket s f)) : other = d := by
      rw [hcheck] at hother
      exact (Option.mem_some.mp hother).symm
    dsimp only
    by_cases hd : d.index.toNat < 128
    · have hindex : Completes s f → ∀ other ∈ checkDatum (lastPacket s f),
          other.index.toNat < 128 := fun _ other hother => hunique other hother ▸ hd
      rw [dif_pos hd, Option.map_some, hkept.payload]
      by_cases hfree : s.payloadMulticast ⟨_, hd⟩ = 0
      · have hentered := entered_storeDatum hd hkept hstate
        rw [if_pos hfree]
        simp only [Option.some.injEq, exists_eq_left']
        rw [copyFits_entered_iff hentered (password_eq_of_entered hentered hpassword)]
        constructor
        · refine fun hcopy => ⟨hslot, hindex, fun _ other hother _ => ?_⟩
          rw [hunique other hother]
          exact hcopy
        · exact fun hinside => hinside.copy h d hcheck ((payloadAt_of_lt hd).trans hfree)
      · rw [if_neg hfree]
        refine iff_of_true ⟨_, rfl, copyFits_of_ne_finish (hkept.state ▸ hstate)⟩
          ⟨hslot, hindex, fun _ other hother hzero => ?_⟩
        rw [hunique other hother, payloadAt_of_lt hd] at hzero
        exact absurd hzero hfree
    · rw [dif_neg hd]
      refine iff_of_false (by rintro ⟨_, h, -⟩; cases h) fun hinside => ?_
      exact hd (hinside.index h d hcheck)

theorem datahandler_inside_iff {s : Smnt} {f : Frame} (hfits : CopyFits s)
    (hpassword : s.passwordLen = s.payloadMulticast 1) :
    (∃ t, esptouchSmntDatahandler s f = some t ∧ CopyFits t) ↔ FrameInside s f := by
  by_cases htakes : Takes s f
  · have hlocked : s.state ≠ .finish := by
      rw [htakes.1]
      decide
    rw [datahandler_takes htakes]
    by_cases hslot : Continues s f → s.packetCount.toNat < 3
    · by_cases hcompletes : Completes s f
      · exact muticastadd_completes_iff hcompletes hlocked hpassword
      · obtain ⟨packet, taken, htook, hlast⟩ := takePacket_of_not_completes htakes hslot hcompletes
        refine iff_of_true ⟨taken, ?_, ?_⟩ ⟨hslot, fun h => absurd h hcompletes,
          fun h => absurd h hcompletes⟩
        · rw [muticastadd_eq htook, if_neg hlast]
        · apply copyFits_of_ne_finish
          rw [(takePacket_spec htook).kept.state]
          exact hlocked
    · refine iff_of_false ?_ fun h => hslot h.packet
      rintro ⟨t, ht, -⟩
      obtain ⟨hcontinues, hcount⟩ := Classical.not_imp.mp hslot
      rw [esptouchSmntMuticastadd, takePacket_of_continues hcontinues, dif_neg hcount] at ht
      cases ht
  · obtain ⟨t, ht⟩ := datahandler_of_not_takes htakes
    refine iff_of_true ⟨t, ht, ?_⟩ ⟨fun h => absurd h.1 htakes, fun h => absurd h.1.1 htakes,
      fun h => absurd h.1.1 htakes⟩
    obtain rfl | ⟨-, -, hlocking, -⟩ | ⟨-, hlock⟩ := datahandler_untaken ht htakes
    · exact hfits
    · apply copyFits_of_ne_finish
      rw [hlocking]
      decide
    · apply copyFits_of_ne_finish
      rw [hlock.locked]
      decide

/-! ### A run -/

theorem step_frame_iff {s : Sys} {f : Frame} {P : Smnt → Prop} :
    (∃ t, step s (.frame f) = some t ∧ P t.smnt) ↔
      ∃ smnt, esptouchSmntDatahandler s.smnt f = some smnt ∧ P smnt := by
  constructor
  · rintro ⟨t, ht, hP⟩
    exact ⟨t.smnt, datahandler_of_step ht, hP⟩
  · rintro ⟨smnt, hsmnt, hP⟩
    simp only [step, stepFrame, hsmnt, Option.bind_eq_bind, Option.bind_some]
    split
    · rename_i htakes
      rw [datahandler_takes htakes] at hsmnt
      obtain ⟨⟨packet, taken⟩, htook, -⟩ := Option.bind_eq_some_iff.mp hsmnt
      rw [htook]
      exact ⟨_, rfl, hP⟩
    · exact ⟨_, rfl, hP⟩

/-- The end is the end: nothing is entered behind it. -/
theorem copyFits_of_next {s t : Sys} {event : Event} (hnext : Next s event t)
    (h : CopyFits t.smnt) : CopyFits s.smnt := by
  intro hfinish
  cases hnext with
  | tick =>
    obtain ⟨hdata, ⟨skip, probability, hsame⟩ | ⟨hopen, -⟩⟩ := cyclecall_spec s.smnt
    · rw [CopyFits, hsame] at h
      exact h hfinish
    · exact absurd hfinish hopen
  | skip f hnot => exact h hfinish
  | search f smnt hlocked hopen hlocking hdata => exact absurd hfinish hopen
  | lock f smnt hlocking hsmnt hlock =>
    rw [hlocking] at hfinish
    cases hfinish
  | take f packet taken smnt received htakes hadd htook htake =>
    rw [htakes.1] at hfinish
    cases hfinish

/-- The datum ends the reception of the data before it. -/
theorem ends_iff {s : Smnt} {data : List Datum} (h : HasData s data) (d : Datum) :
    passwordLenWith s d = valueOf (data ++ [d]) 1 ∧ (Ends s d ↔ Whole (data ++ [d])) := by
  have hpassword : passwordLenWith s d = valueOf (data ++ [d]) 1 := by
    rw [passwordLenWith, valueOf_concat, h.passwordLen]
    exact ite_congr (by rw [← UInt8.toNat_inj]; rfl) (fun _ => rfl) fun _ => rfl
  have hindex : (s.index + 1).toNat = (data ++ [d]).length % 2 ^ 16 := by
    rw [h.index, UInt16.toNat_add, UInt16.toNat_ofNat', List.length_append]
    exact (Nat.mod_add_mod ..)
  refine ⟨hpassword, ?_⟩
  rw [Ends, Whole, hpassword, hindex]

theorem completes_iff {s : Smnt} {r : Reading} {f : Frame} (h : Reads s r) (htakes : Takes s f)
    (hsame : SameGroup f.pDest) :
    (Completes s f ↔ r.Third f.group (dataLength s f)) ∧
      lastPacket s f = words (update r.lengths 2 (dataLength s f)) := by
  have hrepeats : r.count = 2 →
      (((s.packetData 2).toNat : Int) = dataLength s f ↔ r.Repeats (dataLength s f)) := by
    intro htwo
    rw [Reading.Repeats, htwo, h.packetData]
    rfl
  constructor
  · constructor
    · rintro ⟨⟨-, -, hshort, hgroup⟩, hcount, hnew⟩
      obtain ⟨hgoes, hslot⟩ := h.goes_of_groupAddr htakes.1 hgroup (by omega)
      have htwo : r.count = 2 := Fin.ext (hslot.symm.trans hcount)
      exact ⟨not_le.mpr hshort, hgoes, htwo, fun hrepeat => hnew ((hrepeats htwo).mpr hrepeat)⟩
    · rintro ⟨hlong, hgoes, htwo, hnew⟩
      obtain ⟨hgroup, hslot⟩ := h.groupAddr_of_goes htakes.1 hgoes
      rw [htwo] at hslot
      exact ⟨⟨htakes, hsame, not_le.mp hlong, hgroup⟩, hslot,
        fun hsaid => hnew ((hrepeats htwo).mp hsaid)⟩
  · rw [lastPacket, h.packetData, update_words]

/-- The places are used up exactly where no datum is under way. -/
theorem packet_iff {s : Smnt} {r : Reading} {f : Frame} (h : Reads s r) (htakes : Takes s f)
    (hsame : SameGroup f.pDest) :
    (Continues s f → s.packetCount.toNat < 3) ↔
      (¬ TooLong (dataLength s f) → r.count = 0 → f.group ≠ 0xFF) := by
  constructor
  · intro hpacket hlong hzero hgroup
    obtain ⟨hnone, hused⟩ := h.between htakes.1 hzero
    have := hpacket ⟨htakes, hsame, not_le.mp hlong, hnone.trans hgroup.symm⟩
    omega
  · rintro hbegins ⟨-, -, hshort, hgroup⟩
    by_cases hzero : r.count = 0
    · obtain ⟨hnone, -⟩ := h.between htakes.1 hzero
      exact absurd (hgroup.symm.trans hnone) (hbegins (not_le.mpr hshort) hzero)
    · rw [(h.underway htakes.1 hzero).2]
      exact r.count.isLt

theorem mem_carried {r : Reading} {group : UInt8} {length : Int} {d : Datum} :
    d ∈ r.carried group length ↔
      r.Third group length ∧ d ∈ checkDatum (words (update r.lengths 2 length)) := by
  unfold Reading.carried
  split <;> simp [*]

/-- The receiver stays inside its arrays exactly if what the packet says is within what was
heard. -/
theorem frameInside_iff_within {s : Smnt} {r : Reading} {f : Frame} (h : Reads s r)
    (htakes : Takes s f) (hsame : SameGroup f.pDest) :
    FrameInside s f ↔ Within r f.group (dataLength s f) := by
  obtain ⟨hcompletes, hlast⟩ := completes_iff h htakes hsame
  have hpayload {d : Datum} (hd : d.index.toNat < 128) :
      payloadAt s d.index.toNat = valueOf r.data d.index.toNat :=
    (payloadAt_of_lt hd).trans (h.data.payload ⟨_, hd⟩)
  constructor
  · intro hinside
    refine ⟨(packet_iff h htakes hsame).mp hinside.packet, fun d hd => ?_,
      fun d hd hzero hwhole => ?_⟩
    · obtain ⟨hthird, hcheck⟩ := mem_carried.mp hd
      exact hinside.index (hcompletes.mpr hthird) d (hlast ▸ hcheck)
    · obtain ⟨hthird, hcheck⟩ := mem_carried.mp hd
      have hindex := hinside.index (hcompletes.mpr hthird) d (hlast ▸ hcheck)
      obtain ⟨hpassword, hends⟩ := ends_iff h.data d
      rw [← hpassword]
      exact hinside.copy (hcompletes.mpr hthird) d (hlast ▸ hcheck) ((hpayload hindex).trans hzero)
        (hends.mpr hwhole)
  · intro hwithin
    have hcarried {d : Datum} (hdone : Completes s f) (hcheck : d ∈ checkDatum (lastPacket s f)) :
        d ∈ r.carried f.group (dataLength s f) :=
      mem_carried.mpr ⟨hcompletes.mp hdone, hlast ▸ hcheck⟩
    refine ⟨(packet_iff h htakes hsame).mpr hwithin.begins,
      fun hdone d hcheck => hwithin.index d (hcarried hdone hcheck),
      fun hdone d hcheck hzero hends' => ?_⟩
    obtain ⟨hpassword, hends⟩ := ends_iff h.data d
    have hindex := hwithin.index d (hcarried hdone hcheck)
    rw [hpassword]
    exact hwithin.password d (hcarried hdone hcheck) ((hpayload hindex).symm.trans hzero)
      (hends.mp hends')

theorem frameInside_iff {s : Smnt} {r : Reading} (h : Reads s r) (f : Frame) :
    FrameInside s f ↔ ∀ group length, heard s (.frame f) = some (.packet group length) →
      Within r group length := by
  by_cases htaken : Takes s f ∧ SameGroup f.pDest
  · obtain ⟨htakes, hsame⟩ := htaken
    rw [frameInside_iff_within h htakes hsame, heard, if_pos htakes, if_pos hsame]
    constructor
    · rintro hwithin _ _ ⟨⟩
      exact hwithin
    · exact fun hall => hall _ _ rfl
  · have hnot : ¬ Continues s f := fun hcontinues => htaken ⟨hcontinues.1, hcontinues.2.1⟩
    refine iff_of_true ⟨fun hcontinues => absurd hcontinues hnot,
      fun hdone => absurd hdone.1 hnot, fun hdone => absurd hdone.1 hnot⟩ fun _ _ hheard => ?_
    rw [heard] at hheard
    split_ifs at hheard with htakes hsame
    · exact absurd ⟨htakes, hsame⟩ htaken
    · cases hheard

theorem step_inside_iff {p : Sys × List Heard} {event : Event}
    (hreads : Reads p.1.smnt (reading p.2))
    (hpassword : p.1.smnt.passwordLen = p.1.smnt.payloadMulticast 1) (hfits : CopyFits p.1.smnt) :
    (∃ q, listen p event = some q ∧ CopyFits q.1.smnt) ↔ Inside p event := by
  have hlisten : (∃ q, listen p event = some q ∧ CopyFits q.1.smnt) ↔
      ∃ t, step p.1 event = some t ∧ CopyFits t.smnt := by
    constructor
    · rintro ⟨q, hq, hcopy⟩
      exact ⟨q.1, (recording_some.mp hq).1, hcopy⟩
    · rintro ⟨t, ht, hcopy⟩
      exact ⟨(t, _), recording_some.mpr ⟨ht, rfl⟩, hcopy⟩
  rw [hlisten]
  cases event with
  | frame f =>
    rw [step_frame_iff, datahandler_inside_iff hfits hpassword, frameInside_iff hreads]
    rfl
  | tick =>
    refine iff_of_true ⟨_, rfl, ?_⟩ fun _ _ hheard => by cases hheard
    obtain ⟨hdata, ⟨skip, probability, hsame⟩ | ⟨-, hlocking⟩⟩ := cyclecall_spec p.1.smnt
    · rw [hsame]
      exact hfits
    · apply copyFits_of_ne_finish
      rw [hlocking]
      decide

/-- What is known of the receiver of a run and of what it heard. -/
structure Known (p : Sys × List Heard) : Prop where
  reads : Reads p.1.smnt (reading p.2)
  password : p.1.smnt.passwordLen = p.1.smnt.payloadMulticast 1

/-- The receiver stays inside its arrays over a whole run exactly if each packet of the run
is within what was heard before it. -/
theorem staysInside_iff (events : List Event) :
    StaysInside events ↔ Along listen Inside (initial, []) events := by
  have hstart : CopyFits initial.smnt := copyFits_of_ne_finish (by decide)
  have hkept (p : Sys × List Heard) (event : Event) (q : Sys × List Heard) (h : Known p)
      (hstep : listen p event = some q) : Known q :=
    ⟨reads_listen h.reads hstep,
      passwordLen_step h.password (next_spec (recording_some.mp hstep).1)⟩
  have hback (p : Sys × List Heard) (event : Event) (q : Sys × List Heard) (_ : Known p)
      (hstep : listen p event = some q) (h : CopyFits q.1.smnt) : CopyFits p.1.smnt :=
    copyFits_of_next (next_spec (recording_some.mp hstep).1) h
  have hthrough := Run.through_iff (I := Known) (P := fun p => CopyFits p.1.smnt)
    (show Known (initial, []) from ⟨reads_initial, rfl⟩) hstart hkept hback
    (fun p event h hfits => step_inside_iff h.reads h.password hfits) events
  rw [Along, ← hthrough, StaysInside]
  constructor
  · rintro ⟨s, hrun, hfits⟩
    obtain ⟨all, hrun⟩ := run_recording_iff.mpr hrun
    exact ⟨(s, all), hrun, hfits⟩
  · rintro ⟨⟨s, all⟩, hrun, hfits⟩
    exact ⟨s, run_recording_iff.mp ⟨all, hrun⟩, hfits⟩

/-! ### Three runs that leave the arrays -/

def guided (frames : List Frame) : List Event :=
  (EspDecode.guideFrames EspDecode.somePhone 1 ++ frames).map .frame

/-- A packet of the group 255, which after a lock stands for no group. -/
def noGroup : List Event := guided [EspDecode.somePhone.frame 255 16]

/-- The second packet is one byte shorter than the part that carries no data. -/
def shorter : List Event :=
  guided [EspDecode.somePhone.frame 2 (EspDecode.highCodeOf [] ⟨255, 2⟩).toNat,
    { EspDecode.somePhone with overhead := 2 }.frame 2 0,
    EspDecode.somePhone.frame 2 (EspDecode.lowCodeOf [] ⟨255, 2⟩).toNat]

/-- A password of 66 bytes. -/
def longPassword : List Event :=
  sendAll EspDecode.somePhone (75 :: 66 :: (List.range 73).map fun i => UInt8.ofNat (7 * i + 1))
    ((List.range 75).map fun i => ⟨i, UInt8.ofNat (i + 1)⟩)

theorem not_staysInside_of_exec {events : List Event}
    (h : (exec step initial events).all fun s =>
      decide (s.smnt.state = .finish ∧ espPasswordSize < (s.smnt.payloadMulticast 1).toNat)) :
    ¬ StaysInside events := by
  rintro ⟨s, hrun, hfits⟩
  rw [hrun.exec_eq, Option.all_some, decide_eq_true_eq] at h
  exact absurd (hfits h.1).2 (not_le.mpr h.2)

/-- `packet_data[15]`, `payload_multicast[255]`, and 66 bytes to `esp_password`. -/
theorem arrays_left :
    ¬ StaysInside noGroup ∧ ¬ StaysInside shorter ∧ ¬ StaysInside longPassword :=
  ⟨not_staysInside_of_exec (by decide +kernel), not_staysInside_of_exec (by decide +kernel),
    not_staysInside_of_exec (by decide +kernel)⟩

end Sv6x66.Colink.EspBounds
