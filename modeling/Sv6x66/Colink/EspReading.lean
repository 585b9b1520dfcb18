import Sv6x66.Colink.EspSession
import Sv6x66.Lib.Recording

/-! What the frames of a run say to the receiver of `esp_touch.c`: which packets it
hears, by their groups and the lengths of their data, and the data these carry. The
reading has no array to leave. -/
namespace Sv6x66.Colink.EspReading
open Sv6x66.Lib Function EspTouch EspRun EspFinish EspSession

/-- `length`, less the part of a packet that carries no data. -/
def dataLength (s : Smnt) (f : Frame) : Int :=
  f.length - (s.offsetLen.toNat + espTouchPacketSub : Nat)

/-- One more packet of the group under way. -/
def Continues (s : Smnt) (f : Frame) : Prop :=
  Takes s f ∧ SameGroup f.pDest ∧ dataLength s f < (espTouchMaxNum + 0x100 : Nat) ∧
    s.groupAddr = f.group

/-- A packet of the group under way that is not the first one. -/
theorem takePacket_of_continues {s : Smnt} {f : Frame} (h : Continues s f) :
    takePacket s f.pDest f.length =
      if hslot : s.packetCount.toNat < 3 then
        if (s.packetData ⟨_, hslot⟩).toNat = dataLength s f then some (.ignored, holdChannel s)
        else some (if (s.packetCount + 1).toNat = dataPacketNum then .last else .next,
          { holdChannel s with
            packetData := update s.packetData ⟨_, hslot⟩ (toUint16 (dataLength s f))
            packetCount := s.packetCount + 1 })
      else none := by
  obtain ⟨-, hsame, hshort, hgroup⟩ := h
  have hnear : ¬ (f.length : Int) - ((holdChannel s).offsetLen.toNat + espTouchPacketSub : Nat) ≥
      (espTouchMaxNum + 0x100 : Nat) := not_le.mpr hshort
  have hheld : (holdChannel s).groupAddr = f.pDest 3 := hgroup
  unfold takePacket
  rw [if_neg (not_not.mpr hsame)]
  dsimp only
  rw [if_neg hnear, if_pos hheld]
  rfl

/-- A lock, or a packet of the phone locked on. -/
inductive Heard where
  | lock
  | packet (group : UInt8) (length : Int)

/-- What the receiver hears of an event, from the state it is locked in. -/
def heard (s : Smnt) : Event → Option Heard
  | .frame f =>
    if Takes s f then
      if SameGroup f.pDest then some (.packet f.group (dataLength s f)) else none
    else if Locks s f then some .lock
    else none
  | .tick => none

/-- The run with a record of what was heard. -/
def listen : Sys × List Heard → Event → Option (Sys × List Heard) :=
  recording step fun s event => (heard s.smnt event).toList

/-! ### The reading -/

/-- The datum under way, of which `count` packets were heard, with the lengths heard last in
each of the three places, and the data entered. -/
structure Reading where
  group : UInt8
  count : Fin 3
  lengths : Fin 3 → Int
  data : List Datum

/-- A packet of this length belongs to no datum. -/
def TooLong (length : Int) : Prop := length ≥ (espTouchMaxNum + 0x100 : Nat)

instance (length : Int) : Decidable (TooLong length) := inferInstanceAs (Decidable (_ ≥ _))

/-- The byte with this index: the last one that was entered, or 0. -/
def valueOf (data : List Datum) (i : Nat) : UInt8 :=
  data.foldl (fun value d => if d.index.toNat = i then d.value else value) 0

def words (lengths : Fin 3 → Int) : Fin 3 → UInt16 := fun i => toUint16 (lengths i)

namespace Reading

variable (r : Reading)

/-- One more packet of the datum under way. -/
def Goes (group : UInt8) : Prop := r.count ≠ 0 ∧ r.group = group

/-- The length that was heard last in the same place is taken for the packet before. -/
def Repeats (length : Int) : Prop := ((toUint16 (r.lengths r.count)).toNat : Int) = length

instance (group : UInt8) : Decidable (r.Goes group) := inferInstanceAs (Decidable (_ ∧ _))
instance (length : Int) : Decidable (r.Repeats length) := inferInstanceAs (Decidable (_ = _))

/-- The packets of the datum under way, with this one. -/
def place (group : UInt8) (length : Int) : Reading :=
  if TooLong length then r
  else if r.Goes group then
    if r.Repeats length then r
    else { r with lengths := update r.lengths r.count length, count := r.count + 1 }
  else { r with group, lengths := update r.lengths 0 length, count := 1 }

/-- The third packet of a datum. -/
def Third (group : UInt8) (length : Int) : Prop :=
  ¬ TooLong length ∧ r.Goes group ∧ r.count = 2 ∧ ¬ r.Repeats length

instance (group : UInt8) (length : Int) : Decidable (r.Third group length) :=
  inferInstanceAs (Decidable (_ ∧ _ ∧ _ ∧ _))

/-- The datum with a correct CRC that the packet completes. -/
def carried (group : UInt8) (length : Int) : Option Datum :=
  if r.Third group length then checkDatum (words (update r.lengths 2 length)) else none

/-- A datum is entered where there is 0. -/
def enter : Option Datum → Reading
  | some d => if valueOf r.data d.index.toNat = 0 then { r with data := r.data ++ [d] } else r
  | none => r

def hear : Heard → Reading
  | .lock => { r with count := 0 }
  | .packet group length => (r.place group length).enter (r.carried group length)

end Reading

/-- Before the first frame. -/
def silence : Reading := ⟨0xFF, 0, fun _ => 0, []⟩

def reading (all : List Heard) : Reading := all.foldl Reading.hear silence

theorem valueOf_concat (data : List Datum) (d : Datum) (i : Nat) :
    valueOf (data ++ [d]) i = if d.index.toNat = i then d.value else valueOf data i := by
  simp [valueOf, List.foldl_append]

theorem reading_append (all more : List Heard) :
    reading (all ++ more) = more.foldl Reading.hear (reading all) := List.foldl_append

/-! ### The receiver follows the reading -/

/-- The bytes entered. -/
structure HasData (s : Smnt) (data : List Datum) : Prop where
  payload : ∀ i : Fin 128, s.payloadMulticast i = valueOf data i
  passwordLen : s.passwordLen = valueOf data 1
  index : s.index = UInt16.ofNat data.length

structure Reads (s : Smnt) (r : Reading) : Prop where
  data : HasData s r.data
  packetData : s.packetData = words r.lengths
  /-- After a lock and after a datum `group_addr` is 255, and the places are used up. -/
  between : s.state = .locked → r.count = 0 → s.groupAddr = 0xFF ∧ 3 ≤ s.packetCount.toNat
  underway : s.state = .locked → r.count ≠ 0 →
    s.groupAddr = r.group ∧ s.packetCount.toNat = r.count

variable {s t taken : Smnt} {r : Reading}

theorem HasData.same {data : List Datum} (h : HasData s data)
    (hpayload : t.payloadMulticast = s.payloadMulticast) (hindex : t.index = s.index)
    (hpassword : t.passwordLen = s.passwordLen) : HasData t data :=
  ⟨fun i => (congrFun hpayload i).trans (h.payload i), hpassword.trans h.passwordLen,
    hindex.trans h.index⟩

theorem HasData.entered {data : List Datum} (h : HasData s data) {d : Datum}
    {hd : d.index.toNat < 128} (hentered : Entered s d hd t) : HasData t (data ++ [d]) where
  payload := fun i => by
    rw [hentered.payload, valueOf_concat]
    by_cases hi : i = ⟨_, hd⟩
    · rw [hi, update_self, if_pos rfl]
    · rw [update_of_ne hi, if_neg fun heq => hi (Fin.ext heq.symm), h.payload]
  passwordLen := by
    rw [hentered.passwordLen, valueOf_concat, passwordLenWith, h.passwordLen]
    exact ite_congr (by rw [← UInt8.toNat_inj]; rfl) (fun _ => rfl) fun _ => rfl
  index := by
    rw [hentered.index, h.index, List.length_append]
    exact (UInt16.ofNat_add ..).symm

theorem reads_initial : Reads initial.smnt silence where
  data := ⟨fun _ => rfl, rfl, rfl⟩
  packetData := rfl
  between := fun hstate => by cases hstate
  underway := fun hstate => by cases hstate

theorem next_count {count : Fin 3} (h : count ≠ 2) : ((count + 1 : Fin 3) : Nat) = count + 1 := by
  revert count
  decide

theorem update_words (lengths : Fin 3 → Int) (i : Fin 3) (length : Int) :
    update (words lengths) i (toUint16 length) = words (update lengths i length) :=
  (comp_update toUint16 lengths i length).symm

/-- What a packet of one group does to the datum under way, in the receiver and in the
reading. -/
structure Placed (r : Reading) (group : UInt8) (length : Int) (packet : Packet)
    (taken : Smnt) : Prop where
  packetData : taken.packetData = words (r.place group length).lengths
  last_iff : packet = .last ↔ r.Third group length
  used : packet = .last → 3 ≤ taken.packetCount.toNat
  between : packet ≠ .last → (r.place group length).count = 0 →
    taken.groupAddr = 0xFF ∧ 3 ≤ taken.packetCount.toNat
  underway : packet ≠ .last → (r.place group length).count ≠ 0 →
    taken.groupAddr = (r.place group length).group ∧
      taken.packetCount.toNat = (r.place group length).count

namespace Reads

/-- The receiver looks for a lock, or only the timers went on. -/
theorem search (h : Reads s r) (hdata : SameData s t)
    (hsame : t.state = .locked → s.state = .locked ∧ t.groupAddr = s.groupAddr ∧
      t.packetCount = s.packetCount) : Reads t r where
  data := h.data.same hdata.payload hdata.index hdata.passwordLen
  packetData := hdata.packetData.trans h.packetData
  between := fun hstate hcount => by
    obtain ⟨hlocked, hgroup, hpackets⟩ := hsame hstate
    rw [hgroup, hpackets]
    exact h.between hlocked hcount
  underway := fun hstate hcount => by
    obtain ⟨hlocked, hgroup, hpackets⟩ := hsame hstate
    rw [hgroup, hpackets]
    exact h.underway hlocked hcount

theorem lock (h : Reads s r) {f : Frame} (hlock : LockedBy s f t) : Reads t (r.hear .lock) where
  data := h.data.same hlock.payload hlock.index hlock.passwordLen
  packetData := hlock.packetData.trans h.packetData
  between := fun _ _ => ⟨hlock.closed, hlock.full⟩
  underway := fun _ hcount => absurd rfl hcount

theorem goes_of_groupAddr (h : Reads s r) (hlocked : s.state = .locked) {group : UInt8}
    (hgroup : s.groupAddr = group) (hslot : s.packetCount.toNat < 3) :
    r.Goes group ∧ s.packetCount.toNat = r.count := by
  have hcount : r.count ≠ 0 := fun hzero => by
    have := (h.between hlocked hzero).2
    omega
  obtain ⟨hgroup', hcount'⟩ := h.underway hlocked hcount
  exact ⟨⟨hcount, hgroup'.symm.trans hgroup⟩, hcount'⟩

theorem groupAddr_of_goes (h : Reads s r) (hlocked : s.state = .locked) {group : UInt8}
    (hgoes : r.Goes group) : s.groupAddr = group ∧ s.packetCount.toNat = r.count := by
  obtain ⟨hgroup, hcount⟩ := h.underway hlocked hgoes.1
  exact ⟨hgroup.trans hgoes.2, hcount⟩

/-- A packet that changes nothing. -/
theorem placed_same (h : Reads s r) (hlocked : s.state = .locked) {group : UInt8} {length : Int}
    (hplace : r.place group length = r) (hthird : ¬ r.Third group length) :
    Placed r group length .ignored (holdChannel s) where
  packetData := by
    rw [hplace]
    exact h.packetData
  last_iff := iff_of_false (by decide) hthird
  used := by intro hlast; cases hlast
  between := fun _ hcount => by
    rw [hplace] at hcount
    exact h.between hlocked hcount
  underway := fun _ hcount => by
    rw [hplace] at hcount ⊢
    exact h.underway hlocked hcount

/-- The next packet of a group. -/
theorem placed_next (h : Reads s r) {group : UInt8} {length : Int} (hlong : ¬ TooLong length)
    (hgoes : r.Goes group) (hgroup : s.groupAddr = group) (hcount : s.packetCount.toNat = r.count)
    (hnew : ¬ r.Repeats length) :
    Placed r group length (if (s.packetCount + 1).toNat = dataPacketNum then .last else .next)
      { holdChannel s with
        packetData := update s.packetData r.count (toUint16 length)
        packetCount := s.packetCount + 1 } := by
  have hplace : r.place group length =
      { r with lengths := update r.lengths r.count length, count := r.count + 1 } := by
    rw [Reading.place, if_neg hlong, if_pos hgoes, if_neg hnew]
  have hsum : (s.packetCount + 1).toNat = r.count + 1 := by
    have := r.count.isLt
    rw [UInt8.toNat_add, UInt8.toNat_one, hcount]
    omega
  have hlast : (s.packetCount + 1).toNat = dataPacketNum ↔ r.count = 2 := by
    rw [hsum, Fin.ext_iff, dataPacketNum]
    exact Nat.succ_inj
  constructor
  · rw [hplace, ← update_words, ← h.packetData]
  · rw [ite_eq_left_iff, Reading.Third]
    simp only [reduceCtorEq, imp_false, not_not, hlast, hlong, hgoes, hnew, not_false_eq_true,
      true_and, and_true]
  · intro hpacket
    rw [ite_eq_left_iff] at hpacket
    have htwo : r.count = 2 := by
      by_contra hne
      cases hpacket fun heq => hne (hlast.mp heq)
    change 3 ≤ (s.packetCount + 1).toNat
    rw [hsum, htwo]
    decide
  · intro hpacket hzero
    rw [hplace] at hzero
    have hnottwo : r.count ≠ 2 := fun htwo => hpacket (if_pos (hlast.mpr htwo))
    have hval := next_count hnottwo
    rw [show r.count + 1 = 0 from hzero] at hval
    cases hval
  · intro hpacket _
    rw [hplace]
    have hnottwo : r.count ≠ 2 := fun htwo => hpacket (if_pos (hlast.mpr htwo))
    exact ⟨hgroup.trans hgoes.2.symm, hsum.trans (next_count hnottwo).symm⟩

/-- The first packet of a group. -/
theorem placed_first (h : Reads s r) {group : UInt8} {length : Int} (hlong : ¬ TooLong length)
    (hgoes : ¬ r.Goes group) :
    Placed r group length .first { holdChannel s with
      packetData := update s.packetData 0 (toUint16 length)
      groupAddr := group
      packetCount := 1 } := by
  have hplace : r.place group length =
      { r with group, lengths := update r.lengths 0 length, count := 1 } := by
    rw [Reading.place, if_neg hlong, if_neg hgoes]
  constructor
  · rw [hplace, ← update_words, ← h.packetData]
  · exact iff_of_false (by decide) fun hthird => hgoes hthird.2.1
  · intro hlast
    cases hlast
  · intro _ hzero
    rw [hplace] at hzero
    cases hzero
  · intro _ _
    rw [hplace]
    exact ⟨rfl, rfl⟩

theorem placed (h : Reads s r) {f : Frame} (htakes : Takes s f) (hsame : SameGroup f.pDest)
    {packet : Packet} (htook : takePacket s f.pDest f.length = some (packet, taken)) :
    Placed r f.group (dataLength s f) packet taken := by
  by_cases hcontinues : Continues s f
  · obtain ⟨-, -, hshort, hgroup⟩ := id hcontinues
    have hlong : ¬ TooLong (dataLength s f) := not_le.mpr hshort
    rw [takePacket_of_continues hcontinues] at htook
    by_cases hslot : s.packetCount.toNat < 3
    · obtain ⟨hgoes, hcount⟩ := h.goes_of_groupAddr htakes.1 hgroup hslot
      have hplace : (⟨s.packetCount.toNat, hslot⟩ : Fin 3) = r.count := Fin.ext hcount
      have hrepeats : ((s.packetData r.count).toNat : Int) = dataLength s f ↔
          r.Repeats (dataLength s f) := by
        rw [h.packetData]
        rfl
      rw [dif_pos hslot, hplace] at htook
      by_cases hrepeat : r.Repeats (dataLength s f)
      · rw [if_pos (hrepeats.mpr hrepeat)] at htook
        cases htook
        refine h.placed_same htakes.1 ?_ fun hthird => hthird.2.2.2 hrepeat
        rw [Reading.place, if_neg hlong, if_pos hgoes, if_pos hrepeat]
      · rw [if_neg fun heq => hrepeat (hrepeats.mp heq)] at htook
        cases htook
        exact h.placed_next hlong hgoes hgroup hcount hrepeat
    · rw [dif_neg hslot] at htook
      cases htook
  · unfold takePacket at htook
    rw [if_neg (not_not.mpr hsame)] at htook
    dsimp only at htook
    split at htook
    · rename_i hlong
      cases htook
      exact h.placed_same htakes.1 (if_pos hlong) fun hthird => hthird.1 hlong
    · rename_i hlong
      have hother : ¬ (holdChannel s).groupAddr = f.pDest 3 := fun hgroup =>
        hcontinues ⟨htakes, hsame, not_le.mp hlong, hgroup⟩
      rw [if_neg hother] at htook
      cases htook
      exact h.placed_first hlong fun hgoes => hother (h.groupAddr_of_goes htakes.1 hgoes).1

/-- Behind a datum. -/
theorem closed {r : Reading} (hdata : HasData t r.data) (hwords : t.packetData = words r.lengths)
    (hgroup : t.groupAddr = 0xFF) (hused : 3 ≤ t.packetCount.toNat) (hcount : r.count = 0) :
    Reads t r :=
  ⟨hdata, hwords, fun _ _ => ⟨hgroup, hused⟩, fun _ hne => absurd hcount hne⟩

/-- A packet of the phone. -/
theorem take (h : Reads s r) {f : Frame} (htakes : Takes s f) (hsame : SameGroup f.pDest)
    (hadd : esptouchSmntMuticastadd s f.pDest f.length = some t) :
    Reads t (r.hear (.packet f.group (dataLength s f))) := by
  cases htook : takePacket s f.pDest f.length with
  | none =>
    rw [esptouchSmntMuticastadd, htook] at hadd
    cases hadd
  | some result =>
    obtain ⟨packet, taken⟩ := result
    have hplaced := h.placed htakes hsame htook
    have hkept := (takePacket_spec htook).kept
    have hdata : HasData taken r.data := h.data.same hkept.payload hkept.index hkept.passwordLen
    rw [muticastadd_eq htook] at hadd
    rw [Reading.hear, Reading.carried]
    by_cases hlast : packet = .last
    · have hthird := hplaced.last_iff.mp hlast
      obtain ⟨hlong, hgoes, htwo, hnew⟩ := id hthird
      have hplace : r.place f.group (dataLength s f) =
          { r with lengths := update r.lengths 2 (dataLength s f), count := 0 } := by
        rw [Reading.place, if_neg hlong, if_pos hgoes, if_neg hnew, htwo]
        rfl
      have hwords := hplaced.packetData
      rw [if_pos hlast, Option.map_eq_some_iff] at hadd
      obtain ⟨u, hu, rfl⟩ := hadd
      rw [hplace] at hwords
      rw [if_pos hthird, hplace]
      rw [acceptDatum, hwords] at hu
      cases hcheck : checkDatum (words (update r.lengths 2 (dataLength s f))) with
      | none =>
        simp only [hcheck, Option.some.injEq] at hu
        subst hu
        exact closed (hdata.same rfl rfl rfl) hwords rfl (hplaced.used hlast) rfl
      | some d =>
        simp only [hcheck] at hu
        split at hu
        · rename_i hd
          cases hu
          have hzero : taken.payloadMulticast ⟨_, hd⟩ = valueOf r.data d.index.toNat :=
            hdata.payload ⟨_, hd⟩
          rw [hzero, Reading.enter]
          split
          · have hentered := entered_storeDatum hd hkept (by rw [htakes.1]; decide)
            exact closed (h.data.entered hentered) hwords rfl (hplaced.used hlast) rfl
          · exact closed (hdata.same rfl rfl rfl) hwords rfl (hplaced.used hlast) rfl
        · cases hu
    · have hnothird : ¬ r.Third f.group (dataLength s f) := fun hthird =>
        hlast (hplaced.last_iff.mpr hthird)
      have hsamedata : (r.place f.group (dataLength s f)).data = r.data := by
        unfold Reading.place
        split_ifs <;> rfl
      rw [if_neg hlast, Option.some.injEq] at hadd
      subst hadd
      rw [if_neg hnothird]
      exact ⟨hsamedata.symm ▸ hdata, hplaced.packetData, fun _ => hplaced.between hlast,
        fun _ => hplaced.underway hlast⟩

theorem frame (h : Reads s r) {f : Frame} (hdata : esptouchSmntDatahandler s f = some t) :
    Reads t ((heard s (.frame f)).toList.foldl Reading.hear r) := by
  rw [heard]
  by_cases htakes : Takes s f
  · rw [if_pos htakes]
    rw [datahandler_takes htakes] at hdata
    by_cases hsame : SameGroup f.pDest
    · rw [if_pos hsame]
      exact h.take htakes hsame hdata
    · have hsome : takePacket s f.pDest f.length = some (.ignored, s) := if_pos hsame
      rw [muticastadd_eq hsome] at hdata
      cases hdata
      rw [if_neg hsame]
      exact h
  · have hlocks : Locks s f ↔ s.state = .locking ∧ t.state = .locked := by
      simp [Locks, hdata]
    rw [if_neg htakes]
    obtain rfl | ⟨-, -, hlocking, hsame⟩ | ⟨hlocking, hlock⟩ := datahandler_untaken hdata htakes
    · rw [if_neg fun hlock => by
        obtain ⟨hlocking, hlocked⟩ := hlocks.mp hlock
        exact absurd (hlocking.symm.trans hlocked) (by decide)]
      exact h
    · rw [if_neg fun hlock => absurd (hlocking.symm.trans (hlocks.mp hlock).2) (by decide)]
      exact h.search hsame fun hlocked => absurd (hlocking.symm.trans hlocked) (by decide)
    · rw [if_pos (hlocks.mpr ⟨hlocking, hlock.locked⟩)]
      exact h.lock hlock

theorem tick (h : Reads s r) : Reads (esptouchSmntCyclecall s) r := by
  obtain ⟨hdata, ⟨skip, probability, hsame⟩ | ⟨-, hlocking⟩⟩ := cyclecall_spec s
  · refine h.search hdata fun hlocked => ?_
    rw [hsame] at hlocked ⊢
    exact ⟨hlocked, rfl, rfl⟩
  · refine h.search hdata fun hlocked => ?_
    rw [hlocking] at hlocked
    cases hlocked

end Reads

theorem datahandler_of_step {s t : Sys} {f : Frame} (h : step s (.frame f) = some t) :
    esptouchSmntDatahandler s.smnt f = some t.smnt := by
  obtain ⟨smnt, hsmnt, hrest⟩ := Option.bind_eq_some_iff.mp h
  rw [hsmnt]
  split at hrest
  · obtain ⟨_, -, heq⟩ := Option.bind_eq_some_iff.mp hrest
    cases heq
    rfl
  · cases hrest
    rfl

/-- In every run the receiver holds what the reading of the packets says. -/
theorem reads_listen {p q : Sys × List Heard} {event : Event}
    (h : Reads p.1.smnt (reading p.2)) (hstep : listen p event = some q) :
    Reads q.1.smnt (reading q.2) := by
  obtain ⟨hstep, hall⟩ := recording_some.mp hstep
  rw [hall, reading_append]
  cases event with
  | frame f => exact h.frame (datahandler_of_step hstep)
  | tick =>
    rw [← Option.some.inj hstep]
    exact h.tick

end Sv6x66.Colink.EspReading
