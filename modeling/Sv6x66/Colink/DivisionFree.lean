import Sv6x66.Colink.CloudSafety
import Sv6x66.Colink.UpTimer

/-! When `get_min_time` divides by zero over a list that the cloud has sent. The
divisor is a number out of the text of a `duration` entry, and nothing checks it. -/
namespace Sv6x66.Colink.DivisionFree
open Sv6x66.Lib
open Sv6x66.Lib.CString
open Sv6x66.Lib.CJson
open Sv6x66.Colink.MinTime
open Sv6x66.Colink.Mytime
open Sv6x66.Colink.KeyLedQueue
open Sv6x66.Colink.TimerStore
open Sv6x66.Colink.TimerText
open Sv6x66.Colink.RecvUpdate
open Sv6x66.Colink.UpdateExact
open Sv6x66.Colink.CloudSafety
open Sv6x66.Colink.UpTimer

theorem toNat_ofInt_eq_zero (n : Int) : (UInt16.ofInt n).toNat = 0 ↔ (2 ^ 16 : Int) ∣ n := by
  unfold UInt16.ofInt
  rw [UInt16.toNat_ofNat']
  omega

section

variable [AtoiBeyond]

/-- The text of a `duration` entry has no cycle, or one that vanishes in 16 bits, and
the entry has begun. -/
def ZeroCycle (curTime : Nat) (item : CJson) : Prop :=
  typeOf item = some (ofString "duration") ∧
    ∃ text atTime, textOf (getObjectItem (some item) (ofString "at")) = some text ∧
      mytimeStrToTime text = some atTime ∧ atTime.toNat < curTime ∧
      (2 ^ 16 : Int) ∣ atoiInt (text.drop 25)

/-- An entry is stored as a timer that divides by zero exactly if its text says so. -/
theorem dividesByZero_iff {cronOf : Bytes → Option CronLite} {item : CJson}
    {timer : ColinkAppTimer} (h : readTimerBy cronOf (some item) = some timer) (curTime : Nat) :
    DividesByZero curTime timer ↔ ZeroCycle curTime item := by
  obtain ⟨honceRepeat, honceDuration, hrepeatDuration⟩ := type_texts_ne
  unfold DividesByZero ZeroCycle
  obtain ⟨htype, hread⟩ | ⟨htype, hread⟩ | ⟨htype, hread⟩ | ⟨hother, rfl⟩ :=
    readTimerBy_cases h
  · rw [readOnce_type hread, htype]
    simp [colinkTypeOnce, colinkTypeDuration, honceDuration]
  · rw [readRepeatBy_type hread, htype]
    simp [colinkTypeRepeat, colinkTypeDuration, hrepeatDuration]
  · obtain ⟨htimer, text, htext, hatTime, hcycle⟩ := readDuration_spec hread
    change textOf (getObjectItem (some item) (ofString "at")) = some text at htext
    rw [htimer, htype, htext, hcycle, toNat_ofInt_eq_zero]
    simp [hatTime]
  · have hne : typeOf item ≠ some (ofString "duration") := by
      intro htype
      simp [recognised, htype] at hother
    simp [blankTimer, colinkTypeDuration, hne]

/-- What a call leaves behind that stores a schedule. -/
theorem colinkRecvUpdateBy_store {cronOf : Bytes → Option CronLite} {m m' : Globals}
    {heap : Heap} {root : CJson} {sent : List Message}
    {block : Vector ColinkAppTimer (requested (some root))}
    (hheap : heap (requested (some root)) = some block)
    (h : colinkRecvUpdateBy cronOf m heap (some root) = some (m', sent))
    (hstore : timerUpdateTime ∈ sent) :
    FrontFill.fill (readTimerBy cronOf) advances ((entries root).map some) block.toList =
      some (ramList m') := by
  have hbright : timerUpdateTime ∉
      (getObjectItem (some root) (ofString "bright")).toList.map fun switchP =>
        ctrlBrightCb switchP.valueint := by
    simp [timerUpdateTime, ctrlBrightCb]
  cases hswitch : getObjectItem (some root) (ofString "switch") with
  | some switchP =>
    unfold colinkRecvUpdateBy at h
    simp only [hswitch] at h
    exact absurd hstore (recvSwitch_state h).2
  | none =>
    cases hmode : getObjectItem (some root) (ofString "mode") with
    | some switchP =>
      unfold colinkRecvUpdateBy at h
      simp only [hswitch, hmode] at h
      cases h
      rcases List.mem_append.mp hstore with hmem | hmem
      · exact absurd hmem hbright
      · exact absurd hmem (recvMode_state m switchP).2
    | none =>
      cases htimers : getObjectItem (some root) (ofString "timers") with
      | none =>
        unfold colinkRecvUpdateBy at h
        simp only [hswitch, hmode, htimers] at h
        cases h
        exact absurd hstore hbright
      | some timers =>
        obtain ⟨hrequested, hitems, hcall⟩ := colinkRecvUpdateBy_timers
          hswitch hmode htimers
        rw [hcall] at h
        obtain ⟨result, hresult, heq⟩ := Option.map_eq_some_iff.mp h
        cases heq
        unfold recvTimersBy at hresult
        dsimp only at hresult
        rw [← hrequested] at hresult
        by_cases hpos : requested (some root) > 0
        · rw [if_pos hpos, fillBufferBy_of_block hheap, hitems] at hresult
          obtain ⟨slots, hslots, heq⟩ := Option.map_eq_some_iff.mp hresult
          cases heq
          have hlength := FrontFill.length_fill hslots
          rw [Vector.length_toList] at hlength
          have hram : ramList (stored m slots (requested (some root))) = slots :=
            ramList_of_some rfl (congrArg Nat.cast hlength.symm)
          rw [hslots, hram]
        · rw [if_neg hpos] at hresult
          cases hresult
          exact absurd (by simpa using hstore) hbright

/-- The timers read from the entries, one for each. -/
theorem mapM_readTimerBy {cronOf : Bytes → Option CronLite} {items : List CJson}
    {timers : List ColinkAppTimer}
    (h : (items.map some).mapM (readTimerBy cronOf) = some timers) (curTime : Nat) :
    timers.map advances = items.map recognised ∧
      ((∀ t ∈ timers, ¬ DividesByZero curTime t) ↔ ∀ item ∈ items, ¬ ZeroCycle curTime item) := by
  induction items generalizing timers with
  | nil =>
    cases h
    simp
  | cons item items ih =>
    obtain ⟨timer, others, htimer, hothers, rfl⟩ := FrontFill.mapM_cons_eq_some h
    obtain ⟨hflags, hdivides⟩ := ih hothers
    constructor
    · rw [List.map_cons, List.map_cons, hflags, advances_readTimerBy htimer]
    · rw [List.forall_mem_cons, List.forall_mem_cons, hdivides, dividesByZero_iff htimer]

/-- The scan of a stored list is defined at an instant exactly if none of the entries
has a zero cycle then, and no slot that the entries left as it was holds such a timer. -/
theorem getMinTime_isSome_iff (cronOf : Bytes → Option CronLite) (m m' : Globals) (heap : Heap)
    (root : CJson) (sent : List Message) (block : Vector ColinkAppTimer (requested (some root)))
    (hheap : heap (requested (some root)) = some block)
    (h : colinkRecvUpdateBy cronOf m heap (some root) = some (m', sent))
    (hstore : timerUpdateTime ∈ sent) (curTime : UInt32) (doSwitch : UInt8) :
    (getMinTime curTime doSwitch (ramList m')).isSome ↔
      (∀ item ∈ entries root, ¬ ZeroCycle curTime.toNat item) ∧
        ∀ slot ∈ block.toList.drop (FrontFill.touched ((entries root).map recognised)),
          ¬ DividesByZero curTime.toNat slot := by
  have hfill := colinkRecvUpdateBy_store hheap h hstore
  obtain ⟨timers, htimers⟩ := FrontFill.mapM_of_fill hfill
  obtain ⟨hflags, hdivides⟩ := mapM_readTimerBy htimers curTime.toNat
  have hother : ∀ timer, advances timer = false → ¬ DividesByZero curTime.toNat timer := by
    intro timer htimer hdivides
    simp [advances, hdivides.1, colinkTypeDuration] at htimer
  rw [← hdivides, ← hflags, ← FrontFill.forall_mem_fill hother htimers hfill,
    Option.isSome_iff_ne_none, ne_eq, getMinTime_eq_none_iff]
  simp

end

/-! ### A cycle of no minutes -/

local instance : AtoiBeyond := saturating

def pulseEntry (minutes : Bytes) : CJson := .object [
  (ofString "type", .string (ofString "duration")),
  (ofString "enabled", .number 1),
  (ofString "at", .string (ofString "2018-10-08T05:46:00.000Z " ++ minutes ++ ofString " 5")),
  (ofString "startDo", .object [(ofString "switch", .string (ofString "on"))]),
  (ofString "endDo", .object [(ofString "switch", .string (ofString "off"))])]

def pulse (cycle : UInt16) : ColinkAppTimer where
  type := colinkTypeDuration
  enable := 1
  atTime := 1538977560
  startDo := 1
  endDo := 0
  cycle := cycle
  delay := 5

theorem store_pulse : colinkRecvUpdateBy mytimeStrRepeat started (evenHeap true)
    (some (cloudRoot [pulseEntry (ofString "0")])) =
      some (stored started [pulse 0] 1, [timerUpdateTime]) := by
  decide

theorem store_pulse_30 : colinkRecvUpdateBy mytimeStrRepeat started (evenHeap true)
    (some (cloudRoot [pulseEntry (ofString "30")])) =
      some (stored started [pulse 30] 1, [timerUpdateTime]) := by
  decide

/-- Every half an hour is fine, every 0 minutes is not. -/
theorem getMinTime_isSome_iff_pulse :
    ((∀ item ∈ entries (cloudRoot [pulseEntry (ofString "30")]), ¬ ZeroCycle 1600000000 item) ∧
      ∀ slot ∈ (Vector.replicate 1 blankTimer).toList.drop (FrontFill.touched
          ((entries (cloudRoot [pulseEntry (ofString "30")])).map recognised)),
        ¬ DividesByZero 1600000000 slot) ∧
    ¬ ((∀ item ∈ entries (cloudRoot [pulseEntry (ofString "0")]), ¬ ZeroCycle 1600000000 item) ∧
      ∀ slot ∈ (Vector.replicate 1 blankTimer).toList.drop (FrontFill.touched
          ((entries (cloudRoot [pulseEntry (ofString "0")])).map recognised)),
        ¬ DividesByZero 1600000000 slot) := by
  constructor
  · exact (getMinTime_isSome_iff mytimeStrRepeat started (stored started [pulse 30] 1)
      (evenHeap true) (cloudRoot [pulseEntry (ofString "30")]) [timerUpdateTime]
      (Vector.replicate 1 blankTimer) rfl store_pulse_30 (List.mem_singleton_self _)
      1600000000 0).mp (by decide)
  · exact mt (getMinTime_isSome_iff mytimeStrRepeat started (stored started [pulse 0] 1)
      (evenHeap true) (cloudRoot [pulseEntry (ofString "0")]) [timerUpdateTime]
      (Vector.replicate 1 blankTimer) rfl store_pulse (List.mem_singleton_self _)
      1600000000 0).mpr (by decide)

theorem pulse_divides_by_zero : ¬ ∀ cronOf m m' heap root sent,
    colinkRecvUpdateBy cronOf m heap (some root) = some (m', sent) → timerUpdateTime ∈ sent →
      ∀ curTime doSwitch, (getMinTime curTime doSwitch (ramList m')).isSome := by
  intro hall
  have h := hall _ _ _ _ _ _ store_pulse (List.mem_singleton_self _) 1600000000 0
  exact absurd h (by decide)

end Sv6x66.Colink.DivisionFree
