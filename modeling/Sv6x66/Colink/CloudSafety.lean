import Sv6x66.Colink.CronText
import Sv6x66.Colink.UpdateExact

/-! When `colinkRecvUpdate` stays away from `NULL` and inside the strings. A line
of a `repeat` timer may leave members of its record unassigned, and shift by a
number that is no bit; neither is a dereference, so both have a value here, any
one, and the only line without a result is one that is read behind its NUL. -/
namespace Sv6x66.Colink.CloudSafety
open Sv6x66.Lib
open Sv6x66.Lib.CString
open Sv6x66.Lib.CJson
open Sv6x66.Colink.MinTime
open Sv6x66.Colink.Mytime
open Sv6x66.Colink.KeyLedQueue
open Sv6x66.Colink.TimerStore
open Sv6x66.Colink.TimerText
open Sv6x66.Colink.CronText
open Sv6x66.Colink.RecvUpdate
open Sv6x66.Colink.UpdateExact

/-! ### What the source leaves open -/

/-- The stack under `cron`, and what `1 << n` gives where it is not defined. -/
structure Leftover where
  cron : CronLite
  shift : Int → UInt8

section

variable [AtoiBeyond]

def weekBitFrom (left : Leftover) (p1 : Bytes) : UInt8 :=
  (weekBit p1).getD (left.shift (atoiInt p1))

def weekBitsFrom (left : Leftover) : (p p1 : Bytes) → UInt8 → UInt8
  | [], p1, bits => bits ||| weekBitFrom left p1
  | byte :: rest, p1, bits =>
    if byte.toNat = 44 then weekBitsFrom left rest rest (bits ||| weekBitFrom left p1)
    else weekBitsFrom left rest p1 bits

def mytimeStrRepeatFrom (left : Leftover) (cronstr : Bytes) : Option CronLite := do
  let (p, cron) ← cronHead cronstr cronstr true ⟨none, none⟩
  return ⟨cron.hour.getD left.cron.hour, cron.min.getD left.cron.min, 0, weekBitsFrom left p p 0⟩

theorem weekBitsFrom_of_some {left : Leftover} {p p1 : Bytes} {bits result : UInt8}
    (h : weekBits p p1 bits = some result) : weekBitsFrom left p p1 bits = result := by
  induction p generalizing p1 bits with
  | nil =>
    rw [weekBits] at h
    obtain ⟨bit, hbit, rfl⟩ := Option.map_eq_some_iff.mp h
    rw [weekBitsFrom, weekBitFrom, hbit]
    rfl
  | cons byte rest ih =>
    rw [weekBits] at h
    rw [weekBitsFrom]
    split at h
    · obtain ⟨bit, hbit, hrest⟩ := Option.bind_eq_some_iff.mp h
      rw [if_pos ‹_›, weekBitFrom, hbit]
      exact ih hrest
    · rw [if_neg ‹_›]
      exact ih h

theorem mytimeStrRepeatFrom_of_some (left : Leftover) {cronstr : Bytes} {cron : CronLite}
    (h : mytimeStrRepeat cronstr = some cron) : mytimeStrRepeatFrom left cronstr = some cron := by
  obtain ⟨⟨p, head⟩, hhead, h⟩ := Option.bind_eq_some_iff.mp h
  obtain ⟨bits, hbits, h⟩ := Option.bind_eq_some_iff.mp h
  obtain ⟨hour, hhour, h⟩ := Option.bind_eq_some_iff.mp h
  obtain ⟨min, hmin, h⟩ := Option.bind_eq_some_iff.mp h
  cases h
  unfold mytimeStrRepeatFrom
  rw [hhead]
  simp [hhour, hmin, weekBitsFrom_of_some hbits]

/-- The cursor leaves the line at a star that stands too near to the end. -/
theorem mytimeStrRepeatFrom_isSome {left : Leftover} {cronstr : Bytes} :
    (mytimeStrRepeatFrom left cronstr).isSome ↔ Reads cronstr := by
  obtain ⟨cron, -, -, heq⟩ := cronHead_eq cronstr
  unfold mytimeStrRepeatFrom
  rw [heq]
  by_cases hreads : Reads cronstr
  · simp [hreads]
  · simp [hreads]

/-! ### The call with another parser of cron lines -/

section

variable (cronOf : Bytes → Option CronLite)

def readRepeatBy (oneTimer : Option CJson) : Option ColinkAppTimer := do
  let enable ← readEnabled oneTimer
  let cron ← cronOf (← readAt oneTimer)
  let startDo ← readSwitch oneTimer (ofString "do")
  return { blankTimer with type := colinkTypeRepeat, enable, atTime := cronWord cron, startDo }

def readTimerBy (oneTimer : Option CJson) : Option ColinkAppTimer := do
  let jsonTemp ← getObjectItem oneTimer (ofString "type")
  if ← jsonTemp.textIs (ofString "once") then readOnce oneTimer
  else if ← jsonTemp.textIs (ofString "repeat") then readRepeatBy cronOf oneTimer
  else if ← jsonTemp.textIs (ofString "duration") then readDuration oneTimer
  else return blankTimer

def fillBufferBy (m : Globals) (heap : Heap) (timers : CJson) (timerNum : Nat) :
    Option (Globals × List Message) := do
  let m := mytimeGetBuffer m heap timerNum
  let slots ← FrontFill.fill (readTimerBy cronOf) advances
    ((List.range timerNum).map timers.getArrayItem) (m.apTimerList.getD [])
  match m.apTimerList with
  | none => return (m, [])
  | some _ =>
    return (colinkSaveTimer { m with apTimerList := some slots } slots, [timerUpdateTime])

def recvTimersBy (m : Globals) (heap : Heap) (timers : CJson) :
    Option (Globals × List Message) :=
  let timerNum := timers.getArraySize % 256
  if timerNum > 0 then fillBufferBy cronOf m heap timers timerNum
  else some (mytimeCleanDelay m, [])

def colinkRecvUpdateBy (m : Globals) (heap : Heap) (jsonRoot : Option CJson) :
    Option (Globals × List Message) :=
  match jsonRoot with
  | none => some (m, [])
  | some _ =>
    match getObjectItem jsonRoot (ofString "switch") with
    | some switchP => recvSwitch m switchP
    | none =>
      let bright := (getObjectItem jsonRoot (ofString "bright")).toList.map fun switchP =>
        ctrlBrightCb switchP.valueint
      match getObjectItem jsonRoot (ofString "mode") with
      | some switchP =>
        let (m, sent) := recvMode m switchP
        some (m, bright ++ sent)
      | none =>
        match getObjectItem jsonRoot (ofString "timers") with
        | none => some (m, bright)
        | some timers =>
          (recvTimersBy cronOf m heap timers).map fun result => (result.1, bright ++ result.2)

end

theorem colinkRecvUpdateBy_mytimeStrRepeat :
    colinkRecvUpdateBy mytimeStrRepeat = colinkRecvUpdate := rfl

theorem readTimerBy_mono {cronOf cronOf' : Bytes → Option CronLite}
    (hcron : ∀ text cron, cronOf text = some cron → cronOf' text = some cron)
    (item : Option CJson) (timer : ColinkAppTimer) (h : readTimerBy cronOf item = some timer) :
    readTimerBy cronOf' item = some timer := by
  obtain ⟨jsonTemp, hitem, h⟩ := Option.bind_eq_some_iff.mp h
  obtain ⟨once, honce, h⟩ := Option.bind_eq_some_iff.mp h
  unfold readTimerBy
  rw [hitem, Option.bind_eq_bind, Option.bind_some, honce, Option.bind_eq_bind, Option.bind_some]
  cases once with
  | true => exact h
  | false =>
    rw [if_neg Bool.false_ne_true] at h ⊢
    obtain ⟨isRepeat, hrepeat, h⟩ := Option.bind_eq_some_iff.mp h
    rw [hrepeat, Option.bind_some]
    cases isRepeat with
    | false => exact h
    | true =>
      obtain ⟨enable, henable, h⟩ := Option.bind_eq_some_iff.mp h
      obtain ⟨text, htext, h⟩ := Option.bind_eq_some_iff.mp h
      obtain ⟨cron, hparse, h⟩ := Option.bind_eq_some_iff.mp h
      rw [if_pos rfl, readRepeatBy, henable, htext]
      simp only [Option.bind_eq_bind, Option.bind_some, hcron text cron hparse]
      exact h

/-- Whatever the stack held, a call with a result of its own has this result. -/
theorem colinkRecvUpdateBy_of_some (left : Leftover) {m : Globals} {heap : Heap}
    {jsonRoot : Option CJson} {result : Globals × List Message}
    (h : colinkRecvUpdate m heap jsonRoot = some result) :
    colinkRecvUpdateBy (mytimeStrRepeatFrom left) m heap jsonRoot = some result := by
  rw [← colinkRecvUpdateBy_mytimeStrRepeat] at h
  have hfill : ∀ timers timerNum result,
      fillBufferBy mytimeStrRepeat m heap timers timerNum = some result →
      fillBufferBy (mytimeStrRepeatFrom left) m heap timers timerNum = some result := by
    intro timers timerNum result h
    obtain ⟨slots, hslots, h⟩ := Option.bind_eq_some_iff.mp h
    have hslots' := FrontFill.fill_mono
      (readTimerBy_mono fun _ _ => mytimeStrRepeatFrom_of_some left) hslots
    unfold fillBufferBy
    dsimp only
    rw [hslots']
    exact h
  have hrecv : ∀ timers result, recvTimersBy mytimeStrRepeat m heap timers = some result →
      recvTimersBy (mytimeStrRepeatFrom left) m heap timers = some result := by
    intro timers result h
    unfold recvTimersBy at h ⊢
    dsimp only at h ⊢
    split at h
    · rw [if_pos ‹_›]
      exact hfill timers _ result h
    · rw [if_neg ‹_›]
      exact h
  unfold colinkRecvUpdateBy at h ⊢
  cases jsonRoot with
  | none => exact h
  | some root =>
    dsimp only at h ⊢
    split at h
    case h_1 hswitch => exact h
    case h_2 hswitch =>
      split at h
      case h_1 hmode => exact h
      case h_2 hmode =>
        split at h
        case h_1 => exact h
        case h_2 timers htimers =>
          obtain ⟨result, hresult, heq⟩ := Option.map_eq_some_iff.mp h
          rw [hrecv timers result hresult, Option.map_some, heq]

/-! ### What an entry must carry -/

/-- Everything the loop looks up in the entry is there, and is a string where one is
read, long enough for what is read of it. -/
structure Readable (item : CJson) : Prop where
  type : (typeOf item).isSome
  once : typeOf item = some (ofString "once") →
    CarriesEnabled item ∧ CarriesAt item DateText ∧ CarriesSwitch item (ofString "do")
  repeat_ : typeOf item = some (ofString "repeat") →
    CarriesEnabled item ∧ CarriesAt item Reads ∧ CarriesSwitch item (ofString "do")
  duration : typeOf item = some (ofString "duration") →
    CarriesEnabled item ∧ CarriesAt item DurationText ∧
      CarriesSwitch item (ofString "startDo") ∧ CarriesSwitch item (ofString "endDo")

omit [AtoiBeyond] in
theorem readRepeatBy_isSome_iff {cronOf : Bytes → Option CronLite}
    (hcron : ∀ text, (cronOf text).isSome ↔ Reads text) {item : CJson} :
    (readRepeatBy cronOf (some item)).isSome ↔
      CarriesEnabled item ∧ CarriesAt item Reads ∧ CarriesSwitch item (ofString "do") :=
  readWith_isSome_iff hcron fun enable cron startDo =>
    { blankTimer with type := colinkTypeRepeat, enable, atTime := cronWord cron, startDo }

theorem readTimerBy_eq {cronOf : Bytes → Option CronLite} {item : CJson} {type : Bytes}
    (h : typeOf item = some type) :
    readTimerBy cronOf (some item) =
      if type = ofString "once" then readOnce (some item)
      else if type = ofString "repeat" then readRepeatBy cronOf (some item)
      else if type = ofString "duration" then readDuration (some item)
      else some blankTimer :=
  readByType_eq h _ _ _

theorem readTimerBy_eq_none {cronOf : Bytes → Option CronLite} {item : CJson}
    (h : typeOf item = none) : readTimerBy cronOf (some item) = none := by
  unfold readTimerBy textIs
  unfold typeOf textOf at h
  cases hitem : getObjectItem (some item) (ofString "type") with
  | none => rfl
  | some jsonTemp =>
    rw [hitem, Option.bind_some] at h
    simp [h]

omit [AtoiBeyond] in
theorem type_texts_ne : ofString "once" ≠ ofString "repeat" ∧
    ofString "once" ≠ ofString "duration" ∧ ofString "repeat" ≠ ofString "duration" := by
  decide

theorem readTimerBy_isSome_iff {cronOf : Bytes → Option CronLite}
    (hcron : ∀ text, (cronOf text).isSome ↔ Reads text) {item : CJson} :
    (readTimerBy cronOf (some item)).isSome ↔ Readable item := by
  obtain ⟨honceRepeat, honceDuration, hrepeatDuration⟩ := type_texts_ne
  cases htype : typeOf item with
  | none =>
    rw [readTimerBy_eq_none htype]
    constructor
    · intro h
      cases h
    · intro h
      simpa [htype] using h.type
  | some type =>
    have hiff : Readable item ↔ (type = ofString "once" → CarriesEnabled item ∧
        CarriesAt item DateText ∧ CarriesSwitch item (ofString "do")) ∧
        (type = ofString "repeat" → CarriesEnabled item ∧
          CarriesAt item Reads ∧ CarriesSwitch item (ofString "do")) ∧
        (type = ofString "duration" → CarriesEnabled item ∧ CarriesAt item DurationText ∧
          CarriesSwitch item (ofString "startDo") ∧ CarriesSwitch item (ofString "endDo")) := by
      constructor
      · rintro ⟨-, honce, hrepeat, hduration⟩
        rw [htype] at honce hrepeat hduration
        simp only [Option.some.injEq] at honce hrepeat hduration
        exact ⟨honce, hrepeat, hduration⟩
      · rintro ⟨honce, hrepeat, hduration⟩
        exact ⟨by simp [htype], by simpa [htype] using honce, by simpa [htype] using hrepeat,
          by simpa [htype] using hduration⟩
    rw [readTimerBy_eq htype, hiff, ← readOnce_isSome_iff, ← readRepeatBy_isSome_iff hcron,
      ← readDuration_isSome_iff]
    by_cases honce : type = ofString "once"
    · simp [honce, honceRepeat, honceDuration]
    · by_cases hrepeat : type = ofString "repeat"
      · simp [hrepeat, honceRepeat.symm, hrepeatDuration]
      · by_cases hduration : type = ofString "duration"
        · simp [hduration, honceDuration.symm, hrepeatDuration.symm]
        · simp [honce, hrepeat, hduration]

omit [AtoiBeyond] in
theorem readRepeatBy_type {cronOf : Bytes → Option CronLite} {item : Option CJson}
    {timer : ColinkAppTimer} (h : readRepeatBy cronOf item = some timer) :
    timer.type = colinkTypeRepeat := by
  obtain ⟨enable, cron, startDo, rfl⟩ := readWith_eq_some h
  rfl

/-- What an entry leaves in its slot, by its type. -/
theorem readTimerBy_cases {cronOf : Bytes → Option CronLite} {item : CJson}
    {timer : ColinkAppTimer} (h : readTimerBy cronOf (some item) = some timer) :
    (typeOf item = some (ofString "once") ∧ readOnce (some item) = some timer) ∨
      (typeOf item = some (ofString "repeat") ∧ readRepeatBy cronOf (some item) = some timer) ∨
      (typeOf item = some (ofString "duration") ∧ readDuration (some item) = some timer) ∨
      (recognised item = false ∧ timer = blankTimer) := by
  cases htype : typeOf item with
  | none =>
    rw [readTimerBy_eq_none htype] at h
    cases h
  | some type =>
    rw [readTimerBy_eq htype] at h
    split at h
    · exact .inl ⟨by simp [*], h⟩
    · split at h
      · exact .inr (.inl ⟨by simp [*], h⟩)
      · split at h
        · exact .inr (.inr (.inl ⟨by simp [*], h⟩))
        · cases h
          exact .inr (.inr (.inr ⟨by simp [recognised, *], rfl⟩))

/-- The write pointer moves on behind an entry of one of the three types. -/
theorem advances_readTimerBy {cronOf : Bytes → Option CronLite} {item : CJson}
    {timer : ColinkAppTimer} (h : readTimerBy cronOf (some item) = some timer) :
    advances timer = recognised item := by
  unfold advances
  obtain ⟨htype, hread⟩ | ⟨htype, hread⟩ | ⟨htype, hread⟩ | ⟨hother, rfl⟩ :=
    readTimerBy_cases h
  · rw [readOnce_type hread]
    simp [recognised, htype, colinkTypeOnce]
  · rw [readRepeatBy_type hread]
    simp [recognised, htype, colinkTypeRepeat]
  · rw [(readDuration_spec hread).1]
    simp [recognised, htype, colinkTypeDuration]
  · rw [hother]
    rfl

/-! ### The call -/

/-- The items the loop goes through, if the call gets to it. -/
def entries (root : CJson) : List CJson :=
  match getObjectItem (some root) (ofString "timers") with
  | none => []
  | some timers => (timers.children.map Prod.snd).take (requested (some root))

/-- The call finds every item and every string it reads, and a buffer wherever it
writes a timer. -/
structure NoFault (heap : Heap) (root : CJson) : Prop where
  switch : ∀ switchP, getObjectItem (some root) (ofString "switch") = some switchP →
    switchP.valuestring.isSome
  entry : ∀ item ∈ entries root, Readable item
  buffer : heap (requested (some root)) = none → ∀ item ∈ entries root, recognised item = false

theorem fillBufferBy_of_block {cronOf : Bytes → Option CronLite} {m : Globals} {heap : Heap}
    {timers : CJson} {timerNum : Nat} {block : Vector ColinkAppTimer timerNum}
    (hheap : heap timerNum = some block) :
    fillBufferBy cronOf m heap timers timerNum =
      (FrontFill.fill (readTimerBy cronOf) advances
        ((List.range timerNum).map timers.getArrayItem)
        block.toList).map fun slots => (stored m slots timerNum, [timerUpdateTime]) :=
  fillWith_of_block _ hheap

theorem fillBufferBy_of_no_block {cronOf : Bytes → Option CronLite} {m : Globals} {heap : Heap}
    {timers : CJson} {timerNum : Nat} (hheap : heap timerNum = none) :
    fillBufferBy cronOf m heap timers timerNum =
      (FrontFill.fill (readTimerBy cronOf) advances
        ((List.range timerNum).map timers.getArrayItem)
        []).map fun _ => ({ m with apTimerList := none, timerNum := timerNum }, []) :=
  fillWith_of_no_block _ hheap

theorem fillBufferBy_isSome_iff {cronOf : Bytes → Option CronLite}
    (hcron : ∀ text, (cronOf text).isSome ↔ Reads text) {m : Globals} {heap : Heap}
    {timers : CJson} {items : List CJson} {timerNum : Nat}
    (hitems : (List.range timerNum).map timers.getArrayItem = items.map some) :
    (fillBufferBy cronOf m heap timers timerNum).isSome ↔
      (∀ item ∈ items, Readable item) ∧
        (heap timerNum = none → ∀ item ∈ items, recognised item = false) := by
  have hlength : items.length = timerNum := by
    have h := congrArg List.length hitems
    simpa using h.symm
  cases hheap : heap timerNum with
  | some block =>
    rw [fillBufferBy_of_block hheap, Option.isSome_map, hitems,
      FrontFill.fill_isSome_iff (by simp [hlength])]
    simp [readTimerBy_isSome_iff hcron]
  | none =>
    rw [fillBufferBy_of_no_block hheap, Option.isSome_map, hitems, FrontFill.fill_nil_isSome_iff,
      List.forall_mem_map]
    simp only [true_implies, ← forall_and]
    refine forall_congr' fun item => ⟨fun h hitem => ?_, fun h hitem => ?_⟩
    · obtain ⟨timer, htimer, hother⟩ := h hitem
      rw [← readTimerBy_isSome_iff hcron, htimer, ← advances_readTimerBy htimer]
      exact ⟨rfl, hother⟩
    · obtain ⟨hreadable, hother⟩ := h hitem
      obtain ⟨timer, htimer⟩ :=
        Option.isSome_iff_exists.mp ((readTimerBy_isSome_iff hcron).mpr hreadable)
      exact ⟨timer, htimer, (advances_readTimerBy htimer).trans hother⟩

/-- A call that comes to the array hands it to the loop. -/
theorem colinkRecvUpdateBy_timers {cronOf : Bytes → Option CronLite} {m : Globals} {heap : Heap}
    {root timers : CJson} (hswitch : getObjectItem (some root) (ofString "switch") = none)
    (hmode : getObjectItem (some root) (ofString "mode") = none)
    (htimers : getObjectItem (some root) (ofString "timers") = some timers) :
    requested (some root) = timers.getArraySize % 256 ∧
      (List.range (requested (some root))).map timers.getArrayItem = (entries root).map some ∧
      colinkRecvUpdateBy cronOf m heap (some root) =
        (recvTimersBy cronOf m heap timers).map fun result => (result.1,
          ((getObjectItem (some root) (ofString "bright")).toList.map fun switchP =>
            ctrlBrightCb switchP.valueint) ++ result.2) := by
  have hrequested : requested (some root) = timers.getArraySize % 256 := by
    unfold requested
    simp [hswitch, hmode, htimers]
  refine ⟨hrequested, ?_, ?_⟩
  · have hle : requested (some root) ≤ timers.getArraySize := by
      rw [hrequested]
      exact Nat.mod_le _ _
    unfold entries
    rw [htimers, map_getArrayItem hle]
  · unfold colinkRecvUpdateBy
    simp only [hswitch, hmode, htimers]

omit [AtoiBeyond] in
/-- Otherwise no entry is looked at. -/
theorem entries_eq_nil {root : CJson} (h : requested (some root) = 0) : entries root = [] := by
  unfold entries
  rw [h]
  split <;> simp

omit [AtoiBeyond] in
theorem recvSwitch_isSome_iff {m : Globals} {switchP : CJson} :
    (recvSwitch m switchP).isSome ↔ switchP.valuestring.isSome := by
  cases hvalue : switchP.valuestring with
  | none => simp [recvSwitch_eq_none hvalue]
  | some text =>
    obtain ⟨sent, hsent⟩ : ∃ sent, recvSwitch m switchP = some (m, sent) :=
      recvSwitch_isSome (by simp [hvalue])
    simp [hsent]

/-- Whatever the stack held: the call has no fault exactly if every item, string and
buffer it goes to is there. -/
theorem colinkRecvUpdateBy_isSome_iff (left : Leftover) (m : Globals) (heap : Heap)
    (root : CJson) :
    (colinkRecvUpdateBy (mytimeStrRepeatFrom left) m heap (some root)).isSome ↔
      NoFault heap root := by
  cases hswitch : getObjectItem (some root) (ofString "switch") with
  | some switchP =>
    have hcall : colinkRecvUpdateBy (mytimeStrRepeatFrom left) m heap (some root) =
        recvSwitch m switchP := by
      unfold colinkRecvUpdateBy
      simp only [hswitch]
    have hnone : entries root = [] := entries_eq_nil (by simp [requested, hswitch])
    rw [hcall, recvSwitch_isSome_iff]
    constructor
    · intro h
      exact ⟨by simpa [hswitch] using h, by simp [hnone], by simp [hnone]⟩
    · intro h
      exact h.switch switchP hswitch
  | none =>
    have hiff : NoFault heap root ↔ (∀ item ∈ entries root, Readable item) ∧
        (heap (requested (some root)) = none → ∀ item ∈ entries root, recognised item = false) :=
      ⟨fun h => ⟨h.entry, h.buffer⟩, fun h => ⟨by simp [hswitch], h.1, h.2⟩⟩
    rw [hiff]
    cases hmode : getObjectItem (some root) (ofString "mode") with
    | some switchP =>
      have hnone : entries root = [] := entries_eq_nil (by simp [requested, hmode])
      simp [colinkRecvUpdateBy, hswitch, hmode, hnone]
    | none =>
      cases htimers : getObjectItem (some root) (ofString "timers") with
      | none => simp [colinkRecvUpdateBy, entries, hswitch, hmode, htimers]
      | some timers =>
        obtain ⟨hrequested, hitems, hcall⟩ :=
          colinkRecvUpdateBy_timers hswitch hmode htimers
        rw [hcall, Option.isSome_map, ← fillBufferBy_isSome_iff
          (fun _ => mytimeStrRepeatFrom_isSome) hitems (m := m)]
        unfold recvTimersBy
        dsimp only
        rw [← hrequested]
        by_cases hpos : requested (some root) > 0
        · rw [if_pos hpos]
        · have hnone : entries root = [] := entries_eq_nil (Nat.eq_zero_of_not_pos hpos)
          rw [if_neg hpos, fillBufferBy_isSome_iff (fun _ => mytimeStrRepeatFrom_isSome) hitems,
            hnone]
          simp

end

local instance : AtoiBeyond := saturating

/-- An entry without a type, as in `{"timers":[{}]}`. -/
theorem missing_type_faults : ¬ ∀ left m heap root,
    (colinkRecvUpdateBy (mytimeStrRepeatFrom left) m heap (some root)).isSome := by
  intro hall
  have h := hall ⟨⟨0, 0, 0, 0⟩, fun _ => 0⟩ started (evenHeap true) (cloudRoot [.object []])
  exact absurd h (by decide)

end Sv6x66.Colink.CloudSafety
