import Sv6x66.Colink.RecvUpdate

/-! When a schedule sent by the cloud is stored as it was sent. The buffer and
`timer_num` are sized by the length of the array modulo 256, whatever the
entries are; only entries of the three types move the write pointer on. -/
namespace Sv6x66.Colink.UpdateExact
open Sv6x66.Lib
open Sv6x66.Lib.CString
open Sv6x66.Lib.CJson
open Sv6x66.Colink.MinTime
open Sv6x66.Colink.Mytime
open Sv6x66.Colink.KeyLedQueue
open Sv6x66.Colink.TimerStore
open Sv6x66.Colink.TimerText
open Sv6x66.Colink.RecvUpdate

/-! ### What an entry carries -/

def textOf (item : Option CJson) : Option Bytes := item.bind valuestring

def typeOf (item : CJson) : Option Bytes := textOf (getObjectItem (some item) (ofString "type"))

def CarriesEnabled (item : CJson) : Prop := (getObjectItem (some item) (ofString "enabled")).isSome

def CarriesAt (item : CJson) (readable : Bytes → Prop) : Prop :=
  ∃ text, textOf (getObjectItem (some item) (ofString "at")) = some text ∧ readable text

def CarriesSwitch (item : CJson) (action : Bytes) : Prop :=
  (textOf (getObjectItem (getObjectItem (some item) action) (ofString "switch"))).isSome

/-- The date goes as far as its seconds. -/
def DateText (text : Bytes) : Prop := 17 ≤ text.length

/-- The two numbers stand behind the date. -/
def DurationText (text : Bytes) : Prop := 25 ≤ text.length

def recognised (item : CJson) : Bool :=
  typeOf item = some (ofString "once") || typeOf item = some (ofString "repeat") ||
    typeOf item = some (ofString "duration")

def atOf (item : CJson) : Bytes := (textOf (getObjectItem (some item) (ofString "at"))).getD []

def enabledOf (item : CJson) : UInt8 :=
  if (getObjectItem (some item) (ofString "enabled")).any fun enabled => enabled.valueint ≠ 0
    then 1 else 0

def switchOf (item : CJson) (action : Bytes) : UInt8 :=
  if textOf (getObjectItem (getObjectItem (some item) action) (ofString "switch")) =
    some (ofString "on") then 1 else 0

/-! ### The items of an entry -/

theorem readEnabled_isSome_iff {item : CJson} :
    (readEnabled (some item)).isSome ↔ CarriesEnabled item := by
  unfold readEnabled CarriesEnabled
  cases getObjectItem (some item) (ofString "enabled") <;> simp

theorem readSwitch_isSome_iff {item : CJson} {action : Bytes} :
    (readSwitch (some item) action).isSome ↔ CarriesSwitch item action := by
  unfold readSwitch CarriesSwitch textOf textIs
  cases getObjectItem (getObjectItem (some item) action) (ofString "switch") with
  | none => simp
  | some switchP => cases hvalue : switchP.valuestring <;> simp [hvalue]

/-- A reader of `at` gets a result exactly from a text it can read. -/
theorem bind_readAt_isSome_iff {α : Type} {item : CJson} {parse : Bytes → Option α}
    {readable : Bytes → Prop} (hparse : ∀ text, (parse text).isSome ↔ readable text) :
    ((readAt (some item)).bind parse).isSome ↔ CarriesAt item readable := by
  unfold CarriesAt
  change ((textOf (getObjectItem (some item) (ofString "at"))).bind parse).isSome ↔ _
  cases textOf (getObjectItem (some item) (ofString "at")) with
  | none => simp
  | some text => simp [hparse]

section OneSwitch

/-! An entry with one action, whose `at` is read by `parse`. -/

variable {α : Type} {parse : Bytes → Option α}

theorem readWith_isSome_iff {item : CJson} {readable : Bytes → Prop}
    (hparse : ∀ text, (parse text).isSome ↔ readable text)
    (build : UInt8 → α → UInt8 → ColinkAppTimer) :
    (do
      let enable ← readEnabled (some item)
      let value ← parse (← readAt (some item))
      let startDo ← readSwitch (some item) (ofString "do")
      return build enable value startDo : Option ColinkAppTimer).isSome ↔
      CarriesEnabled item ∧ CarriesAt item readable ∧ CarriesSwitch item (ofString "do") := by
  rw [← readEnabled_isSome_iff, ← readSwitch_isSome_iff, ← bind_readAt_isSome_iff hparse]
  cases readEnabled (some item) with
  | none => simp
  | some enable =>
    cases readAt (some item) with
    | none => simp
    | some text =>
      cases hvalue : parse text <;>
        cases readSwitch (some item) (ofString "do") <;> simp [hvalue]

theorem readWith_eq_some {item : Option CJson} {timer : ColinkAppTimer}
    {build : UInt8 → α → UInt8 → ColinkAppTimer}
    (h : (do
      let enable ← readEnabled item
      let value ← parse (← readAt item)
      let startDo ← readSwitch item (ofString "do")
      return build enable value startDo : Option ColinkAppTimer) = some timer) :
    ∃ enable value startDo, timer = build enable value startDo := by
  obtain ⟨enable, -, h⟩ := Option.bind_eq_some_iff.mp h
  obtain ⟨text, -, h⟩ := Option.bind_eq_some_iff.mp h
  obtain ⟨value, -, h⟩ := Option.bind_eq_some_iff.mp h
  obtain ⟨startDo, -, h⟩ := Option.bind_eq_some_iff.mp h
  cases h
  exact ⟨enable, value, startDo, rfl⟩

end OneSwitch

theorem readEnabled_eq {item : CJson} (h : CarriesEnabled item) :
    readEnabled (some item) = some (enabledOf item) := by
  obtain ⟨enabled, henabled⟩ := Option.isSome_iff_exists.mp h
  simp [readEnabled, enabledOf, henabled]

theorem readSwitch_eq {item : CJson} {action : Bytes} (h : CarriesSwitch item action) :
    readSwitch (some item) action = some (switchOf item action) := by
  obtain ⟨text, htext⟩ := Option.isSome_iff_exists.mp h
  obtain ⟨switchP, hitem, hvalue⟩ := Option.bind_eq_some_iff.mp htext
  simp [readSwitch, switchOf, textOf, textIs, hitem, hvalue]

theorem readAt_eq {item : CJson} {readable : Bytes → Prop} (h : CarriesAt item readable) :
    readAt (some item) = some (atOf item) ∧ readable (atOf item) := by
  obtain ⟨text, htext, hreadable⟩ := h
  have hat : atOf item = text := by rw [atOf, htext, Option.getD_some]
  exact ⟨htext.trans (congrArg some hat.symm), hat ▸ hreadable⟩

/-- The entry is read by its type. -/
theorem readByType_eq {item : CJson} {type : Bytes} (h : typeOf item = some type)
    (once repeat_ duration : Option ColinkAppTimer) :
    (do
      let jsonTemp ← getObjectItem (some item) (ofString "type")
      if ← jsonTemp.textIs (ofString "once") then once
      else if ← jsonTemp.textIs (ofString "repeat") then repeat_
      else if ← jsonTemp.textIs (ofString "duration") then duration
      else return blankTimer : Option ColinkAppTimer) =
      if type = ofString "once" then once
      else if type = ofString "repeat" then repeat_
      else if type = ofString "duration" then duration
      else some blankTimer := by
  obtain ⟨jsonTemp, hitem, hvalue⟩ := Option.bind_eq_some_iff.mp h
  unfold textIs
  rw [hitem]
  simp [hvalue]

/-- The items the loop reads are the first `timer_num` of the array. -/
theorem range_getArrayItem {items : List CJson} {k : Nat} (hk : k ≤ items.length) :
    (List.range k).map (array items).getArrayItem = (items.take k).map some := by
  rw [map_getArrayItem ((getArraySize_array items).symm ▸ hk), map_snd_children]

/-- A heap that answers every request in the same way. -/
def evenHeap (memory : Bool) : Heap := fun slots =>
  if memory then some (Vector.replicate slots blankTimer) else none

theorem evenHeap_isSome (memory : Bool) (slots : Nat) :
    (evenHeap memory slots).isSome = memory := by
  unfold evenHeap
  cases memory <;> rfl

theorem recvSwitch_isSome {m : Globals} {switchP : CJson} (h : switchP.valuestring.isSome) :
    ∃ sent, recvSwitch m switchP = some (m, sent) := by
  obtain ⟨text, htext⟩ := Option.isSome_iff_exists.mp h
  unfold recvSwitch textIs
  rw [htext]
  simp only [Option.map_some, Option.bind_eq_bind, Option.bind_some]
  split
  · exact ⟨_, rfl⟩
  · split <;> exact ⟨_, rfl⟩

theorem recvSwitch_eq_none {m : Globals} {switchP : CJson} (h : switchP.valuestring = none) :
    recvSwitch m switchP = none := by
  unfold recvSwitch textIs
  rw [h]
  rfl

/-! ### What an entry says -/

section

variable [AtoiBeyond]

def CronText (text : Bytes) : Prop := (mytimeStrRepeat text).isSome

/-- The entry has a type, and all the fields this type needs. -/
structure Complete (item : CJson) : Prop where
  type : (typeOf item).isSome
  once : typeOf item = some (ofString "once") →
    CarriesEnabled item ∧ CarriesAt item DateText ∧ CarriesSwitch item (ofString "do")
  repeat_ : typeOf item = some (ofString "repeat") →
    CarriesEnabled item ∧ CarriesAt item CronText ∧ CarriesSwitch item (ofString "do")
  duration : typeOf item = some (ofString "duration") →
    CarriesEnabled item ∧ CarriesAt item DurationText ∧
      CarriesSwitch item (ofString "startDo") ∧ CarriesSwitch item (ofString "endDo")

/-- The second of `YYYY-MM-DDThh:mm:ss`, by the numbers at these six places. -/
def secondOf (text : Bytes) : UInt32 :=
  dateToSecond {
    year := UInt16.ofInt (atoiInt text), mon := UInt8.ofInt (atoiInt (text.drop 5))
    day := UInt8.ofInt (atoiInt (text.drop 8)), hour := UInt8.ofInt (atoiInt (text.drop 11))
    min := UInt8.ofInt (atoiInt (text.drop 14)), sec := UInt8.ofInt (atoiInt (text.drop 17))
    wday := 0 }

def cronOf (text : Bytes) : CronLite := (mytimeStrRepeat text).getD ⟨0, 0, 0, 0⟩

/-- The number behind the first space. -/
def numberBehind (text : Bytes) : UInt16 :=
  UInt16.ofInt (atoiInt ((text.dropWhile fun byte => byte.toNat ≠ 0x20).drop 1))

/-- What an entry says, by its type. -/
def timerOf (item : CJson) : ColinkAppTimer :=
  if typeOf item = some (ofString "once") then
    { blankTimer with
      type := colinkTypeOnce, enable := enabledOf item, atTime := secondOf (atOf item)
      startDo := switchOf item (ofString "do") }
  else if typeOf item = some (ofString "repeat") then
    { blankTimer with
      type := colinkTypeRepeat, enable := enabledOf item
      atTime := cronWord (cronOf (atOf item)), startDo := switchOf item (ofString "do") }
  else if typeOf item = some (ofString "duration") then
    { type := colinkTypeDuration, enable := enabledOf item, atTime := secondOf (atOf item)
      startDo := switchOf item (ofString "startDo"), endDo := switchOf item (ofString "endDo")
      cycle := UInt16.ofInt (atoiInt ((atOf item).drop 25))
      delay := numberBehind ((atOf item).drop 25) }
  else blankTimer

/-- The entries of the three types, in order. -/
def wanted (items : List CJson) : List ColinkAppTimer := (items.filter recognised).map timerOf

/-! ### Reading one entry -/

theorem readOnce_isSome_iff {item : CJson} :
    (readOnce (some item)).isSome ↔
      CarriesEnabled item ∧ CarriesAt item DateText ∧ CarriesSwitch item (ofString "do") :=
  readWith_isSome_iff (fun _ => mytimeStrToTime_isSome) fun enable atTime startDo =>
    { blankTimer with type := colinkTypeOnce, enable, atTime, startDo }

theorem readOnce_type {item : Option CJson} {timer : ColinkAppTimer}
    (h : readOnce item = some timer) : timer.type = colinkTypeOnce := by
  obtain ⟨enable, atTime, startDo, rfl⟩ := readWith_eq_some h
  rfl

/-- What is read behind the date: both numbers start inside the text. -/
theorem durationText_iff (text : Bytes) :
    ((mytimeStrToTime text).bind fun atTime => (textAt text 25).map (atTime, ·)).isSome ↔
      DurationText text := by
  unfold DurationText
  by_cases hlength : 25 ≤ text.length
  · obtain ⟨atTime, hatTime⟩ := Option.isSome_iff_exists.mp
      (mytimeStrToTime_isSome.mpr (le_trans (by decide) hlength))
    simp [hatTime, textAt_of_le hlength, hlength]
  · have hnone : textAt text 25 = none := if_neg hlength
    simp [hnone, hlength]

theorem readDuration_isSome_iff {item : CJson} :
    (readDuration (some item)).isSome ↔
      CarriesEnabled item ∧ CarriesAt item DurationText ∧
        CarriesSwitch item (ofString "startDo") ∧ CarriesSwitch item (ofString "endDo") := by
  rw [← readEnabled_isSome_iff, ← readSwitch_isSome_iff, ← readSwitch_isSome_iff,
    ← bind_readAt_isSome_iff durationText_iff]
  unfold readDuration
  cases readEnabled (some item) with
  | none => simp
  | some enable =>
    cases readAt (some item) with
    | none => simp
    | some text =>
      cases hatTime : mytimeStrToTime text with
      | none => simp [hatTime]
      | some atTime =>
        cases hnumbers : textAt text 25 <;>
          cases readSwitch (some item) (ofString "startDo") <;>
          cases readSwitch (some item) (ofString "endDo") <;> simp [hatTime, hnumbers]

/-- The two numbers are read behind the date, as far as the text goes. -/
theorem readDuration_spec {item : Option CJson} {timer : ColinkAppTimer}
    (h : readDuration item = some timer) :
    timer.type = colinkTypeDuration ∧ ∃ text, readAt item = some text ∧
      mytimeStrToTime text = some timer.atTime ∧
      timer.cycle = UInt16.ofInt (atoiInt (text.drop 25)) := by
  obtain ⟨enable, -, h⟩ := Option.bind_eq_some_iff.mp h
  obtain ⟨text, htext, h⟩ := Option.bind_eq_some_iff.mp h
  obtain ⟨atTime, hatTime, h⟩ := Option.bind_eq_some_iff.mp h
  obtain ⟨numbers, hnumbers, h⟩ := Option.bind_eq_some_iff.mp h
  obtain ⟨startDo, -, h⟩ := Option.bind_eq_some_iff.mp h
  obtain ⟨endDo, -, h⟩ := Option.bind_eq_some_iff.mp h
  cases h
  unfold textAt at hnumbers
  split at hnumbers
  · cases hnumbers
    exact ⟨rfl, text, htext, hatTime, rfl⟩
  · cases hnumbers

theorem readTimer_eq {item : CJson} {type : Bytes} (h : typeOf item = some type) :
    readTimer (some item) =
      if type = ofString "once" then readOnce (some item)
      else if type = ofString "repeat" then readRepeat (some item)
      else if type = ofString "duration" then readDuration (some item)
      else some blankTimer :=
  readByType_eq h _ _ _

theorem mytimeStrToTime_eq {text : Bytes} (h : DateText text) :
    mytimeStrToTime text = some (secondOf text) := by
  have hlength : 17 ≤ text.length := h
  unfold mytimeStrToTime secondOf
  rw [textAt_of_le (by omega), textAt_of_le (by omega), textAt_of_le (by omega),
    textAt_of_le (by omega), textAt_of_le hlength]
  rfl

theorem mytimeStrDuration_eq (text : Bytes) : mytimeStrDuration text = numberBehind text := by
  induction text with
  | nil => rfl
  | cons byte rest ih =>
    rw [mytimeStrDuration, numberBehind, List.dropWhile_cons]
    by_cases hspace : byte.toNat = 0x20
    · simp [hspace]
    · rw [if_neg hspace, ih, if_pos (decide_eq_true hspace), numberBehind]

/-- A complete entry is read as it says. -/
theorem readTimer_timerOf {item : CJson} (h : Complete item) :
    readTimer (some item) = some (timerOf item) := by
  obtain ⟨type, htype⟩ := Option.isSome_iff_exists.mp h.type
  rw [readTimer_eq htype]
  unfold timerOf
  simp only [htype, Option.some.injEq]
  by_cases honce : type = ofString "once"
  · obtain ⟨henabled, hat, hswitch⟩ := h.once (htype.trans (congrArg some honce))
    obtain ⟨htext, hdate⟩ := readAt_eq hat
    rw [if_pos honce, if_pos honce, readOnce, readEnabled_eq henabled, htext, readSwitch_eq hswitch]
    simp only [Option.bind_eq_bind, Option.bind_some, mytimeStrToTime_eq hdate]
    rfl
  · rw [if_neg honce, if_neg honce]
    by_cases hrepeat : type = ofString "repeat"
    · obtain ⟨henabled, hat, hswitch⟩ := h.repeat_ (htype.trans (congrArg some hrepeat))
      obtain ⟨htext, hline⟩ := readAt_eq hat
      obtain ⟨cron, hcron⟩ := Option.isSome_iff_exists.mp hline
      rw [if_pos hrepeat, if_pos hrepeat, readRepeat, readEnabled_eq henabled, htext,
        readSwitch_eq hswitch, cronOf, hcron]
      simp only [Option.bind_eq_bind, Option.bind_some, hcron]
      rfl
    · rw [if_neg hrepeat, if_neg hrepeat]
      by_cases hduration : type = ofString "duration"
      · obtain ⟨henabled, hat, hstart, hend⟩ :=
          h.duration (htype.trans (congrArg some hduration))
        obtain ⟨htext, hlength⟩ := readAt_eq hat
        have hdate : DateText (atOf item) := le_trans (by decide) hlength
        rw [if_pos hduration, if_pos hduration, readDuration, readEnabled_eq henabled, htext,
          readSwitch_eq hstart, readSwitch_eq hend]
        simp only [Option.bind_eq_bind, Option.bind_some, mytimeStrToTime_eq hdate,
          textAt_of_le hlength, mytimeStrDuration_eq]
        rfl
      · rw [if_neg hduration, if_neg hduration]

/-- The hour, the minute and the days of a `repeat` entry are read back through `cron`. -/
theorem cron_timerOf {item : CJson} {cron : CronLite}
    (htype : typeOf item = some (ofString "repeat"))
    (hcron : mytimeStrRepeat (atOf item) = some cron) : (timerOf item).cron = cron := by
  apply cron_cronWord
  have hother : ofString "repeat" ≠ ofString "once" := by decide
  simp [timerOf, htype, hother, cronOf, hcron]

/-- The write pointer moves on exactly behind an entry of one of the three types. -/
theorem advances_timerOf (item : CJson) : advances (timerOf item) = recognised item := by
  unfold timerOf recognised
  by_cases honce : typeOf item = some (ofString "once")
  · rw [if_pos honce, decide_eq_true honce]
    rfl
  · rw [if_neg honce, decide_eq_false honce]
    by_cases hrepeat : typeOf item = some (ofString "repeat")
    · rw [if_pos hrepeat, decide_eq_true hrepeat]
      rfl
    · rw [if_neg hrepeat, decide_eq_false hrepeat]
      by_cases hduration : typeOf item = some (ofString "duration")
      · rw [if_pos hduration, decide_eq_true hduration]
        rfl
      · rw [if_neg hduration, decide_eq_false hduration]
        rfl

/-! ### Reading the array -/

theorem mapM_readTimer {items : List CJson} (h : ∀ item ∈ items, Complete item) :
    (items.map some).mapM readTimer = some (items.map timerOf) := by
  induction items with
  | nil => rfl
  | cons item rest ih =>
    have hrest := ih fun other hother => h other (List.mem_cons_of_mem item hother)
    rw [List.map_cons, List.mapM_cons, readTimer_timerOf (h item List.mem_cons_self), hrest]
    rfl

theorem filter_advances (items : List CJson) :
    (items.map timerOf).filter advances = wanted items := by
  unfold wanted
  rw [List.filter_map]
  apply congrArg (List.map timerOf)
  exact List.filter_congr fun item _ => advances_timerOf item

theorem filter_advances_wanted (items : List CJson) :
    (wanted items).filter advances = wanted items := by
  rw [← filter_advances, List.filter_filter]
  simp

theorem wanted_append (first later : List CJson) :
    wanted (first ++ later) = wanted first ++ wanted later := by
  unfold wanted
  rw [List.filter_append, List.map_append]

theorem wanted_eq_nil {items : List CJson} :
    wanted items = [] ↔ ∀ item ∈ items, recognised item = false := by
  unfold wanted
  rw [List.map_eq_nil_iff, List.filter_eq_nil_iff]
  simp

theorem length_wanted_eq {items : List CJson} :
    (wanted items).length = items.length ↔ ∀ item ∈ items, recognised item = true := by
  unfold wanted
  rw [List.length_map, List.length_filter_eq_length_iff]

/-- The list loaded from the buffer is what is wanted exactly when the entries
that fit into `timer_num` are recognised and no later one is. A block of blank
slots tells the two apart. -/
theorem fill_wanted_iff {items : List CJson} {k : Nat} (hk : k ≤ items.length)
    (hcomplete : ∀ item ∈ items, Complete item) :
    (∀ block : Vector ColinkAppTimer k,
        FrontFill.fill readTimer advances ((items.take k).map some) block.toList =
          some (wanted items)) ↔
      (∀ item ∈ items.take k, recognised item = true) ∧
        ∀ item ∈ items.drop k, recognised item = false := by
  have hfirst : ∀ item ∈ items.take k, Complete item := fun item hitem =>
    hcomplete item (List.mem_of_mem_take hitem)
  have hread := mapM_readTimer hfirst
  have hlength : ((items.take k).map some).length = k := by simp [hk]
  have hsplit : wanted items = wanted (items.take k) ++ wanted (items.drop k) := by
    rw [← wanted_append, List.take_append_drop]
  constructor
  · intro hall
    have hfill := hall (Vector.replicate k blankTimer)
    have hsize := FrontFill.length_fill hfill
    have hfilter := FrontFill.filter_fill hread (by
      intro slot hslot
      rw [Vector.toList_replicate] at hslot
      rw [List.eq_of_mem_replicate hslot]
      rfl) hfill
    rw [filter_advances_wanted, filter_advances, hsplit] at hfilter
    have hlater : wanted (items.drop k) = [] := by simpa using hfilter
    rw [hsplit, hlater, List.append_nil] at hsize
    refine ⟨?_, wanted_eq_nil.mp hlater⟩
    apply length_wanted_eq.mp
    rw [hsize, List.length_take_of_le hk]
    exact Vector.length_toList
  · rintro ⟨hrecognised, hlater⟩ block
    have hsome : (FrontFill.fill readTimer advances ((items.take k).map some)
        block.toList).isSome := by
      apply FrontFill.fill_isSome
      · intro entry hentry
        obtain ⟨item, hitem, rfl⟩ := List.mem_map.mp hentry
        rw [readTimer_timerOf (hfirst item hitem)]
        rfl
      · rw [hlength, Vector.length_toList]
    obtain ⟨slots, hslots⟩ := Option.isSome_iff_exists.mp hsome
    have hkept : ∀ value ∈ (items.take k).map timerOf, advances value = true := by
      intro value hvalue
      obtain ⟨item, hitem, rfl⟩ := List.mem_map.mp hvalue
      rw [advances_timerOf]
      exact hrecognised item hitem
    have heq := FrontFill.fill_of_all_kept hread hkept
      (by rw [hlength, Vector.length_toList]) hslots
    rw [hslots, heq, hsplit, wanted_eq_nil.mpr hlater, List.append_nil, ← filter_advances,
      List.filter_eq_self.mpr hkept]

/-! ### The update -/

def Stored (m : Globals) (items : List CJson) : Prop :=
  ramList m = wanted items ∧ fileList m = wanted items

/-- The update ends with just the entries of the three types in memory and in
the file. -/
def Exact (m : Globals) (heap : Heap) (root : CJson) (items : List CJson) : Prop :=
  ∃ m' sent, colinkRecvUpdate m heap (some root) = some (m', sent) ∧ Stored m' items ∧
    (ramList m').length = (items.filter recognised).length

/-- `memory` tells whether `OS_MemAlloc` has a block for the buffer. -/
def UpdatesExactly (m : Globals) (root : CJson) (items : List CJson) (memory : Bool) : Prop :=
  match getObjectItem (some root) (ofString "switch") with
  | some switchP => switchP.valuestring.isSome ∧ Stored m items
  | none =>
    if (getObjectItem (some root) (ofString "mode")).isSome then Stored m items
    else if memory = true ∨ items.length % 256 = 0 then
      (∀ item ∈ items.take (items.length % 256), recognised item = true) ∧
        ∀ item ∈ items.drop (items.length % 256), recognised item = false
    else (∀ item ∈ items, recognised item = false) ∧ fileList m = []

theorem Stored.length {m : Globals} {items : List CJson} (h : Stored m items) :
    (ramList m).length = (items.filter recognised).length := by
  rw [h.1, wanted, List.length_map]

theorem exact_iff {m m' : Globals} {heap : Heap} {root : CJson} {items : List CJson}
    {sent : List Message} (h : colinkRecvUpdate m heap (some root) = some (m', sent)) :
    Exact m heap root items ↔ Stored m' items := by
  constructor
  · rintro ⟨m'', sent', heq, hstored, -⟩
    rw [h] at heq
    cases heq
    exact hstored
  · intro hstored
    exact ⟨m', sent, h, hstored, hstored.length⟩

/-- A `switch` item ends the call before the schedule is looked at. -/
theorem exact_switch_iff {m : Globals} {heap : Heap} {root switchP : CJson} {items : List CJson}
    (hswitch : getObjectItem (some root) (ofString "switch") = some switchP) :
    Exact m heap root items ↔ switchP.valuestring.isSome ∧ Stored m items := by
  have hupdate : colinkRecvUpdate m heap (some root) = recvSwitch m switchP := by
    unfold colinkRecvUpdate
    simp only [hswitch]
  by_cases hvalue : switchP.valuestring.isSome
  · obtain ⟨sent, hsent⟩ := recvSwitch_isSome (m := m) hvalue
    rw [exact_iff (hupdate.trans hsent), and_iff_right hvalue]
  · have hnone : recvSwitch m switchP = none :=
      recvSwitch_eq_none (Option.not_isSome_iff_eq_none.mp hvalue)
    constructor
    · rintro ⟨m', sent, heq, -⟩
      rw [hupdate, hnone] at heq
      cases heq
    · rintro ⟨hsome, -⟩
      exact absurd hsome hvalue

/-- So does a `mode` item. -/
theorem exact_mode_iff {m : Globals} {heap : Heap} {root switchP : CJson} {items : List CJson}
    (hswitch : getObjectItem (some root) (ofString "switch") = none)
    (hmode : getObjectItem (some root) (ofString "mode") = some switchP) :
    Exact m heap root items ↔ Stored m items := by
  have hupdate : ∃ sent, colinkRecvUpdate m heap (some root) = some (m, sent) := by
    unfold colinkRecvUpdate
    simp only [hswitch, hmode, (recvMode_state m switchP).1]
    exact ⟨_, rfl⟩
  obtain ⟨sent, hsent⟩ := hupdate
  exact exact_iff hsent

/-- The part of `colinkRecvUpdate` that an update of the schedule runs through. -/
theorem exact_recvTimers {m : Globals} {heap : Heap} {root : CJson} {items : List CJson}
    (hswitch : getObjectItem (some root) (ofString "switch") = none)
    (hmode : getObjectItem (some root) (ofString "mode") = none)
    (htimers : getObjectItem (some root) (ofString "timers") = some (array items)) :
    Exact m heap root items ↔
      ∃ result, recvTimers m heap (array items) = some result ∧ Stored result.1 items := by
  have hupdate : colinkRecvUpdate m heap (some root) =
      (recvTimers m heap (array items)).map fun result => (result.1,
        ((getObjectItem (some root) (ofString "bright")).toList.map fun switchP =>
          ctrlBrightCb switchP.valueint) ++ result.2) := by
    unfold colinkRecvUpdate
    simp only [hswitch, hmode, htimers]
  cases hrecv : recvTimers m heap (array items) with
  | none =>
    rw [hrecv] at hupdate
    constructor
    · rintro ⟨m', sent, heq, -⟩
      rw [hupdate] at heq
      cases heq
    · rintro ⟨result, heq, -⟩
      cases heq
  | some result =>
    rw [hrecv] at hupdate
    rw [exact_iff hupdate]
    simp

theorem recvTimers_clean {m : Globals} {heap : Heap} {items : List CJson}
    (hzero : items.length % 256 = 0) :
    recvTimers m heap (array items) = some (mytimeCleanDelay m, []) := by
  unfold recvTimers
  simp [hzero]

theorem recvTimers_fill {m : Globals} {heap : Heap} {items : List CJson}
    (hpos : 0 < items.length % 256) :
    recvTimers m heap (array items) = fillBuffer m heap (array items) (items.length % 256) := by
  unfold recvTimers
  rw [getArraySize_array]
  exact if_pos hpos

/-- With a block for the buffer the loop fills it, and the file gets what the
buffer holds then. -/
theorem fillBuffer_stored_iff {m : Globals} {heap : Heap} {items : List CJson} {k : Nat}
    {block : Vector ColinkAppTimer k} (hk : k ≤ items.length) (hheap : heap k = some block) :
    (∃ result, fillBuffer m heap (array items) k = some result ∧ Stored result.1 items) ↔
      FrontFill.fill readTimer advances ((items.take k).map some) block.toList =
        some (wanted items) := by
  rw [fillBuffer_of_block hheap, range_getArrayItem hk]
  cases hfill : FrontFill.fill readTimer advances ((items.take k).map some) block.toList with
  | none => simp
  | some slots =>
    have hsize := FrontFill.length_fill hfill
    rw [Vector.length_toList] at hsize
    have hram : ramList (stored m slots k) = slots :=
      ramList_of_some rfl (congrArg Nat.cast hsize.symm)
    have hfile : fileList (stored m slots k) = slots := rfl
    simp [Stored, hram, hfile]

/-- Without a block the list is gone and the file is left as it was. -/
theorem fillBuffer_no_memory_iff {m : Globals} {heap : Heap} {items : List CJson} {k : Nat}
    (hk : k ≤ items.length) (hcomplete : ∀ item ∈ items, Complete item)
    (hheap : heap k = none) :
    (∃ result, fillBuffer m heap (array items) k = some result ∧ Stored result.1 items) ↔
      (∀ item ∈ items, recognised item = false) ∧ fileList m = [] := by
  have hfirst : ∀ item ∈ items.take k, Complete item := fun item hitem =>
    hcomplete item (List.mem_of_mem_take hitem)
  rw [fillBuffer_of_no_block hheap, range_getArrayItem hk,
    FrontFill.fill_no_block (mapM_readTimer hfirst), filter_advances, ← wanted_eq_nil]
  constructor
  · rintro ⟨result, hresult, hram, hfile⟩
    split at hresult
    · cases hresult
      have hnil : wanted items = [] := hram.symm
      exact ⟨hnil, hfile.trans hnil⟩
    · cases hresult
  · rintro ⟨hnil, hfile⟩
    have hfirstNil : wanted (items.take k) = [] := by
      rw [← List.take_append_drop k items, wanted_append] at hnil
      exact (List.append_eq_nil_iff.mp hnil).1
    rw [if_pos hfirstNil]
    exact ⟨_, rfl, hnil.symm, hfile.trans hnil.symm⟩

/-- The part of an update that handles the array, over every block the heap may
hand out. -/
theorem recvTimers_stored_iff {m : Globals} {items : List CJson} {memory : Bool}
    (hcomplete : ∀ item ∈ items, Complete item) :
    (∀ heap : Heap, (heap (items.length % 256)).isSome = memory →
        ∃ result, recvTimers m heap (array items) = some result ∧ Stored result.1 items) ↔
      if memory = true ∨ items.length % 256 = 0 then
        (∀ item ∈ items.take (items.length % 256), recognised item = true) ∧
          ∀ item ∈ items.drop (items.length % 256), recognised item = false
      else (∀ item ∈ items, recognised item = false) ∧ fileList m = [] := by
  have hle : items.length % 256 ≤ items.length := Nat.mod_le _ _
  by_cases hzero : items.length % 256 = 0
  · rw [if_pos (Or.inr hzero), hzero, List.take_zero, List.drop_zero, ← wanted_eq_nil]
    simp only [recvTimers_clean hzero, Option.some.injEq, exists_eq_left', Stored,
      ramList_mytimeCleanDelay, fileList_mytimeCleanDelay]
    constructor
    · intro hall
      exact ⟨by simp, (hall (evenHeap memory) (evenHeap_isSome memory _)).1.symm⟩
    · rintro ⟨-, hnil⟩ heap -
      exact ⟨hnil.symm, hnil.symm⟩
  · simp only [recvTimers_fill (Nat.pos_of_ne_zero hzero)]
    cases memory with
    | false =>
      rw [if_neg (by simp [hzero])]
      constructor
      · intro hall
        have hnone : evenHeap false (items.length % 256) = none := rfl
        exact (fillBuffer_no_memory_iff hle hcomplete hnone).mp (hall _ rfl)
      · intro hcond heap hheap
        rw [Option.isSome_eq_false_iff, Option.isNone_iff_eq_none] at hheap
        exact (fillBuffer_no_memory_iff hle hcomplete hheap).mpr hcond
    | true =>
      rw [if_pos (Or.inl rfl), ← fill_wanted_iff hle hcomplete]
      constructor
      · intro hall block
        let heap : Heap := fun slots =>
          if h : slots = items.length % 256 then some (h ▸ block) else none
        have hheap : heap (items.length % 256) = some block := dif_pos rfl
        exact (fillBuffer_stored_iff hle hheap).mp (hall heap (by rw [hheap]; rfl))
      · intro hfill heap hheap
        obtain ⟨block, hblock⟩ := Option.isSome_iff_exists.mp hheap
        exact (fillBuffer_stored_iff hle hblock).mpr (hfill block)

/-- Over every block the heap may hand out, an update stores exactly its entries
if and only if `UpdatesExactly`. -/
theorem colinkRecvUpdate_exact_iff (m : Globals) (root : CJson) (items : List CJson)
    (memory : Bool)
    (htimers : getObjectItem (some root) (ofString "timers") = some (array items))
    (hcomplete : ∀ item ∈ items, Complete item) :
    (∀ heap : Heap, (heap (items.length % 256)).isSome = memory → Exact m heap root items) ↔
      UpdatesExactly m root items memory := by
  have hheap : ∃ heap : Heap, (heap (items.length % 256)).isSome = memory :=
    ⟨evenHeap memory, evenHeap_isSome memory _⟩
  unfold UpdatesExactly
  cases hswitch : getObjectItem (some root) (ofString "switch") with
  | some switchP =>
    simp only [exact_switch_iff hswitch]
    exact ⟨fun hall => hheap.elim hall, fun hcond _ _ => hcond⟩
  | none =>
    cases hmode : getObjectItem (some root) (ofString "mode") with
    | some switchP =>
      simp only [exact_mode_iff hswitch hmode, Option.isSome_some, if_true]
      exact ⟨fun hall => hheap.elim hall, fun hcond _ _ => hcond⟩
    | none =>
      simp only [exact_recvTimers hswitch hmode htimers, Option.isSome_none, Bool.false_eq_true,
        if_false]
      exact recvTimers_stored_iff hcomplete

end

/-! ### A list with an entry of another type -/

local instance : AtoiBeyond := saturating

def lampEntry : CJson := .object [
  (ofString "type", .string (ofString "once")),
  (ofString "enabled", .number 1),
  (ofString "at", .string (ofString "2018-10-08T05:46:00.000Z")),
  (ofString "do", .object [(ofString "switch", .string (ofString "on"))])]

def strangeEntry : CJson := .object [(ofString "type", .string (ofString "weekly"))]

def cloudRoot (items : List CJson) : CJson := .object [(ofString "timers", .array items)]

theorem lampEntry_complete : Complete lampEntry where
  type := by decide
  once _ := ⟨by unfold CarriesEnabled; decide,
    ⟨ofString "2018-10-08T05:46:00.000Z", by decide, by unfold DateText; decide⟩,
    by unfold CarriesSwitch; decide⟩
  repeat_ h := absurd h (by decide)
  duration h := absurd h (by decide)

theorem strangeEntry_complete : Complete strangeEntry where
  type := by decide
  once h := absurd h (by decide)
  repeat_ h := absurd h (by decide)
  duration h := absurd h (by decide)

theorem strangeEntries_complete : ∀ item ∈ [lampEntry, strangeEntry], Complete item := by
  intro item hitem
  rw [List.mem_cons, List.mem_singleton] at hitem
  cases hitem with
  | inl hlamp => exact hlamp ▸ lampEntry_complete
  | inr hstrange => exact hstrange ▸ strangeEntry_complete

def started : Globals := mytimeStart (powerOn none) (evenHeap true)

theorem colinkRecvUpdate_exact_iff_lamp :
    (∀ heap : Heap, (heap 2).isSome = true →
        Exact started heap (cloudRoot [lampEntry, strangeEntry]) [lampEntry, strangeEntry]) ↔
      UpdatesExactly started (cloudRoot [lampEntry, strangeEntry]) [lampEntry, strangeEntry] true :=
  colinkRecvUpdate_exact_iff started (cloudRoot [lampEntry, strangeEntry])
    [lampEntry, strangeEntry] true rfl strangeEntries_complete

/-- The entry of an unknown type is dropped, but it is still counted: the list in
memory and the file have two entries where one was sent. -/
theorem strange_entry_counted :
    (∀ item ∈ [lampEntry, strangeEntry], Complete item) ∧
      (wanted [lampEntry, strangeEntry]).length = 1 ∧
      (colinkRecvUpdate started (evenHeap true)
          (some (cloudRoot [lampEntry, strangeEntry]))).map (fun result =>
        ((ramList result.1).length, (fileList result.1).length)) = some (2, 2) ∧
      ¬ Exact started (evenHeap true) (cloudRoot [lampEntry, strangeEntry])
        [lampEntry, strangeEntry] := by
  have hcounted : (colinkRecvUpdate started (evenHeap true)
      (some (cloudRoot [lampEntry, strangeEntry]))).map (fun result =>
        ((ramList result.1).length, (fileList result.1).length)) = some (2, 2) := by
    decide
  have hwanted : (wanted [lampEntry, strangeEntry]).length = 1 := by decide
  refine ⟨strangeEntries_complete, hwanted, hcounted, ?_⟩
  rintro ⟨m', sent, heq, hstored, -⟩
  rw [heq] at hcounted
  have hpair : ((ramList m').length, (fileList m').length) = (2, 2) := Option.some.inj hcounted
  rw [hstored.1, hwanted] at hpair
  cases hpair

end Sv6x66.Colink.UpdateExact
