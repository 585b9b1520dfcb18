import Mathlib.Tactic
import Sv6x66.Lib.CString

/-! The datapoints the MCU reports, `ty_datapoint_upload_proc` of
`tuya_device_mcu.c`: which bytes the decoding reads and when it ends. -/
namespace Sv6x66.Tylink.Datapoints
open Sv6x66.Lib.CString Function

def tyDpType : UInt8 := 5

def tyDpFrameMin : Nat := 5

def statApStaConn : Nat := 4

def statStaConn : Nat := 6

/-- `dp_desc.type` -/
inductive DpType where
  | obj | raw | file
  deriving DecidableEq

/-- The members of `DP_PROP_VALUE_U` that the decoding reads, under `dp_desc.prop_tp`. -/
inductive DpProp where
  | bool
  | value (min max : Int)
  | str (maxLen : Int)
  | enum (ppEnum : List Bytes)
  | bitmap

def DpProp.propTp : DpProp → UInt8
  | .bool => 0
  | .value .. => 1
  | .str _ => 2
  | .enum _ => 3
  | .bitmap => 4

structure DpCntl where
  dpId : UInt8
  type : DpType
  prop : DpProp

/-- What the function looks at before it decodes; `created` is whether
`cJSON_CreateObject` gets its memory. -/
structure Device where
  initFlag : Bool
  isInUpgrade : Bool
  curNwStat : Nat
  devCntl : Option (List DpCntl)
  created : Bool

/-- The bytes from `data` on; the payload is the first of them. -/
abbrev Mem := Nat → UInt8

inductive Json where
  | bool (value : Bool)
  | number (value : Int)
  | string (value : Bytes)

/-- `reads` are the stretches of `data` read, `copies` the lengths copied to `val_data`. -/
structure Decode where
  mem : Mem
  offset : UInt16
  visited : List Nat
  reads : List (Nat × Nat)
  copies : List Nat
  root : List (UInt8 × Json)
  objUpload : Bool
  reported : Option (List (UInt8 × Json))

def wordSwap (x : UInt16) : UInt16 := x <<< 8 ||| x >>> 8

def readWord (mem : Mem) (i : Nat) : UInt16 := (mem i).toUInt16 ||| (mem (i + 1)).toUInt16 <<< 8

def writeWord (mem : Mem) (i : Nat) (word : UInt16) : Mem :=
  update (update mem i word.toUInt8) (i + 1) (word >>> 8).toUInt8

/-- Four bytes, the first one on top, as an `INT_T`. -/
def dword (data : Mem) : Int :=
  ((data 0).toUInt32 <<< 24 + (data 1).toUInt32 <<< 16 + (data 2).toUInt32 <<< 8 +
    (data 3).toUInt32).toBitVec.toInt

def tyDpChangeProc (dp : UInt8) : UInt8 := dp + 1

/-- The checks in front of the `switch`. -/
def dpOf (dps : List DpCntl) (dpid type : UInt8) : Option DpCntl :=
  if type > tyDpType then none
  else
    let dpCntl := dps.find? fun dp => dp.dpId = dpid ∧
      (dp.type = .raw ∧ type = 0 ∨ dp.type = .obj ∧ 1 ≤ type ∧ type ≤ 5)
    dpCntl.filter fun dp => ¬ (type ≠ tyDpChangeProc dp.prop.propTp ∧ type ≠ 0)

/-- What a case of the `switch` does: how many bytes of `data` it reads and copies to
`val_data`, whether it goes on, and what it adds to the report. -/
structure Handled where
  touched : Nat
  copied : Nat
  accepted : Bool
  item : Option Json

/-- The `switch`; a type other than 0 is the one of `prop`. `ok` is the result of the call
outside, the report of a raw datapoint or the allocation for a string. -/
def handle (dp : DpCntl) (type : UInt8) (len : UInt16) (data : Mem) (ok : Bool) : Handled :=
  if type = 0 then ⟨len.toNat, 0, ok, none⟩
  else
    match dp.prop with
    | .bool =>
      if len ≠ 1 ∨ 1 < data 0 then ⟨1, 0, false, none⟩
      else ⟨1, 0, true, some (.bool (data 0 ≠ 0))⟩
    | .value min max =>
      -- the copy comes before the check of the length, and the error prints four bytes
      let valData := dword fun i => if i < len.toNat then data i else 0
      if len ≠ 4 ∨ valData < min ∨ max < valData then
        ⟨Nat.max len.toNat 4, len.toNat, false, none⟩
      else ⟨len.toNat, len.toNat, true, some (.number valData)⟩
    | .str maxLen =>
      if maxLen < len.toNat then ⟨0, 0, false, none⟩
      else if ¬ ok then ⟨0, 0, false, none⟩
      else ⟨len.toNat, 0, true, some (.string (cstr ((List.range len.toNat).map data)))⟩
    | .enum ppEnum =>
      if len ≠ 1 then ⟨0, 0, false, none⟩
      else
        match ppEnum[(data 0).toNat]? with
        | some str => ⟨1, 0, true, some (.string (cstr str))⟩
        | none => ⟨1, 0, false, none⟩
    | .bitmap =>
      if 4 < len then ⟨0, 0, false, none⟩
      else if len = 1 then ⟨1, 0, true, some (.number (data 0).toNat)⟩
      else if len = 2 then
        ⟨2, 0, true, some (.number ((data 0).toNat * 256 + (data 1).toNat))⟩
      else ⟨4, 0, true, some (.number (dword data))⟩

/-- One turn of the loop, and whether it goes on. -/
def visit (dps : List DpCntl) (ok : Bool) (s : Decode) : Bool × Decode :=
  let start := s.offset.toNat
  let dpid := s.mem start
  let type := s.mem (start + 1)
  match dpOf dps dpid type with
  | none =>
    (false, { s with visited := s.visited ++ [start], reads := s.reads ++ [(start, 2)] })
  | some dp =>
    let len := wordSwap (readWord s.mem (start + 2))
    let mem := writeWord s.mem (start + 2) len
    let handled := handle dp type len (fun i => mem (start + 4 + i)) ok
    (handled.accepted, { s with
      mem := mem
      offset := if handled.accepted then s.offset + (4 + len) else s.offset
      visited := s.visited ++ [start]
      reads := s.reads ++ [(start, 4), (start + 4, handled.touched)]
      copies := s.copies ++ [handled.copied]
      root := s.root ++ (handled.item.map fun item => (dpid, item)).toList
      objUpload := s.objUpload || handled.item.isSome })

/-- The loop, and whether it ends without `goto exit`. `outside` gives the results of the
calls outside, turn by turn. -/
def loop (dps : List DpCntl) (outside : Nat → Bool) (len : UInt16) :
    Nat → Decode → Option (Bool × Decode)
  | 0, _ => none
  | fuel + 1, s =>
    if (tyDpFrameMin : Int) ≤ len.toNat - s.offset.toNat then
      match visit dps (outside s.visited.length) s with
      | (true, t) => loop dps outside len fuel t
      | (false, t) => some (false, t)
    else some (true, s)

def Device.ready (dev : Device) : Option (List DpCntl) :=
  if ¬ dev.initFlag ∨ dev.isInUpgrade then none
  else if dev.curNwStat < statStaConn ∧ dev.curNwStat ≠ statApStaConn then none
  else
    match dev.devCntl with
    | none => none
    | some dps => if dev.created then some dps else none

def blank (mem : Mem) : Decode := ⟨mem, 0, [], [], [], [], false, none⟩

def tyDatapointUploadProc (dev : Device) (outside : Nat → Bool) (fuel : Nat) (len : UInt16)
    (mem : Mem) : Option Decode :=
  match dev.ready with
  | none => some (blank mem)
  | some dps =>
    match loop dps outside (wordSwap len) fuel (blank mem) with
    | none => none
    | some (false, s) => some s
    | some (true, s) => some { s with reported := if s.objUpload then some s.root else none }

/-! ### Decoding within the buffer -/

/-- The length a datapoint claims. -/
def sizeAt (mem : Mem) (pos : Nat) : Nat := (mem (pos + 2)).toNat * 256 + (mem (pos + 3)).toNat

/-- The value is one of its type. -/
def valid (dp : DpCntl) (type : UInt8) (size : Nat) (data : Mem) : Bool :=
  if type = 0 then true
  else
    match dp.prop with
    | .bool => size = 1 ∧ data 0 ≤ 1
    | .value min max => size = 4 ∧ min ≤ dword data ∧ dword data ≤ max
    | .str maxLen => (size : Int) ≤ maxLen
    | .enum ppEnum => size = 1 ∧ (data 0).toNat < ppEnum.length
    | .bitmap => size ≤ 4

/-- The datapoints whose handling ends if a call outside fails. -/
def callsOutside (dp : DpCntl) (type : UInt8) : Bool :=
  if type = 0 then true
  else
    match dp.prop with
    | .str _ => true
    | _ => false

/-- The well-formed datapoints, one behind the other, as long as the calls outside succeed. -/
def datapoints (dps : List DpCntl) (outside : Nat → Bool) (mem : Mem) (len : Nat) (turn pos : Nat) :
    List Nat :=
  if pos + tyDpFrameMin ≤ len then
    match dpOf dps (mem pos) (mem (pos + 1)) with
    | none => []
    | some dp =>
      if valid dp (mem (pos + 1)) (sizeAt mem pos) (fun i => mem (pos + 4 + i)) ∧
          pos + 4 + sizeAt mem pos ≤ len then
        pos :: if callsOutside dp (mem (pos + 1)) → outside turn then
          datapoints dps outside mem len (turn + 1) (pos + 4 + sizeAt mem pos) else []
      else []
  else []
termination_by len - pos
decreasing_by
  simp only [tyDpFrameMin] at *
  omega

/-- The decoding of a payload ends, takes its datapoints once and in order, and stays inside the
payload and the four bytes of `val_data`. -/
def DecodesSafely (dev : Device) (outside : Nat → Bool) (len : UInt16) (mem : Mem) : Prop :=
  let payload := (wordSwap len).toNat
  ∃ fuel t, tyDatapointUploadProc dev outside fuel len mem = some t ∧
    t.visited.Pairwise (· < ·) ∧
    (∀ dps, dev.ready = some dps → datapoints dps outside mem payload 0 0 <+: t.visited) ∧
    (∀ read ∈ t.reads, read.1 + read.2 ≤ payload) ∧ ∀ copied ∈ t.copies, copied ≤ 4

/-- The bytes of the payload behind the header that the type asks for, whatever length the
datapoint claims. -/
def Fits (dp : DpCntl) (type : UInt8) (size room : Nat) (ok : Bool) : Prop :=
  if type = 0 then size ≤ room
  else
    match dp.prop with
    | .value .. => size ≤ 4 ∧ 4 ≤ room
    | .str maxLen => (size : Int) ≤ maxLen → ok → size ≤ room
    | .bitmap => size ≤ 4 → size ≠ 1 → if size = 2 then 2 ≤ room else 4 ≤ room
    | .bool => True
    | .enum _ => True

/-- Every datapoint up to the first one refused has the bytes its type asks for. -/
def Contained (dps : List DpCntl) (outside : Nat → Bool) (mem : Mem) (len : Nat) (turn pos : Nat) :
    Prop :=
  if pos + tyDpFrameMin ≤ len then
    match dpOf dps (mem pos) (mem (pos + 1)) with
    | none => True
    | some dp =>
      Fits dp (mem (pos + 1)) (sizeAt mem pos) (len - (pos + 4)) (outside turn) ∧
        (valid dp (mem (pos + 1)) (sizeAt mem pos) (fun i => mem (pos + 4 + i)) →
          (callsOutside dp (mem (pos + 1)) → outside turn) →
            Contained dps outside mem len (turn + 1) (pos + 4 + sizeAt mem pos))
  else True
termination_by len - pos
decreasing_by
  simp only [tyDpFrameMin] at *
  omega

/-! ### Words -/

theorem toNat_wordSwap (x : UInt16) :
    (wordSwap x).toNat = x.toNat % 256 * 256 + x.toNat / 256 := by
  have hx := x.toNat_lt
  have hleft : (x <<< 8).toNat = 2 ^ 8 * (x.toNat % 256) := by
    rw [UInt16.toNat_shiftLeft]
    change x.toNat <<< 8 % 2 ^ 16 = _
    rw [Nat.shiftLeft_eq]
    omega
  have hright : (x >>> 8).toNat = x.toNat / 256 := by
    rw [UInt16.toNat_shiftRight]
    exact Nat.shiftRight_eq_div_pow ..
  rw [wordSwap, UInt16.toNat_or, hleft, hright, ← Nat.two_pow_add_eq_or_of_lt (by omega)]
  omega

theorem toNat_readWord (mem : Mem) (i : Nat) :
    (readWord mem i).toNat = (mem i).toNat + (mem (i + 1)).toNat * 256 := by
  have hlow := (mem i).toNat_lt
  have hhigh := (mem (i + 1)).toNat_lt
  have hleft : ((mem (i + 1)).toUInt16 <<< 8).toNat = 2 ^ 8 * (mem (i + 1)).toNat := by
    rw [UInt16.toNat_shiftLeft, UInt8.toNat_toUInt16]
    change (mem (i + 1)).toNat <<< 8 % 2 ^ 16 = _
    rw [Nat.shiftLeft_eq]
    omega
  rw [readWord, UInt16.toNat_or, hleft, UInt8.toNat_toUInt16, Nat.or_comm,
    ← Nat.two_pow_add_eq_or_of_lt hlow]
  omega

/-- After the swap the field holds the length the datapoint claims. -/
theorem toNat_len (mem : Mem) (pos : Nat) :
    (wordSwap (readWord mem (pos + 2))).toNat = sizeAt mem pos := by
  have hlow := (mem (pos + 2)).toNat_lt
  have hnext : pos + 2 + 1 = pos + 3 := rfl
  rw [toNat_wordSwap, toNat_readWord, sizeAt, hnext]
  omega

theorem writeWord_of_le (mem : Mem) {pos i : Nat} (word : UInt16) (h : pos + 2 ≤ i) :
    writeWord mem pos word i = mem i := by
  rw [writeWord, update_of_ne (by omega), update_of_ne (by omega)]

/-! ### A datapoint -/

variable {dp : DpCntl} {type : UInt8} {len : UInt16} {data : Mem} {ok : Bool} {room : Nat}

theorem dword_filled (data : Mem) : dword (fun i => if i < 4 then data i else 0) = dword data :=
  rfl

theorem handle_accepted (dp : DpCntl) (type : UInt8) (len : UInt16) (data : Mem) (ok : Bool) :
    (handle dp type len data ok).accepted ↔
      valid dp type len.toNat data ∧ (callsOutside dp type → ok) := by
  have hone : len = 1 ↔ len.toNat = 1 := UInt16.toNat_inj.symm
  have htwo : len = 2 ↔ len.toNat = 2 := UInt16.toNat_inj.symm
  have hfour : len = 4 ↔ len.toNat = 4 := UInt16.toNat_inj.symm
  have hlong : 4 < len ↔ 4 < len.toNat := UInt16.lt_iff_toNat_lt
  unfold handle valid callsOutside
  by_cases htype : type = 0
  · simp [htype]
  · cases dp.prop with
    | bool => grind
    | value min max =>
      by_cases hlen : len.toNat = 4
      · simp only [htype, if_false, hlen, dword_filled]
        grind
      · simp [htype, hfour, hlen]
    | str maxLen => grind
    | enum ppEnum => grind
    | bitmap => grind

/-- The bytes read and copied are in bounds exactly if the datapoint has what its type asks for. -/
theorem handle_bounds (dp : DpCntl) (type : UInt8) (len : UInt16) (data : Mem) (ok : Bool)
    (h : 1 ≤ room) :
    (handle dp type len data ok).touched ≤ room ∧ (handle dp type len data ok).copied ≤ 4 ↔
      Fits dp type len.toNat room ok := by
  have hone : len = 1 ↔ len.toNat = 1 := UInt16.toNat_inj.symm
  have htwo : len = 2 ↔ len.toNat = 2 := UInt16.toNat_inj.symm
  have hfour : len = 4 ↔ len.toNat = 4 := UInt16.toNat_inj.symm
  have hlong : 4 < len ↔ 4 < len.toNat := UInt16.lt_iff_toNat_lt
  unfold handle Fits
  by_cases htype : type = 0
  · simp [htype]
  · cases dp.prop with
    | bool => grind
    | value min max => grind
    | str maxLen => grind
    | enum ppEnum => grind
    | bitmap => grind

/-- A datapoint taken lies in the payload. -/
theorem Fits.size_le {size : Nat} (h : Fits dp type size room ok) (hroom : 1 ≤ room)
    (hvalid : valid dp type size data) (hok : callsOutside dp type → ok) : size ≤ room := by
  unfold Fits at h
  unfold valid at hvalid
  unfold callsOutside at hok
  by_cases htype : type = 0
  · rwa [if_pos htype] at h
  · rw [if_neg htype] at h hvalid hok
    cases dp.prop with
    | bool => grind
    | value min max => grind
    | str maxLen => grind
    | enum ppEnum => grind
    | bitmap => grind

/-! ### A turn of the loop -/

variable {dps : List DpCntl} {outside : Nat → Bool} {mem : Mem} {turn pos payload : Nat}
  {s t : Decode}

/-- The decoding stands in front of `pos`. -/
structure Stands (mem : Mem) (turn pos : Nat) (s : Decode) : Prop where
  offset : s.offset.toNat = pos
  turn : s.visited.length = turn
  mem : ∀ i, pos ≤ i → s.mem i = mem i

structure InBounds (payload : Nat) (s : Decode) : Prop where
  reads : ∀ read ∈ s.reads, read.1 + read.2 ≤ payload
  copies : ∀ copied ∈ s.copies, copied ≤ 4

/-- What follows the header of the datapoint at `pos`. -/
abbrev dataAt (mem : Mem) (pos : Nat) : Mem := fun i => mem (pos + 4 + i)

theorem Stands.dpOf (h : Stands mem turn pos s) (dps : List DpCntl) :
    dpOf dps (s.mem s.offset.toNat) (s.mem (s.offset.toNat + 1)) =
      dpOf dps (mem pos) (mem (pos + 1)) := by
  rw [h.offset, h.mem _ le_rfl, h.mem _ (Nat.le_add_right ..)]

theorem visit_unknown (h : Stands mem turn pos s)
    (hdp : dpOf dps (mem pos) (mem (pos + 1)) = none) :
    visit dps ok s = (false, { s with
      visited := s.visited ++ [pos], reads := s.reads ++ [(pos, 2)] }) := by
  rw [visit]
  dsimp only
  rw [h.dpOf, hdp, h.offset]

/-- A datapoint that is known is handled with what it claims, as it stands in the payload. -/
theorem visit_known (h : Stands mem turn pos s)
    (hdp : dpOf dps (mem pos) (mem (pos + 1)) = some dp) (ok : Bool) :
    ∃ len : UInt16, len.toNat = sizeAt mem pos ∧
      (let handled := handle dp (mem (pos + 1)) len (dataAt mem pos) ok
      visit dps ok s = (handled.accepted, { s with
        mem := writeWord s.mem (pos + 2) len
        offset := if handled.accepted then s.offset + (4 + len) else s.offset
        visited := s.visited ++ [pos]
        reads := s.reads ++ [(pos, 4), (pos + 4, handled.touched)]
        copies := s.copies ++ [handled.copied]
        root := s.root ++ (handled.item.map fun item => (mem pos, item)).toList
        objUpload := s.objUpload || handled.item.isSome })) := by
  refine ⟨wordSwap (readWord s.mem (pos + 2)), ?_, ?_⟩
  · rw [toNat_len, sizeAt, sizeAt, h.mem _ (Nat.le_add_right ..), h.mem _ (Nat.le_add_right ..)]
  · have hdata (word : UInt16) :
        (fun i => writeWord s.mem (pos + 2) word (pos + 4 + i)) = dataAt mem pos := by
      funext i
      rw [writeWord_of_le _ _ (by omega), h.mem _ (by omega)]
    rw [visit]
    dsimp only
    rw [h.dpOf, hdp, h.offset]
    dsimp only
    rw [hdata, h.mem pos le_rfl, h.mem (pos + 1) (Nat.le_add_right ..)]

theorem visit_visited (h : Stands mem turn pos s) :
    (visit dps ok s).2.visited = s.visited ++ [pos] := by
  cases hdp : dpOf dps (mem pos) (mem (pos + 1)) with
  | none => rw [visit_unknown h hdp]
  | some dp =>
    obtain ⟨len, -, hvisit⟩ := visit_known h hdp ok
    rw [hvisit]

/-- The loop goes on behind the datapoints that are valid, if the call outside succeeds. -/
theorem visit_goes_iff (h : Stands mem turn pos s) :
    (visit dps ok s).1 ↔ ∃ dp, dpOf dps (mem pos) (mem (pos + 1)) = some dp ∧
      valid dp (mem (pos + 1)) (sizeAt mem pos) (dataAt mem pos) ∧
        (callsOutside dp (mem (pos + 1)) → ok) := by
  cases hdp : dpOf dps (mem pos) (mem (pos + 1)) with
  | none =>
    rw [visit_unknown h hdp]
    exact iff_of_false Bool.false_ne_true fun ⟨_, heq, _⟩ => nomatch heq
  | some dp =>
    obtain ⟨len, hlen, hvisit⟩ := visit_known h hdp ok
    rw [hvisit, ← hlen]
    refine (handle_accepted ..).trans ⟨fun hgoes => ⟨dp, rfl, hgoes⟩, ?_⟩
    rintro ⟨dp', heq, hgoes⟩
    cases heq
    exact hgoes

theorem visit_inBounds_iff (h : Stands mem turn pos s) (hpos : pos + tyDpFrameMin ≤ payload) :
    InBounds payload (visit dps ok s).2 ↔ InBounds payload s ∧
      ∀ dp, dpOf dps (mem pos) (mem (pos + 1)) = some dp →
        Fits dp (mem (pos + 1)) (sizeAt mem pos) (payload - (pos + 4)) ok := by
  have hmin : tyDpFrameMin = 5 := rfl
  cases hdp : dpOf dps (mem pos) (mem (pos + 1)) with
  | none =>
    rw [visit_unknown h hdp]
    constructor
    · rintro ⟨hreads, hcopies⟩
      refine ⟨⟨fun read hread => hreads read (List.mem_append_left _ hread), hcopies⟩, ?_⟩
      exact fun _ heq => nomatch heq
    · rintro ⟨⟨hreads, hcopies⟩, -⟩
      refine ⟨fun read hread => ?_, hcopies⟩
      obtain hold | hnew := List.mem_append.mp hread
      · exact hreads read hold
      · rw [List.mem_singleton.mp hnew]
        omega
  | some dp =>
    obtain ⟨len, hlen, hvisit⟩ := visit_known h hdp ok
    have hroom : 1 ≤ payload - (pos + 4) := by omega
    have hbounds := handle_bounds dp (mem (pos + 1)) len (dataAt mem pos) ok hroom
    rw [hvisit, ← hlen]
    constructor
    · rintro ⟨hreads, hcopies⟩
      refine ⟨⟨fun read hread => hreads read (List.mem_append_left _ hread),
        fun copied hcopied => hcopies copied (List.mem_append_left _ hcopied)⟩, ?_⟩
      intro dp' heq
      cases heq
      have htouched :=
        hreads _ (List.mem_append_right _ (List.mem_cons_of_mem _ List.mem_cons_self))
      have hcopied := hcopies _ (List.mem_append_right _ List.mem_cons_self)
      exact hbounds.mp ⟨by dsimp only at htouched; omega, hcopied⟩
    · rintro ⟨⟨hreads, hcopies⟩, hfits⟩
      obtain ⟨htouched, hcopied⟩ := hbounds.mpr (hfits dp rfl)
      constructor
      · intro read hread
        obtain hold | hnew := List.mem_append.mp hread
        · exact hreads read hold
        · obtain rfl | hnew := List.mem_cons.mp hnew
          · dsimp only
            omega
          · rw [List.mem_singleton.mp hnew]
            dsimp only
            omega
      · intro copied hmem
        obtain hold | hnew := List.mem_append.mp hmem
        · exact hcopies copied hold
        · rw [List.mem_singleton.mp hnew]
          exact hcopied

/-- The turn that goes on leaves the decoding in front of the next datapoint. -/
theorem visit_next (h : Stands mem turn pos s)
    (hdp : dpOf dps (mem pos) (mem (pos + 1)) = some dp) (hgoes : (visit dps ok s).1)
    (hnext : pos + 4 + sizeAt mem pos < 2 ^ 16) :
    Stands mem (turn + 1) (pos + 4 + sizeAt mem pos) (visit dps ok s).2 := by
  obtain ⟨len, hlen, hvisit⟩ := visit_known h hdp ok
  rw [hvisit] at hgoes ⊢
  have hoffset : (s.offset + (4 + len)).toNat = pos + 4 + sizeAt mem pos := by
    have hfour : (4 : UInt16).toNat = 4 := rfl
    rw [UInt16.toNat_add, UInt16.toNat_add, h.offset, hlen, hfour]
    omega
  refine ⟨?_, ?_, fun i hi => ?_⟩
  · dsimp only at hgoes ⊢
    rw [if_pos hgoes, hoffset]
  · rw [List.length_append, h.turn]
    rfl
  · exact (writeWord_of_le _ _ (by omega)).trans (h.mem i (by omega))

/-! ### The loop -/

/-- The loop goes on in front of `pos` exactly if the frame minimum is left. -/
theorem Stands.goes_iff (h : Stands mem turn pos s) (len : UInt16) :
    (tyDpFrameMin : Int) ≤ len.toNat - s.offset.toNat ↔ pos + tyDpFrameMin ≤ len.toNat := by
  rw [h.offset]
  omega

theorem visit_extends (dps : List DpCntl) (ok : Bool) (s : Decode) :
    s.reads <+: (visit dps ok s).2.reads ∧ s.copies <+: (visit dps ok s).2.copies := by
  rw [visit]
  dsimp only
  split
  · exact ⟨List.prefix_append _ _, List.prefix_refl _⟩
  · exact ⟨List.prefix_append _ _, List.prefix_append _ _⟩

theorem InBounds.of_visit (h : InBounds payload (visit dps ok s).2) : InBounds payload s :=
  ⟨fun read hread => h.reads read ((visit_extends dps ok s).1.subset hread),
    fun copied hcopied => h.copies copied ((visit_extends dps ok s).2.subset hcopied)⟩

/-- The loop from a state in which it goes on. -/
theorem loop_goes (dps : List DpCntl) (outside : Nat → Bool) {len : UInt16}
    (hgoes : (tyDpFrameMin : Int) ≤ len.toNat - s.offset.toNat) (fuel : Nat) :
    loop dps outside len (fuel + 1) s =
      let next := visit dps (outside s.visited.length) s
      if next.1 then loop dps outside len fuel next.2 else some next := by
  rw [loop, if_pos hgoes]
  split
  · rename_i heq
    rw [heq]
    rfl
  · rename_i heq
    rw [heq]
    rfl

/-- What a run records is never taken back. -/
theorem InBounds.of_loop {len : UInt16} {fuel : Nat} {ended : Bool}
    (hloop : loop dps outside len fuel s = some (ended, t)) (ht : InBounds payload t) :
    InBounds payload s := by
  induction fuel generalizing s with
  | zero => nomatch hloop
  | succ fuel ih =>
    by_cases hgoes : (tyDpFrameMin : Int) ≤ len.toNat - s.offset.toNat
    · rw [loop_goes dps outside hgoes] at hloop
      dsimp only at hloop
      split at hloop
      · exact (ih hloop).of_visit
      · have hlast := Option.some.inj hloop
        rw [← (Prod.mk.inj hlast).2] at ht
        exact ht.of_visit
    · rw [loop, if_neg hgoes] at hloop
      exact (Prod.mk.inj (Option.some.inj hloop)).2 ▸ ht

/-- A run that stays in bounds meets no datapoint that claims too much. -/
theorem contained_of_loop {len : UInt16} {fuel : Nat} {ended : Bool}
    (h : Stands mem turn pos s) (hloop : loop dps outside len fuel s = some (ended, t))
    (ht : InBounds len.toNat t) : Contained dps outside mem len.toNat turn pos := by
  have hlt := len.toNat_lt
  induction fuel generalizing s turn pos with
  | zero => nomatch hloop
  | succ fuel ih =>
    rw [Contained]
    split
    · rename_i hpos
      rw [loop_goes dps outside ((h.goes_iff len).mpr hpos), h.turn] at hloop
      have hvisit : InBounds len.toNat (visit dps (outside turn) s).2 := by
        dsimp only at hloop
        split at hloop
        · exact InBounds.of_loop hloop ht
        · rwa [Option.some.inj hloop]
      obtain ⟨-, hfits⟩ := (visit_inBounds_iff h hpos).mp hvisit
      split
      · trivial
      · rename_i dp hdp
        refine ⟨hfits dp hdp, fun hvalid hok => ?_⟩
        have hgoes := (visit_goes_iff h).mpr ⟨dp, hdp, hvalid, hok⟩
        have hroom : 1 ≤ len.toNat - (pos + 4) := by
          unfold tyDpFrameMin at hpos
          omega
        have hsize := (hfits dp hdp).size_le hroom hvalid hok
        dsimp only at hloop
        rw [if_pos hgoes] at hloop
        exact ih (visit_next h hdp hgoes (by omega)) hloop
    · trivial

/-- The well-formed datapoints are those the loop takes, and one more at most. -/
theorem datapoints_cases {len : Nat} (hpos : pos + tyDpFrameMin ≤ len) :
    (datapoints dps outside mem len turn pos <+: [pos] ∨ ∃ dp,
      dpOf dps (mem pos) (mem (pos + 1)) = some dp ∧
      valid dp (mem (pos + 1)) (sizeAt mem pos) (dataAt mem pos) ∧
      (callsOutside dp (mem (pos + 1)) → outside turn) ∧
      datapoints dps outside mem len turn pos =
        pos :: datapoints dps outside mem len (turn + 1) (pos + 4 + sizeAt mem pos)) := by
  rw [datapoints, if_pos hpos]
  split
  · exact .inl List.nil_prefix
  · rename_i dp hdp
    by_cases hwell : valid dp (mem (pos + 1)) (sizeAt mem pos) (dataAt mem pos) ∧
        pos + 4 + sizeAt mem pos ≤ len
    · rw [if_pos hwell]
      by_cases hok : callsOutside dp (mem (pos + 1)) → outside turn
      · rw [if_pos hok]
        exact .inr ⟨dp, hdp, hwell.1, hok, rfl⟩
      · rw [if_neg hok]
        exact .inl (List.prefix_refl _)
    · rw [if_neg hwell]
      exact .inl List.nil_prefix

/-- Where every datapoint taken has its bytes, the loop takes them once and in order. -/
theorem loop_of_contained {len : UInt16} (h : Stands mem turn pos s)
    (hs : InBounds len.toNat s) (hcontained : Contained dps outside mem len.toNat turn pos) :
    ∃ fuel ended t more, loop dps outside len fuel s = some (ended, t) ∧ InBounds len.toNat t ∧
      t.visited = s.visited ++ more ∧ more.Pairwise (· < ·) ∧ (∀ start ∈ more, pos ≤ start) ∧
      datapoints dps outside mem len.toNat turn pos <+: more := by
  have hlt := len.toNat_lt
  induction hroom : len.toNat - pos using Nat.strong_induction_on generalizing s turn pos with
  | h room ih =>
    subst hroom
    by_cases hpos : pos + tyDpFrameMin ≤ len.toNat
    · rw [Contained, if_pos hpos] at hcontained
      have hfits : ∀ dp, dpOf dps (mem pos) (mem (pos + 1)) = some dp →
          Fits dp (mem (pos + 1)) (sizeAt mem pos) (len.toNat - (pos + 4)) (outside turn) := by
        intro dp hdp
        rw [hdp] at hcontained
        exact hcontained.1
      have hvisit := (visit_inBounds_iff h hpos).mpr ⟨hs, hfits⟩
      have hstep := loop_goes dps outside ((h.goes_iff len).mpr hpos)
      rw [h.turn] at hstep
      by_cases hgoes : (visit dps (outside turn) s).1
      · obtain ⟨dp, hdp, hvalid, hok⟩ := (visit_goes_iff h).mp hgoes
        have hmin : tyDpFrameMin = 5 := rfl
        have hsize := (hfits dp hdp).size_le (by omega) hvalid hok
        rw [hdp] at hcontained
        obtain ⟨fuel, ended, t, more, hloop, ht, hvisited, hsorted, hmore, hpre⟩ :=
          ih _ (by omega) (visit_next h hdp hgoes (by omega)) hvisit
            (hcontained.2 hvalid hok) rfl
        refine ⟨fuel + 1, ended, t, pos :: more, ?_, ht, ?_, ?_, ?_, ?_⟩
        · rw [hstep]
          exact (if_pos hgoes).trans hloop
        · rw [hvisited, visit_visited h, List.append_assoc]
          rfl
        · refine List.pairwise_cons.mpr ⟨fun start hstart => ?_, hsorted⟩
          have := hmore start hstart
          omega
        · refine List.forall_mem_cons.mpr ⟨le_rfl, fun start hstart => ?_⟩
          have := hmore start hstart
          omega
        · obtain hend | ⟨_, -, -, -, hcons⟩ := datapoints_cases hpos
          · exact hend.trans (List.prefix_append [pos] more)
          · rw [hcons]
            exact (List.prefix_cons_inj pos).mpr hpre
      · refine ⟨1, _, _, [pos], (hstep 0).trans (if_neg hgoes), hvisit, visit_visited h,
          List.pairwise_singleton .., fun start hstart => (List.mem_singleton.mp hstart).ge, ?_⟩
        obtain hend | ⟨dp, hdp, hvalid, hok, -⟩ := datapoints_cases hpos
        · exact hend
        · exact absurd ((visit_goes_iff h).mpr ⟨dp, hdp, hvalid, hok⟩) hgoes
    · refine ⟨1, true, s, [], ?_, hs, (List.append_nil _).symm, List.Pairwise.nil,
        fun _ hmem => absurd hmem List.not_mem_nil, ?_⟩
      · rw [loop, if_neg fun hgoes => hpos ((h.goes_iff len).mp hgoes)]
      · rw [datapoints, if_neg hpos]

theorem stands_blank (mem : Mem) : Stands mem 0 0 (blank mem) := ⟨rfl, rfl, fun _ _ => rfl⟩

theorem inBounds_blank (mem : Mem) (payload : Nat) : InBounds payload (blank mem) :=
  ⟨fun _ hmem => absurd hmem List.not_mem_nil, fun _ hmem => absurd hmem List.not_mem_nil⟩

theorem DecodesSafely.contained {dev : Device} {len : UInt16}
    (h : DecodesSafely dev outside len mem) (hready : dev.ready = some dps) :
    Contained dps outside mem (wordSwap len).toNat 0 0 := by
  obtain ⟨fuel, t, hrun, -, -, hreads, hcopies⟩ := h
  rw [tyDatapointUploadProc, hready] at hrun
  dsimp only at hrun
  split at hrun
  · nomatch hrun
  · rename_i s hloop
    cases hrun
    exact contained_of_loop (stands_blank mem) hloop ⟨hreads, hcopies⟩
  · rename_i s hloop
    cases hrun
    exact contained_of_loop (stands_blank mem) hloop ⟨hreads, hcopies⟩

/-- The decoding is safe exactly if no datapoint it takes up claims more than there is. -/
theorem decodesSafely_iff (dev : Device) (outside : Nat → Bool) (len : UInt16) (mem : Mem) :
    DecodesSafely dev outside len mem ↔ ∀ dps, dev.ready = some dps →
      Contained dps outside mem (wordSwap len).toNat 0 0 := by
  constructor
  · exact fun h dps hready => h.contained hready
  · intro hcontained
    unfold DecodesSafely tyDatapointUploadProc
    cases hready : dev.ready with
    | none =>
      have hblank := inBounds_blank mem (wordSwap len).toNat
      refine ⟨0, blank mem, rfl, List.Pairwise.nil, ?_, hblank.reads, hblank.copies⟩
      exact fun _ heq => nomatch heq
    | some dps =>
      obtain ⟨fuel, ended, t, more, hloop, ht, hvisited, hsorted, -, hpre⟩ :=
        loop_of_contained (stands_blank mem) (inBounds_blank mem _) (hcontained dps hready)
      have hvisited : t.visited = more := hvisited
      subst hvisited
      have hfirst : ∀ dps', some dps = some dps' →
          datapoints dps' outside mem (wordSwap len).toNat 0 0 <+: t.visited := by
        intro dps' heq
        exact Option.some.inj heq ▸ hpre
      dsimp only
      cases ended with
      | false => exact ⟨fuel, t, by rw [hloop], hsorted, hfirst, ht.reads, ht.copies⟩
      | true =>
        exact ⟨fuel, { t with reported := if t.objUpload then some t.root else none },
          by rw [hloop], hsorted, hfirst, ht.reads, ht.copies⟩

/-- A number between 0 and 100, as datapoint 1. -/
def brightness : Device := ⟨true, false, 7, some [⟨1, .obj, .value 0 100⟩], true⟩

/-- A number that claims five bytes, at the end of the payload. -/
theorem longValue_copied :
    ¬ DecodesSafely brightness (fun _ => true) 0x0500 fun i => [1, 2, 0, 5, 0].getD i 0 := by
  intro h
  have hcontained := h.contained rfl
  rw [Contained] at hcontained
  exact absurd hcontained.1.1 (by decide)

end Sv6x66.Tylink.Datapoints
