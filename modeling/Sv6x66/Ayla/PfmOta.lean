import Sv6x66.Lib.CString
import Sv6x66.Lib.Run

/-! The OTA writer `pfm_ota.c`. Its context is static, and `pfm_ota_image_open` leaves all
of it but the file handle as it is. -/
namespace Sv6x66.Ayla.PfmOta
open Sv6x66.Lib
open Sv6x66.Lib.CString

/-- `ctx`, and `ota.bin` with the handle it is open through. -/
structure Ota where
  size : UInt32
  rxLen : UInt32
  crc : UInt32
  fp : Int
  bin : Option Bytes
  openFp : Option Int

/-- Static memory, and an empty file system. -/
def start : Ota := ⟨0, 0, 0, 0, none, none⟩

def crc32Table : Vector UInt32 16 := #v[
  0, 0x1db71064, 0x3b6e20c8, 0x26d930ac,
  0x76dc4190, 0x6b6b51f4, 0x4db26158, 0x5005713c,
  0xedb88320, 0xf00f9344, 0xd6d6a3e8, 0xcb61b38c,
  0x9b64c2b0, 0x86d3d2d4, 0xa00ae278, 0xbdbdf21c]

def crcNibble (crc : UInt32) : UInt32 :=
  (crc >>> 4) ^^^ crc32Table[(crc &&& 0xf).toNat % 16]

def pfmOtaCrc32 (buf : Bytes) (crc : UInt32) : UInt32 :=
  buf.foldl (fun crc byte => crcNibble (crcNibble (crc ^^^ byte.toUInt32))) crc

/-- `FS_open` returned `handle`, which is negative if it failed; the result is not `NULL` if it
did not. -/
def pfmOtaImageOpen (s : Ota) (_size : UInt32) (handle : Int) : Bool × Ota :=
  if handle < 0 then (false, { s with fp := handle, bin := none, openFp := none })
  else (true, { s with fp := handle, bin := some [], openFp := some handle })

/-- The error exit of `pfm_ota_image_write`. -/
def giveUp (s : Ota) : Ota :=
  { s with fp := 0, openFp := if s.openFp = some s.fp then none else s.openFp }

/-- `FS_write` appends `buf` if the file is open through `fp` and `wrote` is set. There is no
result without a context, as the error exit looks into it. -/
def pfmOtaImageWrite (pctx : Bool) (s : Ota) (offset : UInt32) (buf : Bytes) (wrote : Bool) :
    Option (Int × Ota) :=
  let len := UInt32.ofNat buf.length
  if pctx = false then none
  else if offset ≠ s.rxLen ∨ s.rxLen + len > s.size then some (0x12, giveUp s)
  else
    let s := { s with crc := pfmOtaCrc32 buf s.crc }
    if wrote = true ∧ s.openFp = some s.fp then
      some (0, { s with rxLen := s.rxLen + len, bin := s.bin.map (· ++ buf) })
    else some (0x21, giveUp s)

def pfmOtaImageClose (s : Ota) : Ota :=
  { s with openFp := if s.openFp = some s.fp then none else s.openFp }

inductive Event where
  | imageOpen (size : UInt32) (handle : Int)
  | imageWrite (offset : UInt32) (buf : Bytes) (wrote : Bool)
  | imageClose

def step (s : Ota) : Event → Option Ota
  | .imageOpen size handle => some (pfmOtaImageOpen s size handle).2
  | .imageWrite offset buf wrote => (pfmOtaImageWrite true s offset buf wrote).map Prod.snd
  | .imageClose => some (pfmOtaImageClose s)

/-! ### What it is for -/

/-- The chunks written one behind the other, as long as the writer returns 0. -/
def writeAll (s : Ota) (offset : Nat) : List Bytes → Option Ota
  | [] => some s
  | chunk :: chunks =>
    match pfmOtaImageWrite true s (UInt32.ofNat offset) chunk true with
    | some (0, t) => writeAll t (offset + chunk.length) chunks
    | _ => none

/-- A write elsewhere than at `position`, or beyond `size`, fails and appends nothing. -/
def Refuses (s : Ota) (size position : Nat) : Prop :=
  ∀ (offset : UInt32) (buf : Bytes) (wrote : Bool) (code : Int) (t : Ota),
    buf.length < 2 ^ 32 → offset.toNat ≠ position ∨ size < position + buf.length →
    pfmOtaImageWrite true s offset buf wrote = some (code, t) → code ≠ 0 ∧ t.bin = s.bin

/-- A session opened in `s` takes the image in these chunks, and nothing else. -/
structure WritesImage (s : Ota) (handle : Int) (chunks : List Bytes) : Prop where
  accepts : ∃ t, writeAll (pfmOtaImageOpen s (UInt32.ofNat chunks.flatten.length) handle).2 0 chunks =
    some t ∧ t.bin = some chunks.flatten
  refuses : ∀ k t, writeAll (pfmOtaImageOpen s (UInt32.ofNat chunks.flatten.length) handle).2 0
    (chunks.take k) = some t → Refuses t chunks.flatten.length (chunks.take k).flatten.length

/-! ### No session has a size -/

/-- What no function of the writer changes. -/
structure Sizeless (s : Ota) : Prop where
  size : s.size = 0
  rxLen : s.rxLen = 0

variable {s t : Ota}

theorem Sizeless.imageOpen (h : Sizeless s) (size : UInt32) (handle : Int) :
    Sizeless (pfmOtaImageOpen s size handle).2 := by
  rw [pfmOtaImageOpen]
  split
  · exact ⟨h.size, h.rxLen⟩
  · exact ⟨h.size, h.rxLen⟩

/-- Only an empty chunk at offset 0 gets past the test. -/
theorem Sizeless.imageWrite (h : Sizeless s) {offset : UInt32} {buf : Bytes}
    (hbuf : buf.length < 2 ^ 32) (wrote : Bool) :
    pfmOtaImageWrite true s offset buf wrote =
      if offset = 0 ∧ buf = [] then
        if wrote = true ∧ s.openFp = some s.fp then some (0, s) else some (0x21, giveUp s)
      else some (0x12, giveUp s) := by
  have hpos : (0 : UInt32) < UInt32.ofNat buf.length ↔ buf ≠ [] := by
    rw [UInt32.lt_iff_toNat_lt, UInt32.toNat_ofNat_of_lt' hbuf, ← List.length_pos_iff]
    rfl
  have htest : (offset ≠ s.rxLen ∨ s.rxLen + UInt32.ofNat buf.length > s.size) ↔
      ¬ (offset = 0 ∧ buf = []) := by
    rw [h.size, h.rxLen, UInt32.zero_add, gt_iff_lt, hpos, not_and_or]
  rw [pfmOtaImageWrite, if_neg (by decide)]
  by_cases htaken : offset = 0 ∧ buf = []
  · have hbin : s.bin.map (· ++ ([] : Bytes)) = s.bin := by simp
    rw [if_pos htaken, if_neg (fun hbad => htest.mp hbad htaken), htaken.2]
    dsimp only [pfmOtaCrc32, List.foldl_nil]
    rw [hbin]
    obtain ⟨size, rxLen, crc, fp, bin, openFp⟩ := s
    cases h.rxLen
    rfl
  · rw [if_neg htaken, if_pos (htest.mpr htaken)]

/-- Also for a length beyond 32 bits, which no call has. -/
theorem sizeless_step {event : Event} (h : Sizeless s) (hstep : step s event = some t) :
    Sizeless t := by
  cases event with
  | imageOpen size handle =>
    cases hstep
    exact h.imageOpen size handle
  | imageWrite offset buf wrote =>
    obtain ⟨⟨code, t⟩, hwrite, rfl⟩ := Option.map_eq_some_iff.mp hstep
    rw [pfmOtaImageWrite, if_neg (by decide)] at hwrite
    dsimp only at hwrite
    split at hwrite
    · cases hwrite
      exact ⟨h.size, h.rxLen⟩
    · rename_i htest
      obtain ⟨-, hlen⟩ := not_or.mp htest
      rw [h.rxLen, h.size, UInt32.zero_add, UInt32.not_lt] at hlen
      have hzero : UInt32.ofNat buf.length = 0 := UInt32.le_zero_iff.mp hlen
      split at hwrite
      · cases hwrite
        exact ⟨h.size, by rw [h.rxLen, hzero]; rfl⟩
      · cases hwrite
        exact ⟨h.size, h.rxLen⟩
  | imageClose =>
    cases hstep
    exact ⟨h.size, h.rxLen⟩

theorem sizeless_run {events : List Event} (hrun : Run step anyStep start events s) : Sizeless s :=
  hrun.invariant ⟨rfl, rfl⟩ fun _ _ _ h _ hstep => sizeless_step h hstep

/-- What is out of order or too long is refused in every state. -/
theorem Sizeless.refuses (h : Sizeless s) (size : Nat) : Refuses s size 0 := by
  intro offset buf wrote code t hbuf hbad hwrite
  rw [h.imageWrite hbuf] at hwrite
  split at hwrite
  · rename_i htaken
    rw [htaken.1, htaken.2] at hbad
    rcases hbad with hoffset | hlong
    · exact absurd rfl hoffset
    · exact absurd hlong (by simp)
  · cases hwrite
    exact ⟨by decide, rfl⟩

/-! ### Every image -/

/-- Chunks are taken as long as they are empty. -/
theorem writeAll_iff (h : Sizeless s) (hopen : s.openFp = some s.fp) {chunks : List Bytes}
    (hlength : chunks.flatten.length < 2 ^ 32) :
    (∃ t, writeAll s 0 chunks = some t) ↔ chunks.flatten = [] := by
  induction chunks with
  | nil => exact iff_of_true ⟨s, rfl⟩ rfl
  | cons chunk chunks ih =>
    rw [List.flatten_cons, List.length_append] at hlength
    rw [writeAll, h.imageWrite (by omega)]
    by_cases hempty : chunk = []
    · rw [if_pos ⟨rfl, hempty⟩, if_pos ⟨rfl, hopen⟩, hempty]
      exact ih (by omega)
    · rw [if_neg fun htaken => hempty htaken.2, List.flatten_cons, List.append_eq_nil_iff]
      refine iff_of_false ?_ fun hall => hempty hall.1
      rintro ⟨t, ht⟩
      cases ht

theorem writeAll_empty (h : Sizeless s) (hopen : s.openFp = some s.fp) {chunks : List Bytes}
    (hchunks : chunks.flatten = []) : writeAll s 0 chunks = some s := by
  induction chunks with
  | nil => rfl
  | cons chunk chunks ih =>
    rw [List.flatten_cons, List.append_eq_nil_iff] at hchunks
    obtain ⟨rfl, hrest⟩ := hchunks
    rw [writeAll, h.imageWrite (by decide), if_pos ⟨rfl, rfl⟩, if_pos ⟨rfl, hopen⟩]
    exact ih hrest

/-- After any sessions, the image arrives only if it is empty. -/
theorem writesImage_iff {events : List Event} (hrun : Run step anyStep start events s)
    (handle : Int) (hhandle : 0 ≤ handle) (chunks : List Bytes)
    (hlength : chunks.flatten.length < 2 ^ 32) :
    WritesImage s handle chunks ↔ chunks.flatten = [] := by
  have hopened : pfmOtaImageOpen s (UInt32.ofNat chunks.flatten.length) handle =
      (true, { s with fp := handle, bin := some [], openFp := some handle }) :=
    if_neg (not_lt.mpr hhandle)
  have h := (sizeless_run hrun).imageOpen (UInt32.ofNat chunks.flatten.length) handle
  have hopen : (pfmOtaImageOpen s (UInt32.ofNat chunks.flatten.length) handle).2.openFp =
      some (pfmOtaImageOpen s (UInt32.ofNat chunks.flatten.length) handle).2.fp := by
    rw [hopened]
  constructor
  · intro hwrites
    obtain ⟨t, ht, -⟩ := hwrites.accepts
    exact (writeAll_iff h hopen hlength).mp ⟨t, ht⟩
  · intro hempty
    refine ⟨⟨_, writeAll_empty h hopen hempty, ?_⟩, fun k t ht => ?_⟩
    · rw [hopened, hempty]
    · have hfront : (chunks.take k).flatten = [] := by
        rw [List.flatten_eq_nil_iff] at hempty ⊢
        exact fun chunk hchunk => hempty chunk (List.mem_of_mem_take hchunk)
      rw [writeAll_empty h hopen hfront] at ht
      cases ht
      rw [hfront]
      exact h.refuses _

theorem writesImage_iff_empty : WritesImage start 1 [[], []] ↔ ([[], []] : List Bytes).flatten = [] :=
  writesImage_iff .nil 1 (by decide) [[], []] (by decide)

/-- The first byte of an image is refused. -/
theorem oneByte_refused : ¬ WritesImage start 1 [[7]] ∧
    (pfmOtaImageWrite true (pfmOtaImageOpen start 1 1).2 0 [7] true).map Prod.fst = some 0x12 := by
  refine ⟨fun hwrites => ?_, by decide⟩
  obtain ⟨t, ht, -⟩ := hwrites.accepts
  have h : Sizeless start := ⟨rfl, rfl⟩
  exact absurd ((writeAll_iff (h.imageOpen _ 1) rfl (by decide)).mp ⟨t, ht⟩) (by decide)

end Sv6x66.Ayla.PfmOta
