import Sv6x66.Colink.OtaHttp
import Sv6x66.Lib.ByteFile
import Sv6x66.Lib.Loop

/-! The download of the firmware image into `ota.bin`: one HTTP range request
after the other on one socket, one flash sector for each range. The network,
the heap and the file system are parameters. -/
namespace Sv6x66.Colink.OtaDownload

open Sv6x66.Lib Sv6x66.Lib.CString Sv6x66.Lib.ByteFile OtaHttp

def fileBufferSize : Nat := 4096
def spiFlashSecSize : Nat := 4096

/-- What the file system answers while one sector is written: `FS_open`,
`FS_lseek` in a file of some length, and `FS_write` of some bytes. -/
structure FsCalls where
  opened : Bool
  seek : Nat → Nat → Int
  write : Nat → Int

structure FsCalls.Works (fs : FsCalls) : Prop where
  opened : fs.opened = true
  seek : ∀ length offset, offset ≤ length → fs.seek length offset = offset
  write : ∀ length, fs.write length = length

/-- `otaBin` is `none` while the file does not exist. The file is opened with
`SPIFFS_CREAT`, and `sector` is a `uint16`. -/
def flashOneSector (fs : FsCalls) (otaBin : Option Bytes) (sector : Nat) (src : Bytes) :
    Bool × Option Bytes :=
  if fs.opened then
    let file := otaBin.getD []
    let offset := sector % 2 ^ 16 * spiFlashSecSize
    if fs.seek file.length offset = offset then
      let writeLen := fs.write src.length
      if writeLen = src.length then (true, some (patch 0xFF file offset src))
      else (false, some (patch 0xFF file offset (src.take writeLen.toNat)))
    else (false, some file)
  else (false, otaBin)

/-- The system around the download. The index counts the requests; `stale` is
the memory behind the bytes that the first read of a reply delivered. -/
structure Os where
  httpBuffer : Bool
  fileBuffer : Bool
  send : Nat → Int
  stale : Nat → Bytes
  fs : Nat → FsCalls

structure Os.Works (os : Os) : Prop where
  httpBuffer : os.httpBuffer = true
  fileBuffer : os.fileBuffer = true
  send : ∀ request, 0 < os.send request
  fs : ∀ request, (os.fs request).Works

/-- What the next reads on the socket return once the request for these bytes
has been sent; a read past the end of the list returns 0 or less. -/
abbrev Network := (request start last : Nat) → List Bytes

structure Download where
  sectorIndex : Nat
  startDownloadFlag : Bool
  rangeStart : Nat
  rangeEnd : Nat
  binFileSize : Nat
  currentBinLength : Nat
  requests : Nat
  pending : List Bytes
  otaBin : Option Bytes
  fileLength : Nat
deriving DecidableEq

/-- `undefined` is undefined behaviour of the C code. -/
inductive Outcome where
  | returned (ret : Int) (s : Download)
  | undefined
deriving DecidableEq

/-- The end of the `do … while` that fills the file buffer. -/
inductive Received where
  | undefined
  | failed (currentBinLength : Nat) (pending : List Bytes)
  | complete (fileBuffer : Bytes) (currentBinLength : Nat) (pending : List Bytes)

/-- `fileBuffer` holds the first `recv_bin_length` bytes of the buffer. -/
def readLoop (binFileSize : Nat) : List Bytes → Bytes → Nat → Received
  | [], _, currentBinLength => .failed currentBinLength []
  | chunk :: pending, fileBuffer, currentBinLength =>
    if chunk.length = 0 then .failed currentBinLength pending
    else if fileBufferSize < fileBuffer.length + chunk.length then .undefined
    else
      let fileBuffer := fileBuffer ++ chunk
      let currentBinLength := (currentBinLength + chunk.length) % 2 ^ 32
      if fileBuffer.length < fileBufferSize ∧ currentBinLength < binFileSize then
        readLoop binFileSize pending fileBuffer currentBinLength
      else .complete fileBuffer currentBinLength pending

/-- `sector_start`: every assignment to it stores 0. -/
def sectorStart : Nat := 0

def nextRangeEnd (rangeEnd binFileSize : Nat) : Nat :=
  if binFileSize - 1 ≤ (rangeEnd + 4096) % 2 ^ 32 then binFileSize - 1
  else (rangeEnd + 4096) % 2 ^ 32

def checkProgress (s : Download) : Turn Download Outcome :=
  if s.binFileSize ≤ s.currentBinLength then .stop (.returned 0 s) else .again s

/-- A read error keeps the bytes counted so far and repeats the same range. -/
def storeReply (fs : FsCalls) (s : Download) : Received → Turn Download Outcome
  | .undefined => .stop .undefined
  | .failed currentBinLength pending => checkProgress { s with currentBinLength, pending }
  | .complete fileBuffer currentBinLength pending =>
    match flashOneSector fs s.otaBin (sectorStart + s.sectorIndex) fileBuffer with
    | (false, otaBin) => .stop (.returned (-2) { s with currentBinLength, pending, otaBin })
    | (true, otaBin) => checkProgress
        { s with
          currentBinLength, pending, otaBin
          sectorIndex := (s.sectorIndex + 1) % 2 ^ 32
          rangeStart := (s.rangeEnd + 1) % 2 ^ 32
          rangeEnd := nextRangeEnd s.rangeEnd s.binFileSize }

/-- `bin_file_size`, taken from the first reply only. -/
def binFileSizeOf (s : Download) (httpBuffer : Bytes) : Option Nat :=
  if s.startDownloadFlag then some s.binFileSize
  else (getUserBinLength httpBuffer).map fun length => (length % 2 ^ 32).toNat

/-- One reply, from its first read on; `first.length` is `ret`. -/
def takeReply (fs : FsCalls) (s : Download) (first httpBuffer : Bytes) : Turn Download Outcome :=
  match binFileSizeOf s httpBuffer with
  | none => .stop .undefined
  | some 0 => .stop (.returned (-1) { s with startDownloadFlag := true, binFileSize := 0 })
  | some size =>
    let s := { s with startDownloadFlag := true, binFileSize := size, fileLength := size }
    match strstr httpBuffer headerEnd with
    | none => .stop (.returned (-1) s)
    | some t1 =>
      -- `recv_bin_length = ret - (t1 - http_buffer + 4)` is unsigned
      if first.length < t1 + 4 then .stop .undefined
      else storeReply fs s (readLoop size s.pending (first.drop (t1 + 4)) s.currentBinLength)

/-- One turn of the `while(1)`. -/
def turn (os : Os) (network : Network) (s : Download) : Turn Download Outcome :=
  let next := { s with requests := s.requests + 1 }
  if os.send s.requests ≤ 0 then .stop (.returned (-1) next)
  else
    match s.pending ++ network s.requests s.rangeStart s.rangeEnd with
    | [] => .stop (.returned (-1) { next with pending := [] })
    | first :: pending =>
      let httpBuffer := first ++ os.stale s.requests
      if first.length = 0 ∨ ¬ http206Return <+: httpBuffer then
        .stop (.returned (-1) { next with pending })
      else takeReply (os.fs s.requests) { next with pending } first httpBuffer

def initial (otaBin : Option Bytes) (fileLength : Nat) : Download where
  sectorIndex := 0
  startDownloadFlag := false
  rangeStart := 0
  rangeEnd := 4095
  binFileSize := 0
  currentBinLength := 0
  requests := 0
  pending := []
  otaBin := otaBin
  fileLength := fileLength

/-- `none` after `fuel` requests without a return. -/
def launchUserbinDownload (os : Os) (network : Network) (otaBin : Option Bytes)
    (fileLength : Nat) (fuel : Nat) : Option Outcome :=
  if os.httpBuffer && os.fileBuffer then
    loop (turn os network) fuel (initial otaBin fileLength)
  else some (.returned (-1) (initial otaBin fileLength))

section Effect

/-- `t` is the state after this turn, whether the loop goes on or returns. -/
def LeadsTo (result : Turn Download Outcome) (t : Download) : Prop :=
  result = .again t ∨ ∃ ret, result = .stop (.returned ret t)

/-- All a turn does to `ota.bin` is at most one sector. -/
def Touches (fs : FsCalls) (s t : Download) : Prop :=
  t.otaBin = s.otaBin ∨ ∃ src : Bytes, src.length ≤ fileBufferSize ∧
    t.otaBin = (flashOneSector fs s.otaBin (sectorStart + s.sectorIndex) src).2

theorem leadsTo_checkProgress {s t : Download} (h : LeadsTo (checkProgress s) t) : t = s := by
  unfold checkProgress at h
  obtain h | ⟨ret, h⟩ := h
  · split at h
    · cases h
    · cases h
      rfl
  · split at h
    · cases h
      rfl
    · cases h

theorem length_of_complete {size : Nat} {reads : List Bytes} {buffer : Bytes} {cur : Nat}
    {src : Bytes} {total : Nat} {pending : List Bytes}
    (h : readLoop size reads buffer cur = .complete src total pending) :
    src.length ≤ fileBufferSize := by
  induction reads generalizing buffer cur with
  | nil => cases h
  | cons chunk reads ih =>
    simp only [readLoop] at h
    split at h
    case isTrue => cases h
    case isFalse =>
      split at h
      case isTrue => cases h
      case isFalse hfits =>
        split at h
        case isTrue => exact ih h
        case isFalse =>
          cases h
          rw [List.length_append]
          omega

theorem leadsTo_storeReply {fs : FsCalls} {s t : Download} {received : Received}
    (hfits : ∀ src total pending, received = .complete src total pending →
      src.length ≤ fileBufferSize)
    (h : LeadsTo (storeReply fs s received) t) : Touches fs s t := by
  cases received with
  | undefined =>
    obtain h | ⟨ret, h⟩ := h
    · cases h
    · cases h
  | failed total pending =>
    simp only [storeReply] at h
    cases leadsTo_checkProgress h
    exact Or.inl rfl
  | complete src total pending =>
    refine Or.inr ⟨src, hfits _ _ _ rfl, ?_⟩
    simp only [storeReply] at h
    split at h
    case h_1 otaBin hflash =>
      rw [hflash]
      obtain h | ⟨ret, h⟩ := h
      · cases h
      · cases h
        rfl
    case h_2 otaBin hflash =>
      rw [hflash]
      cases leadsTo_checkProgress h
      rfl

theorem leadsTo_takeReply {fs : FsCalls} {s t : Download} {first httpBuffer : Bytes}
    (h : LeadsTo (takeReply fs s first httpBuffer) t) : Touches fs s t := by
  unfold takeReply at h
  split at h
  case h_1 => obtain h | ⟨ret, h⟩ := h <;> cases h
  case h_2 =>
    obtain h | ⟨ret, h⟩ := h
    · cases h
    · cases h
      exact Or.inl rfl
  case h_3 size _ _ =>
    simp only at h
    split at h
    case h_1 =>
      obtain h | ⟨ret, h⟩ := h
      · cases h
      · cases h
        exact Or.inl rfl
    case h_2 =>
      split at h
      case isTrue => obtain h | ⟨ret, h⟩ := h <;> cases h
      case isFalse =>
        have htouches := leadsTo_storeReply (fun _ _ _ hread => length_of_complete hread) h
        exact htouches

theorem leadsTo_turn {os : Os} {network : Network} {s t : Download}
    (h : LeadsTo (turn os network s) t) : Touches (os.fs s.requests) s t := by
  unfold turn at h
  simp only at h
  split at h
  case isTrue =>
    obtain h | ⟨ret, h⟩ := h
    · cases h
    · cases h
      exact Or.inl rfl
  case isFalse =>
    split at h
    case h_1 =>
      obtain h | ⟨ret, h⟩ := h
      · cases h
      · cases h
        exact Or.inl rfl
    case h_2 =>
      split at h
      case isTrue =>
        obtain h | ⟨ret, h⟩ := h
        · cases h
        · cases h
          exact Or.inl rfl
      case isFalse =>
        have htouches := leadsTo_takeReply h
        exact htouches

end Effect

end Sv6x66.Colink.OtaDownload
