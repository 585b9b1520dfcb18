import Sv6x66.Colink.OtaDownload

/-! The accesses of the firmware download to its buffers. Each one is checked: the first
that leaves its bounds ends the run with a fault. A string search may look at no more than
the bytes received, since what stands behind them in the buffer is left over. -/
namespace Sv6x66.Colink.OtaMemory
open Sv6x66.Lib Sv6x66.Lib.CString OtaHttp OtaDownload

inductive Fault where
  | sectorBuffer
  | httpBuffer
  | lengthString
  | search
deriving DecidableEq

def httpBufferSize : Nat := 2048
def binLengthStrSize : Nat := 12

/-- `length` bytes are written from `offset` on. -/
def write (fault : Fault) (size offset length : Nat) : Except Fault Unit :=
  if offset + length ≤ size then .ok () else .error fault

/-- A text that is not in front of the first NUL is missing only once a NUL is seen. -/
def search (received needle : Bytes) : Except Fault (Option Nat) :=
  match strstr received needle with
  | some i => .ok (some i)
  | none => if 0 ∈ received then .ok none else .error .search

/-- `0 == strncmp(received, text, strlen(text))` ends at the first difference. -/
def starts (received text : Bytes) : Except Fault Bool :=
  if text <+: received then .ok true
  else if received <+: text then .error .search
  else .ok false

/-- `beyond` is what `atoi` makes of a number beyond `int`. -/
def getUserBinLength (beyond : Bytes → Int) (pdata : Bytes) : Except Fault Int := do
  match ← search pdata http206Ranges with
  | none => return 0
  | some found =>
    let t1 := pdata.drop (found + http206Ranges.length)
    match ← search t1 slash with
    | none => return 0
    | some t2 =>
      let t2 := t1.drop (t2 + 1)
      match ← search t2 crlf with
      | none => return 0
      | some len =>
        -- the copy and its NUL
        write .lengthString binLengthStrSize 0 (len + 1)
        let number := t2.take len
        return (toInt32 (atoi number)).getD (beyond number)

/-- A `char` array of this size with a text in it. -/
abbrev Text (size : Nat) := { text : Bytes // text.length < size }

/-- The texts of a request: `ota_file_info`, `colink_dev`, the random number and the digest. -/
structure Names where
  path : Text 128
  deviceid : Text 11
  ts : UInt32
  digestHex : Text 65
  ip : Text 24
  port : UInt16

def unsigned (n : Nat) : Bytes := if n = 0 then [48] else decimal n

/-- `%d` of a `uint32_t` that is cast to `int`. -/
def signed (n : Nat) : Bytes := if n < 2 ^ 31 then unsigned n else 45 :: unsigned (2 ^ 32 - n)

def requestText (names : Names) (start last : Nat) : Bytes :=
  ofString "GET " ++ names.path.val ++ ofString "?deviceid=" ++ names.deviceid.val ++
    ofString "&ts=" ++ unsigned names.ts.toNat ++ ofString "&sign=" ++ names.digestHex.val ++
    ofString " HTTP/1.1\r\n" ++ ofString "Host: " ++ names.ip.val ++ ofString ":" ++
    unsigned names.port.toNat ++ ofString "\r\n" ++ ofString "User-Agent: itead-device\r\n" ++
    (ofString "Range: bytes=" ++ signed start ++ ofString "-" ++ signed last ++ crlf) ++ crlf

/-- The request is put together in the sector buffer. -/
def sendHttpRequest (names : Names) (start last : Nat) : Except Fault Unit := do
  write .sectorBuffer fileBufferSize 0 httpBufferSize
  write .sectorBuffer fileBufferSize 0 ((requestText names start last).length + 1)

/-- `fileBuffer` holds the first `recv_bin_length` bytes of the buffer. -/
def readLoop (binFileSize : Nat) : List Bytes → Bytes → Nat → Except Fault Received
  | [], _, currentBinLength => .ok (.failed currentBinLength [])
  | chunk :: pending, fileBuffer, currentBinLength => do
    write .httpBuffer httpBufferSize 0 chunk.length
    if chunk.length = 0 then return .failed currentBinLength pending
    write .sectorBuffer fileBufferSize fileBuffer.length chunk.length
    let fileBuffer := fileBuffer ++ chunk
    let currentBinLength := (currentBinLength + chunk.length) % 2 ^ 32
    if fileBuffer.length < fileBufferSize ∧ currentBinLength < binFileSize then
      readLoop binFileSize pending fileBuffer currentBinLength
    else return .complete fileBuffer currentBinLength pending

structure Env where
  names : Nat → Names
  beyond : Bytes → Int

variable (env : Env) (os : Os) (network : Network)

def binFileSizeOf (s : Download) (first : Bytes) : Except Fault Nat := do
  if s.startDownloadFlag then return s.binFileSize
  let length ← getUserBinLength env.beyond first
  return (length % 2 ^ 32).toNat

/-- One reply whose first read has the status 206. -/
def takeReply (s : Download) (first : Bytes) (fs : FsCalls) :
    Except Fault (Turn Download Outcome) := do
  let size ← binFileSizeOf env s first
  if size = 0 then
    return .stop (.returned (-1) { s with startDownloadFlag := true, binFileSize := 0 })
  let s := { s with startDownloadFlag := true, binFileSize := size, fileLength := size }
  write .sectorBuffer fileBufferSize 0 fileBufferSize
  match ← search first headerEnd with
  | none => return .stop (.returned (-1) s)
  | some t1 =>
    let body := first.drop (t1 + 4)
    write .sectorBuffer fileBufferSize 0 body.length
    let received ← readLoop size s.pending body s.currentBinLength
    return storeReply fs s received

/-- One turn of the `while(1)`. -/
def turn (s : Download) : Except Fault (Turn Download Outcome) := do
  sendHttpRequest (env.names s.requests) s.rangeStart s.rangeEnd
  let next := { s with requests := s.requests + 1 }
  if os.send s.requests ≤ 0 then return .stop (.returned (-1) next)
  match s.pending ++ network s.requests s.rangeStart s.rangeEnd with
  | [] => return .stop (.returned (-1) { next with pending := [] })
  | first :: pending =>
    let next := { next with pending }
    write .httpBuffer httpBufferSize 0 first.length
    if first.length = 0 then return .stop (.returned (-1) next)
    if ← starts first http206Return then takeReply env next first (os.fs s.requests)
    else return .stop (.returned (-1) next)

def checked : Except Fault (Turn Download Outcome) → Turn Download (Except Fault Outcome)
  | .error fault => .stop (.error fault)
  | .ok (.again s) => .again s
  | .ok (.stop outcome) => .stop (.ok outcome)

/-- `none` after `fuel` requests without a return. -/
def launchUserbinDownload (otaBin : Option Bytes) (fileLength fuel : Nat) :
    Option (Except Fault Outcome) :=
  if os.httpBuffer && os.fileBuffer then
    loop (fun s => checked (turn env os network s)) fuel (initial otaBin fileLength)
  else some (.ok (.returned (-1) (initial otaBin fileLength)))

/-! ### When a reply stays inside -/

/-- The text between the first `/` behind the first `Content-Range: bytes ` and the line's end. -/
def IsTotal (text number : Bytes) : Prop :=
  ∃ before range rest,
    text = before ++ (http206Ranges ++ (range ++ (slash ++ (number ++ (crlf ++ rest))))) ∧
    find http206Ranges text = some before.length ∧ 47 ∉ range ∧
    find crlf (number ++ (crlf ++ rest)) = some number.length

def LengthFits (first : Bytes) : Prop :=
  (∃ number, IsTotal (cstr first) number ∧ number.length < 12) ∨
    (0 ∈ first ∧ ¬ ∃ number, IsTotal (cstr first) number)

/-- `atoi(bin_length_str)` -/
def totalOf (beyond : Bytes → Int) (number : Bytes) : Int :=
  (toInt32 (atoi number)).getD (beyond number)

/-- The size of the image once the first read of a reply is there. -/
def Announced (s : Download) (first : Bytes) (size : Nat) : Prop :=
  if s.startDownloadFlag then size = s.binFileSize
  else (∃ number, IsTotal (cstr first) number ∧
      size = (totalOf env.beyond number % 2 ^ 32).toNat) ∨
    ((¬ ∃ number, IsTotal (cstr first) number) ∧ size = 0)

/-- A read is made behind others if each of them brought something, and neither the
sector nor the image was complete after it; then it fits the rest of the sector buffer. -/
def ReadsFit (size fill current : Nat) (reads : List Bytes) : Prop :=
  ∀ taken chunk rest, reads = taken ++ chunk :: rest →
    (∀ earlier ≠ [], earlier <+: taken → [] ∉ earlier ∧
      fill + earlier.flatten.length < fileBufferSize ∧
      (current + earlier.flatten.length) % 2 ^ 32 < size) →
    fill + taken.flatten.length + chunk.length ≤ fileBufferSize

structure ReplyFits (s : Download) (first : Bytes) : Prop where
  length : s.startDownloadFlag = false → LengthFits first
  header : ∀ size, Announced env s first size → size ≠ 0 →
    strstr first headerEnd ≠ none ∨ 0 ∈ first
  reads : ∀ size t1, Announced env s first size → size ≠ 0 → strstr first headerEnd = some t1 →
    ReadsFit size (first.drop (t1 + 4)).length s.currentBinLength s.pending

/-- The reads of one turn: `first` is the one with the status line. -/
def TurnFits (s : Download) : Prop :=
  ∀ first pending, 0 < os.send s.requests →
    s.pending ++ network s.requests s.rangeStart s.rangeEnd = first :: pending → first ≠ [] →
    (first <+: http206Return → first = http206Return) ∧
    (http206Return <+: first →
      ReplyFits env { s with requests := s.requests + 1, pending } first)

def Reached (otaBin : Option Bytes) (fileLength : Nat) (s : Download) : Prop :=
  Relation.ReflTransGen (fun s t => turn env os network s = .ok (.again t))
    (initial otaBin fileLength) s

/-! ### The single accesses -/

theorem bind_ok_iff {ε α β : Type} {value : Except ε α} {next : α → Except ε β} {result : β} :
    (value >>= next) = .ok result ↔ ∃ a, value = .ok a ∧ next a = .ok result := by
  cases value with
  | error fault => exact iff_of_false (fun h => by cases h) (by rintro ⟨_, h, -⟩; cases h)
  | ok a =>
    constructor
    · exact fun h => ⟨a, rfl, h⟩
    · rintro ⟨_, h, hnext⟩
      cases h
      exact hnext

theorem write_ok {fault : Fault} {size offset length : Nat} (h : offset + length ≤ size) :
    write fault size offset length = .ok () := if_pos h

theorem write_error {fault : Fault} {size offset length : Nat} (h : ¬ offset + length ≤ size) :
    write fault size offset length = .error fault := if_neg h

theorem search_eq_some {received needle : Bytes} {i : Nat}
    (h : strstr received needle = some i) : search received needle = .ok (some i) := by
  rw [search, h]

theorem search_eq_none {received needle : Bytes} (h : strstr received needle = none) :
    search received needle = if 0 ∈ received then .ok none else .error .search := by
  rw [search, h]

theorem search_some {pdata needle : Bytes} {k i : Nat} (hk : k ≤ (cstr pdata).length)
    (h : find needle ((cstr pdata).drop k) = some i) :
    search (pdata.drop k) needle = .ok (some i) := by
  apply search_eq_some
  rw [strstr, cstr_drop hk, h]

theorem search_none {pdata needle : Bytes} {k : Nat} (hk : k ≤ (cstr pdata).length)
    (h : find needle ((cstr pdata).drop k) = none) :
    search (pdata.drop k) needle = if 0 ∈ pdata then .ok none else .error .search := by
  rw [search_eq_none (by rw [strstr, cstr_drop hk, h])]
  simp only [zero_mem_drop hk]

theorem starts_ok_iff {received text : Bytes} :
    (∃ equal, starts received text = .ok equal) ↔ (received <+: text → received = text) := by
  unfold starts
  by_cases htext : text <+: received
  · rw [if_pos htext]
    refine iff_of_true ⟨true, rfl⟩ fun hreceived => ?_
    exact hreceived.eq_of_length_le htext.length_le
  · rw [if_neg htext]
    by_cases hreceived : received <+: text
    · rw [if_pos hreceived]
      refine iff_of_false (by rintro ⟨_, h⟩; cases h) fun h => htext ?_
      rw [h hreceived]
    · rw [if_neg hreceived]
      exact iff_of_true ⟨false, rfl⟩ fun h => absurd h hreceived

theorem starts_eq_true {received text : Bytes} : starts received text = .ok true ↔
    text <+: received := by
  unfold starts
  by_cases htext : text <+: received
  · rw [if_pos htext]
    exact iff_of_true rfl htext
  · rw [if_neg htext]
    refine iff_of_false (fun h => ?_) htext
    split at h <;> cases h

theorem getUserBinLength_of_isTotal {beyond : Bytes → Int} {pdata number : Bytes}
    (h : IsTotal (cstr pdata) number) :
    getUserBinLength beyond pdata =
      if number.length < 12 then .ok (totalOf beyond number) else .error .lengthString := by
  obtain ⟨before, range, rest, htext, hranges, hslash, hcrlf⟩ := h
  have hlength := congrArg List.length htext
  simp only [List.length_append] at hlength
  have hafterRanges : (cstr pdata).drop (before.length + http206Ranges.length) =
      range ++ (slash ++ (number ++ (crlf ++ rest))) := drop_found htext
  have hafterSlash : (cstr pdata).drop (before.length + http206Ranges.length + (range.length + 1)) =
      number ++ (crlf ++ rest) := by
    rw [← List.drop_drop, hafterRanges]
    exact drop_found (show _ = range ++ (slash ++ _) from rfl)
  have hfirst : search pdata http206Ranges = .ok (some before.length) :=
    search_some (k := 0) (Nat.zero_le _) hranges
  have hsecond : search (pdata.drop (before.length + http206Ranges.length)) slash =
      .ok (some range.length) := by
    apply search_some (by omega)
    rw [hafterRanges]
    exact find_singleton_append hslash _
  have hinside : before.length + http206Ranges.length + (range.length + 1) ≤
      (cstr pdata).length := by
    rw [show slash.length = 1 from rfl] at hlength
    omega
  have hthird : search (pdata.drop (before.length + http206Ranges.length + (range.length + 1)))
      crlf = .ok (some number.length) := by
    apply search_some hinside
    rw [hafterSlash]
    exact hcrlf
  have hnumber : (pdata.drop (before.length + http206Ranges.length + (range.length + 1))).take
      number.length = number := by
    have htext : number <+: cstr (pdata.drop
        (before.length + http206Ranges.length + (range.length + 1))) := by
      rw [cstr_drop hinside, hafterSlash]
      exact List.prefix_append _ _
    exact (List.prefix_iff_eq_take.mp (htext.trans (List.takeWhile_prefix _))).symm
  simp only [getUserBinLength, hfirst, hsecond, hthird, hnumber, List.drop_drop, bind,
    Except.bind]
  by_cases hfits : number.length < 12
  · rw [write_ok (by rw [binLengthStrSize]; omega), if_pos hfits]
    rfl
  · rw [write_error (by rw [binLengthStrSize]; omega), if_neg hfits]

theorem getUserBinLength_of_not_isTotal (beyond : Bytes → Int) {pdata : Bytes}
    (h : ¬ ∃ number, IsTotal (cstr pdata) number) :
    getUserBinLength beyond pdata = if 0 ∈ pdata then .ok 0 else .error .search := by
  have hnone {k : Nat} {needle : Bytes} (hk : k ≤ (cstr pdata).length)
      (hfind : find needle ((cstr pdata).drop k) = none)
      (next : Option Nat → Except Fault Int) (hnext : next none = .ok 0) :
      (search (pdata.drop k) needle >>= next) = if 0 ∈ pdata then .ok 0 else .error .search := by
    rw [search_none hk hfind]
    split
    case isTrue => exact hnext
    case isFalse => rfl
  unfold getUserBinLength
  cases hranges : find http206Ranges (cstr pdata) with
  | none => exact hnone (k := 0) (Nat.zero_le _) hranges _ rfl
  | some found =>
    have hfirst : search pdata http206Ranges = .ok (some found) :=
      search_some (k := 0) (Nat.zero_le _) hranges
    obtain ⟨before, after, htext, rfl⟩ := exists_of_find hranges
    have hafterRanges : (cstr pdata).drop (before.length + http206Ranges.length) = after :=
      drop_found htext
    have hlength := congrArg List.length htext
    simp only [List.length_append] at hlength
    rw [hfirst]
    cases hslash : find slash after with
    | none =>
      exact hnone (by omega) (by rw [hafterRanges]; exact hslash) _ rfl
    | some t2 =>
      have hsecond : search (pdata.drop (before.length + http206Ranges.length)) slash =
          .ok (some t2) := by
        apply search_some (by omega)
        rw [hafterRanges]
        exact hslash
      obtain ⟨range, behind, hafter, rfl, hrange⟩ := exists_of_find_singleton hslash
      have hafterSlash : (cstr pdata).drop
          (before.length + http206Ranges.length + (range.length + 1)) = behind := by
        rw [← List.drop_drop, hafterRanges, hafter]
        exact drop_found (show range ++ 47 :: behind = range ++ (slash ++ behind) from rfl)
      have hbehind := congrArg List.length hafter
      simp only [List.length_append, List.length_cons] at hbehind
      cases hcrlf : find crlf behind with
      | none =>
        simp only [hsecond, bind, Except.bind, List.drop_drop]
        exact hnone (by omega) (by rw [hafterSlash]; exact hcrlf) _ rfl
      | some len =>
        obtain ⟨number, rest, hnumber, rfl⟩ := exists_of_find hcrlf
        refine absurd ⟨number, before, range, rest, ?_, hranges, hrange, ?_⟩ h
        · rw [htext, hafter, hnumber]
          rfl
        · rw [← hnumber]
          exact hcrlf

/-! ### The parts of a turn -/

theorem length_unsigned_le {n k : Nat} (hk : 0 < k) (h : n < 10 ^ k) :
    (unsigned n).length ≤ k := by
  unfold unsigned
  split
  case isTrue => exact hk
  case isFalse => exact length_decimal_le h

theorem length_signed_le (n : Nat) : (signed n).length ≤ 11 := by
  unfold signed
  split
  case isTrue =>
    have hlength := length_unsigned_le (k := 10) (n := n) (by omega) (by omega)
    omega
  case isFalse =>
    have hlength := length_unsigned_le (k := 10) (n := 2 ^ 32 - n) (by omega) (by omega)
    rw [List.length_cons]
    omega

theorem length_requestText_lt (names : Names) (start last : Nat) :
    (requestText names start last).length < httpBufferSize := by
  have hts := length_unsigned_le (k := 10) (by omega) (names.ts.toNat_lt.trans (by decide))
  have hport := length_unsigned_le (k := 5) (by omega) (names.port.toNat_lt.trans (by decide))
  have hstart := length_signed_le start
  have hlast := length_signed_le last
  have hpath := names.path.property
  have hdevice := names.deviceid.property
  have hdigest := names.digestHex.property
  have hip := names.ip.property
  simp only [requestText, List.length_append, httpBufferSize, crlf, ofString, List.length_map,
    String.reduceToList, List.length_cons, List.length_nil]
  omega

theorem sendHttpRequest_ok (names : Names) (start last : Nat) :
    sendHttpRequest names start last = .ok () := by
  have hlength := length_requestText_lt names start last
  rw [httpBufferSize] at hlength
  have htext : 0 + ((requestText names start last).length + 1) ≤ fileBufferSize := by
    rw [fileBufferSize]
    omega
  unfold sendHttpRequest
  rw [write_ok (by decide), write_ok htext]
  rfl

theorem getUserBinLength_ok_iff {beyond : Bytes → Int} {pdata : Bytes} {length : Int} :
    getUserBinLength beyond pdata = .ok length ↔ LengthFits pdata ∧
      ((∃ number, IsTotal (cstr pdata) number ∧ length = totalOf beyond number) ∨
        ((¬ ∃ number, IsTotal (cstr pdata) number) ∧ length = 0)) := by
  unfold LengthFits
  by_cases htotal : ∃ number, IsTotal (cstr pdata) number
  · simp only [htotal, not_true_eq_false, and_false, false_and, or_false]
    constructor
    · intro h
      obtain ⟨number, hnumber⟩ := htotal
      rw [getUserBinLength_of_isTotal hnumber] at h
      split at h
      case isTrue hfits =>
        cases h
        exact ⟨⟨number, hnumber, hfits⟩, number, hnumber, rfl⟩
      case isFalse => cases h
    · rintro ⟨⟨number, hnumber, hfits⟩, other, hother, rfl⟩
      have hvalue : getUserBinLength beyond pdata = _ := getUserBinLength_of_isTotal hnumber
      rw [if_pos hfits, getUserBinLength_of_isTotal hother] at hvalue
      rw [getUserBinLength_of_isTotal hother]
      split at hvalue
      case isTrue hshort => rw [if_pos hshort]
      case isFalse => cases hvalue
  · have hnone : ¬ ∃ number, IsTotal (cstr pdata) number ∧ number.length < 12 :=
      fun ⟨number, hnumber, _⟩ => htotal ⟨number, hnumber⟩
    have hvalue : ¬ ∃ number, IsTotal (cstr pdata) number ∧ length = totalOf beyond number :=
      fun ⟨number, hnumber, _⟩ => htotal ⟨number, hnumber⟩
    rw [getUserBinLength_of_not_isTotal beyond htotal]
    by_cases hnul : 0 ∈ pdata
    · simp only [hnul, hnone, hvalue, htotal, not_false_eq_true, and_self, or_true, true_and,
        false_or, if_true, Except.ok.injEq]
      exact eq_comm
    · simp only [hnul, hnone, false_and, or_self, if_false, reduceCtorEq]

theorem binFileSizeOf_ok_iff {s : Download} {first : Bytes} {size : Nat} :
    binFileSizeOf env s first = .ok size ↔
      (s.startDownloadFlag = false → LengthFits first) ∧ Announced env s first size := by
  unfold binFileSizeOf Announced
  cases s.startDownloadFlag with
  | true =>
    simp only [if_true, pure, Except.pure, Except.ok.injEq, Bool.true_eq_false, false_implies,
      true_and]
    exact eq_comm
  | false =>
    simp only [Bool.false_eq_true, if_false, bind_ok_iff, forall_const]
    constructor
    · rintro ⟨length, hlength, hsize⟩
      cases hsize
      obtain ⟨hfits, ⟨number, hnumber, rfl⟩ | ⟨hnone, rfl⟩⟩ := getUserBinLength_ok_iff.mp hlength
      · exact ⟨hfits, .inl ⟨number, hnumber, rfl⟩⟩
      · exact ⟨hfits, .inr ⟨hnone, rfl⟩⟩
    · rintro ⟨hfits, ⟨number, hnumber, rfl⟩ | ⟨hnone, rfl⟩⟩
      · exact ⟨_, getUserBinLength_ok_iff.mpr ⟨hfits, .inl ⟨number, hnumber, rfl⟩⟩, rfl⟩
      · exact ⟨_, getUserBinLength_ok_iff.mpr ⟨hfits, .inr ⟨hnone, rfl⟩⟩, rfl⟩

theorem exists_announced (s : Download) (first : Bytes) : ∃ size, Announced env s first size := by
  unfold Announced
  split
  case isTrue => exact ⟨_, rfl⟩
  case isFalse =>
    by_cases htotal : ∃ number, IsTotal (cstr first) number
    · obtain ⟨number, hnumber⟩ := htotal
      exact ⟨_, .inl ⟨number, hnumber, rfl⟩⟩
    · exact ⟨0, .inr ⟨htotal, rfl⟩⟩

theorem readsFit_cons {size fill current : Nat} {chunk : Bytes} {reads : List Bytes} :
    ReadsFit size fill current (chunk :: reads) ↔ fill + chunk.length ≤ fileBufferSize ∧
      (chunk ≠ [] ∧ fill + chunk.length < fileBufferSize ∧
          (current + chunk.length) % 2 ^ 32 < size →
        ReadsFit size (fill + chunk.length) ((current + chunk.length) % 2 ^ 32) reads) := by
  constructor
  · intro h
    constructor
    · exact h [] chunk reads rfl fun earlier hne hearlier =>
        absurd (List.prefix_nil.mp hearlier) hne
    · rintro ⟨hchunk, hfill, hcurrent⟩ taken next rest rfl htaken
      have hfits := h (chunk :: taken) next rest rfl ?_
      · rw [List.flatten_cons, List.length_append] at hfits
        omega
      · intro earlier hne hearlier
        obtain ⟨_, rfl⟩ | ⟨tail, rfl, htail⟩ := List.prefix_cons_iff.mp hearlier
        · exact absurd rfl hne
        · simp only [List.mem_cons, not_or, List.flatten_cons, List.length_append, ← Nat.add_assoc]
          cases tail with
          | nil => simpa [Ne.symm hchunk] using ⟨hfill, hcurrent⟩
          | cons read tail =>
            obtain ⟨hmem, hlength, htotal⟩ := htaken (read :: tail) (by simp) htail
            rw [Nat.mod_add_mod] at htotal
            exact ⟨⟨Ne.symm hchunk, hmem⟩, hlength, htotal⟩
  · rintro ⟨hfirst, hrest⟩ taken next rest hreads htaken
    cases taken with
    | nil =>
      cases hreads
      exact hfirst
    | cons read taken =>
      cases hreads
      obtain ⟨hmem, hfill, hcurrent⟩ :=
        htaken [chunk] (by simp) (List.prefix_append [chunk] taken)
      simp only [List.mem_singleton, List.flatten_singleton] at hmem hfill hcurrent
      have hfits := hrest ⟨Ne.symm hmem, hfill, hcurrent⟩ taken next rest rfl ?_
      · rw [List.flatten_cons, List.length_append]
        omega
      · intro earlier hne hearlier
        obtain ⟨hmem', hlength, htotal⟩ := htaken (chunk :: earlier) (by simp)
          (List.cons_prefix_cons.mpr ⟨rfl, hearlier⟩)
        rw [List.flatten_cons, List.length_append, ← Nat.add_assoc] at hlength htotal
        rw [Nat.mod_add_mod]
        exact ⟨fun hnil => hmem' (List.mem_cons_of_mem _ hnil), hlength, htotal⟩

/-- The loop faults at the first read that does not fit. -/
theorem readLoop_ok_iff {size current : Nat} {reads : List Bytes} {fileBuffer : Bytes}
    (hreads : ∀ chunk ∈ reads, chunk.length ≤ httpBufferSize)
    (hfill : fileBuffer.length ≤ fileBufferSize) :
    (∃ received, readLoop size reads fileBuffer current = .ok received) ↔
      ReadsFit size fileBuffer.length current reads := by
  induction reads generalizing fileBuffer current with
  | nil => exact iff_of_true ⟨_, rfl⟩ (by rintro taken chunk rest h; simp at h)
  | cons chunk reads ih =>
    have hhttp : write .httpBuffer httpBufferSize 0 chunk.length = .ok () :=
      write_ok ((Nat.zero_add _).le.trans (hreads chunk (by simp)))
    rw [readsFit_cons, readLoop, hhttp]
    by_cases hnil : chunk = []
    · subst hnil
      exact iff_of_true ⟨_, rfl⟩ ⟨hfill, fun h => absurd rfl h.1⟩
    · have hlength : chunk.length ≠ 0 := fun h => hnil (List.length_eq_zero_iff.mp h)
      by_cases hfits : fileBuffer.length + chunk.length ≤ fileBufferSize
      · simp only [hlength, if_false, write_ok hfits, bind, Except.bind, List.length_append]
        split
        case isTrue hgoes =>
          rw [ih (fun _ hmem => hreads _ (List.mem_cons_of_mem _ hmem))
            (by rw [List.length_append]; exact hfits), List.length_append]
          exact ⟨fun h => ⟨hfits, fun _ => h⟩, fun h => h.2 ⟨hnil, hgoes⟩⟩
        case isFalse hgoes =>
          exact iff_of_true ⟨_, rfl⟩ ⟨hfits, fun h => absurd h.2 hgoes⟩
      · simp only [hlength, if_false, write_error hfits, bind, Except.bind]
        exact iff_of_false (by rintro ⟨_, h⟩; cases h) fun h => hfits h.1

/-- With the size known, only the end of the header and the reads behind it count. -/
theorem replyFits_iff {s : Download} {first : Bytes} {size : Nat}
    (hsize : binFileSizeOf env s first = .ok size) : ReplyFits env s first ↔
      (size ≠ 0 → (strstr first headerEnd ≠ none ∨ 0 ∈ first) ∧
        ∀ t1, strstr first headerEnd = some t1 →
          ReadsFit size (first.drop (t1 + 4)).length s.currentBinLength s.pending) := by
  obtain ⟨hlength, hannounced⟩ := (binFileSizeOf_ok_iff env).mp hsize
  have hunique {other : Nat} (hother : Announced env s first other) : size = other := by
    have hvalue := (binFileSizeOf_ok_iff env).mpr ⟨hlength, hother⟩
    rw [hsize] at hvalue
    exact Except.ok.inj hvalue
  constructor
  · intro h hne
    exact ⟨h.header size hannounced hne, fun t1 hend => h.reads size t1 hannounced hne hend⟩
  · intro h
    refine ⟨hlength, fun other hother hne => ?_, fun other t1 hother hne hend => ?_⟩
    · cases hunique hother
      exact (h hne).1
    · cases hunique hother
      exact (h hne).2 t1 hend

theorem binFileSizeOf_ok_of_replyFits {s : Download} {first : Bytes} (h : ReplyFits env s first) :
    ∃ size, binFileSizeOf env s first = .ok size := by
  obtain ⟨size, hannounced⟩ := exists_announced env s first
  exact ⟨size, (binFileSizeOf_ok_iff env).mpr ⟨h.length, hannounced⟩⟩

theorem takeReply_ok_iff {s : Download} {first : Bytes} {fs : FsCalls}
    (hfirst : first.length ≤ httpBufferSize)
    (hpending : ∀ chunk ∈ s.pending, chunk.length ≤ httpBufferSize) :
    (∃ next, takeReply env s first fs = .ok next) ↔ ReplyFits env s first := by
  have hbody (t1 : Nat) : (first.drop (t1 + 4)).length ≤ fileBufferSize := by
    rw [List.length_drop]
    rw [httpBufferSize] at hfirst
    rw [fileBufferSize]
    omega
  have hzero : write .sectorBuffer fileBufferSize 0 fileBufferSize = .ok () := rfl
  cases hsize : binFileSizeOf env s first with
  | error fault =>
    refine iff_of_false ?_ fun h => ?_
    · rintro ⟨_, h⟩
      rw [takeReply, hsize] at h
      cases h
    · obtain ⟨size, hvalue⟩ := binFileSizeOf_ok_of_replyFits env h
      rw [hsize] at hvalue
      cases hvalue
  | ok size =>
    rw [replyFits_iff env hsize]
    simp only [takeReply, hsize, bind, Except.bind, hzero]
    split
    case isTrue hnone => exact iff_of_true ⟨_, rfl⟩ fun hne => absurd hnone hne
    case isFalse hne =>
      cases hend : strstr first headerEnd with
      | none =>
        rw [search_eq_none hend]
        by_cases hnul : 0 ∈ first
        · rw [if_pos hnul]
          exact iff_of_true ⟨_, rfl⟩ fun _ => ⟨.inr hnul, fun _ h => by cases h⟩
        · rw [if_neg hnul]
          refine iff_of_false (by rintro ⟨_, h⟩; cases h) fun h => ?_
          obtain hfound | hmem := (h hne).1
          · exact hfound rfl
          · exact hnul hmem
      | some t1 =>
        have hloop : (∃ received, readLoop size s.pending (first.drop (t1 + 4))
            s.currentBinLength = .ok received) ↔ _ := readLoop_ok_iff hpending (hbody t1)
        have hreads : (size ≠ 0 → (some t1 ≠ none ∨ 0 ∈ first) ∧ ∀ t1', some t1 = some t1' →
            ReadsFit size (first.drop (t1' + 4)).length s.currentBinLength s.pending) ↔
            ReadsFit size (first.drop (t1 + 4)).length s.currentBinLength s.pending := by
          simp [hne]
        rw [hreads, ← hloop, search_eq_some hend]
        simp only [write_ok ((Nat.zero_add _).le.trans (hbody t1))]
        cases readLoop size s.pending (first.drop (t1 + 4)) s.currentBinLength with
        | error fault =>
          exact iff_of_false (by rintro ⟨_, h⟩; cases h) (by rintro ⟨_, h⟩; cases h)
        | ok received => exact iff_of_true ⟨_, rfl⟩ ⟨_, rfl⟩

/-! ### The reads that are left over -/

def pendingOf : Received → List Bytes
  | .undefined => []
  | .failed _ pending => pending
  | .complete _ _ pending => pending

theorem pendingOf_readLoop {size current : Nat} {reads : List Bytes} {fileBuffer : Bytes}
    {received : Received} (h : readLoop size reads fileBuffer current = .ok received) :
    pendingOf received <:+ reads := by
  induction reads generalizing fileBuffer current with
  | nil =>
    cases h
    exact List.suffix_rfl
  | cons chunk reads ih =>
    obtain ⟨_, -, h⟩ := bind_ok_iff.mp h
    split at h
    case isTrue =>
      cases h
      exact List.suffix_cons _ _
    case isFalse =>
      obtain ⟨_, -, h⟩ := bind_ok_iff.mp h
      simp only at h
      split at h
      case isTrue => exact (ih h).trans (List.suffix_cons _ _)
      case isFalse =>
        cases h
        exact List.suffix_cons _ _

theorem pending_checkProgress {s t : Download} (h : checkProgress s = .again t) :
    t.pending = s.pending := by
  unfold checkProgress at h
  split at h
  · cases h
  · cases h
    rfl

theorem pending_storeReply {fs : FsCalls} {s t : Download} {received : Received}
    (h : storeReply fs s received = .again t) : t.pending = pendingOf received := by
  cases received with
  | undefined => cases h
  | failed current pending => exact pending_checkProgress h
  | complete fileBuffer current pending =>
    simp only [storeReply] at h
    split at h
    · cases h
    · exact pending_checkProgress h

theorem pending_takeReply {s t : Download} {first : Bytes} {fs : FsCalls}
    (h : takeReply env s first fs = .ok (.again t)) : t.pending <:+ s.pending := by
  obtain ⟨size, -, h⟩ := bind_ok_iff.mp h
  split at h
  case isTrue => cases h
  case isFalse =>
    obtain ⟨_, -, h⟩ := bind_ok_iff.mp h
    obtain ⟨found, -, h⟩ := bind_ok_iff.mp h
    cases found with
    | none => cases h
    | some t1 =>
      obtain ⟨_, -, h⟩ := bind_ok_iff.mp h
      obtain ⟨received, hreceived, h⟩ := bind_ok_iff.mp h
      rw [pending_storeReply (Except.ok.inj h)]
      exact pendingOf_readLoop hreceived

theorem pending_turn {s t : Download} (h : turn env os network s = .ok (.again t)) :
    t.pending <:+ s.pending ++ network s.requests s.rangeStart s.rangeEnd := by
  obtain ⟨_, -, h⟩ := bind_ok_iff.mp h
  split at h
  case isTrue => cases h
  case isFalse =>
    split at h
    case h_1 => cases h
    case h_2 first pending hreads =>
      rw [hreads]
      obtain ⟨_, -, h⟩ := bind_ok_iff.mp h
      split at h
      case isTrue => cases h
      case isFalse =>
        obtain ⟨equal, -, h⟩ := bind_ok_iff.mp h
        split at h
        case isTrue => exact (pending_takeReply env h).trans (List.suffix_cons _ _)
        case isFalse => cases h

theorem turnFits_cons {s : Download} {first : Bytes} {pending : List Bytes}
    (hsend : 0 < os.send s.requests)
    (hreads : s.pending ++ network s.requests s.rangeStart s.rangeEnd = first :: pending) :
    TurnFits env os network s ↔ (first ≠ [] →
      (first <+: http206Return → first = http206Return) ∧
      (http206Return <+: first →
        ReplyFits env { s with requests := s.requests + 1, pending } first)) := by
  constructor
  · exact fun h => h first pending hsend hreads
  · intro h first' pending' _ hreads'
    rw [hreads] at hreads'
    cases hreads'
    exact h

/-- No read brings more than it was asked for. -/
def Bounded (reads : List Bytes) : Prop := ∀ chunk ∈ reads, chunk.length ≤ httpBufferSize

section Run

variable (hnetwork : ∀ request start last, Bounded (network request start last))
include hnetwork

theorem bounded_reached {otaBin : Option Bytes} {fileLength : Nat} {s : Download}
    (h : Reached env os network otaBin fileLength s) : Bounded s.pending := by
  induction h with
  | refl => simp [Bounded, initial]
  | tail _ hnext ih =>
    intro chunk hchunk
    obtain hold | hnew := List.mem_append.mp ((pending_turn env os network hnext).subset hchunk)
    · exact ih chunk hold
    · exact hnetwork _ _ _ chunk hnew

theorem turn_ok_iff {s : Download} (hpending : Bounded s.pending) :
    (∃ next, turn env os network s = .ok next) ↔ TurnFits env os network s := by
  unfold turn
  rw [sendHttpRequest_ok]
  by_cases hsend : os.send s.requests ≤ 0
  · simp only [hsend, if_true, bind, Except.bind]
    exact iff_of_true ⟨_, rfl⟩ fun _ _ h => absurd hsend (not_le.mpr h)
  · simp only [hsend, if_false, bind, Except.bind]
    cases hreads : s.pending ++ network s.requests s.rangeStart s.rangeEnd with
    | nil =>
      refine iff_of_true ⟨_, rfl⟩ fun _ _ _ h => ?_
      rw [hreads] at h
      cases h
    | cons first pending =>
      have hbounded : Bounded (first :: pending) := by
        rw [← hreads]
        intro chunk hchunk
        obtain hold | hnew := List.mem_append.mp hchunk
        · exact hpending chunk hold
        · exact hnetwork _ _ _ chunk hnew
      have hfirst := hbounded first (by simp)
      rw [turnFits_cons env os network (not_le.mp hsend) hreads]
      simp only [write_ok ((Nat.zero_add _).le.trans hfirst)]
      by_cases hnil : first = []
      · rw [if_pos (by rw [hnil]; rfl)]
        exact iff_of_true ⟨_, rfl⟩ fun h => absurd hnil h
      · rw [if_neg (fun h => hnil (List.length_eq_zero_iff.mp h))]
        have hstatus : (∃ equal, starts first http206Return = .ok equal) ↔ _ := starts_ok_iff
        cases hstarts : starts first http206Return with
        | error fault =>
          refine iff_of_false (by rintro ⟨_, h⟩; cases h) fun h => ?_
          obtain ⟨equal, hequal⟩ := hstatus.mpr (h hnil).1
          rw [hstarts] at hequal
          cases hequal
        | ok equal =>
          have hinside := hstatus.mp ⟨equal, hstarts⟩
          have hsame : starts first http206Return = .ok true ↔ _ := starts_eq_true
          rw [hstarts] at hsame
          cases equal with
          | false =>
            refine iff_of_true ⟨_, rfl⟩ fun _ => ⟨hinside, fun h => ?_⟩
            cases hsame.mpr h
          | true =>
            have hreply : (∃ next, takeReply env { s with requests := s.requests + 1, pending }
                first (os.fs s.requests) = .ok next) ↔ _ :=
              takeReply_ok_iff env hfirst fun _ hmem => hbounded _ (List.mem_cons_of_mem _ hmem)
            simp only [if_true]
            rw [hreply]
            exact ⟨fun h _ => ⟨hinside, fun _ => h⟩, fun h => (h hnil).2 (hsame.mp rfl)⟩

/-- The whole download stays inside its buffers and the bytes received exactly if every
reply fits in the state it is read in. -/
theorem launchUserbinDownload_inside_iff (otaBin : Option Bytes) (fileLength : Nat) :
    (∀ fuel fault,
      launchUserbinDownload env os network otaBin fileLength fuel ≠ some (.error fault)) ↔
    (os.httpBuffer = true → os.fileBuffer = true →
      ∀ s, Reached env os network otaBin fileLength s → TurnFits env os network s) := by
  by_cases hbuffers : (os.httpBuffer && os.fileBuffer) = true
  · obtain ⟨hhttp, hfile⟩ := Bool.and_eq_true_iff.mp hbuffers
    have hagain {s t : Download} : turn env os network s = .ok (.again t) ↔
        checked (turn env os network s) = .again t := by
      cases turn env os network s with
      | error fault => simp [checked]
      | ok next => cases next <;> simp [checked]
    have hfault {s : Download} : (∃ next, turn env os network s = .ok next) ↔
        ¬ ∃ fault, checked (turn env os network s) = .stop (.error fault) := by
      cases turn env os network s with
      | error fault => simp [checked]
      | ok next => cases next <;> simp [checked]
    simp only [hhttp, hfile, forall_const]
    constructor
    · intro h s hreached
      rw [← turn_ok_iff env os network hnetwork (bounded_reached env os network hnetwork hreached),
        hfault]
      rintro ⟨fault, hstop⟩
      simp only [Reached, hagain] at hreached
      obtain ⟨fuel, hfuel⟩ := Returns.iff_exists.mpr ⟨s, hreached, hstop⟩
      apply h fuel fault
      rw [launchUserbinDownload, if_pos hbuffers]
      exact hfuel
    · intro h fuel fault hrun
      rw [launchUserbinDownload, if_pos hbuffers] at hrun
      obtain ⟨s, hreached, hstop⟩ := Returns.iff_exists.mp ⟨fuel, hrun⟩
      simp only [← hagain] at hreached
      have hfits := h s hreached
      rw [← turn_ok_iff env os network hnetwork (bounded_reached env os network hnetwork hreached),
        hfault] at hfits
      exact hfits ⟨fault, hstop⟩
  · refine iff_of_true ?_ fun hhttp hfile => absurd (by rw [hhttp, hfile]; rfl) hbuffers
    intro fuel fault hrun
    rw [launchUserbinDownload, if_neg hbuffers] at hrun
    cases hrun

end Run

section Overrun

def emptyNames : Names where
  path := ⟨[], by decide⟩
  deviceid := ⟨[], by decide⟩
  ts := 0
  digestHex := ⟨[], by decide⟩
  ip := ⟨[], by decide⟩
  port := 80

/-- `atoi` that saturates. -/
def plainEnv : Env where
  names := fun _ => emptyNames
  beyond := fun number => if 0 ≤ atoi number then 2 ^ 31 - 1 else -2 ^ 31

def plainOs : Os where
  httpBuffer := true
  fileBuffer := true
  send := fun _ => 1
  stale := fun _ => []
  fs := fun _ => ⟨true, fun _ offset => offset, fun length => length⟩

/-- A reply of 6143 bytes to the request for the first 4096. -/
def overrun : Network := fun _ _ _ =>
  [ofString "HTTP/1.1 206 Partial Content\r\nContent-Range: bytes 0-4095/8000\r\n\r\n",
    List.replicate 2048 0, List.replicate 2047 0, List.replicate 2048 0]

theorem bounded_overrun (request start last : Nat) : Bounded (overrun request start last) := by
  intro chunk hchunk
  simp only [overrun, List.mem_cons, List.not_mem_nil, or_false] at hchunk
  obtain rfl | rfl | rfl | rfl := hchunk
  · decide
  · exact List.length_replicate.le
  · exact List.length_replicate.le.trans (by decide)
  · exact List.length_replicate.le

/-- The third read behind the header ends 2047 bytes behind the sector buffer. -/
theorem launchUserbinDownload_overrun :
    ¬ ∀ env os network otaBin fileLength,
      (∀ request start last, Bounded (network request start last)) →
      ∀ fuel fault,
        launchUserbinDownload env os network otaBin fileLength fuel ≠ some (.error fault) :=
  fun h => h plainEnv plainOs overrun none 0 bounded_overrun 1 .sectorBuffer (by decide +kernel)

/-- An image of 20 bytes in the two reads behind the header. -/
def whole : Network := fun _ _ _ =>
  [ofString "HTTP/1.1 206 Partial Content\r\nContent-Range: bytes 0-19/20\r\n\r\n",
    ofString "0123456789", ofString "0123456789"]

theorem bounded_whole (request start last : Nat) : Bounded (whole request start last) := by
  intro chunk hchunk
  simp only [whole, List.mem_cons, List.not_mem_nil, or_false] at hchunk
  obtain rfl | rfl | rfl := hchunk <;> decide

def returnsZero : Turn Download (Except Fault Outcome) → Bool
  | .stop (.ok (.returned ret _)) => ret = 0
  | _ => false

theorem launchUserbinDownload_whole (fuel : Nat) (fault : Fault) :
    launchUserbinDownload plainEnv plainOs whole none 0 fuel ≠ some (.error fault) := by
  have hturn : returnsZero (checked (turn plainEnv plainOs whole (initial none 0))) = true := by
    decide +kernel
  rw [launchUserbinDownload, if_pos (by decide)]
  cases fuel with
  | zero => exact fun h => by cases h
  | succ fuel =>
    rw [loop]
    revert hturn
    generalize checked (turn plainEnv plainOs whole (initial none 0)) = result
    cases result with
    | again s => exact fun hturn => absurd hturn Bool.false_ne_true
    | stop outcome =>
      intro hturn h
      cases Option.some.inj h
      exact Bool.false_ne_true hturn

/-- Every turn of the one download fits, and of the other it does not. -/
theorem launchUserbinDownload_inside_iff_whole :
    (∀ s, Reached plainEnv plainOs whole none 0 s → TurnFits plainEnv plainOs whole s) ∧
      ¬ ∀ s, Reached plainEnv plainOs overrun none 0 s → TurnFits plainEnv plainOs overrun s := by
  constructor
  · exact (launchUserbinDownload_inside_iff plainEnv plainOs whole bounded_whole none 0).mp
      launchUserbinDownload_whole rfl rfl
  · intro h
    exact (launchUserbinDownload_inside_iff plainEnv plainOs overrun bounded_overrun none 0).mpr
      (fun _ _ => h) 1 .sectorBuffer (by decide +kernel)

end Overrun

/-! ### What stands behind the bytes received

Inside its bounds a turn is the one of the download model, whatever the rest of the HTTP
buffer holds; where the number is beyond `int` that model stops. -/

section Refines

variable {received memory : Bytes}

theorem strstr_of_search {needle : Bytes} {found : Option Nat}
    (h : search received needle = .ok found) : strstr (received ++ memory) needle = found := by
  cases hstrstr : strstr received needle with
  | some i =>
    rw [search_eq_some hstrstr] at h
    cases h
    by_cases hnul : 0 ∈ received
    · rw [strstr, cstr_append_of_mem hnul]
      exact hstrstr
    · rw [strstr, cstr_of_not_mem hnul] at hstrstr
      exact strstr_append hnul hstrstr memory
  | none =>
    rw [search_eq_none hstrstr] at h
    split at h
    case isTrue hnul =>
      cases h
      rw [strstr, cstr_append_of_mem hnul]
      exact hstrstr
    case isFalse => cases h

theorem starts_append {text : Bytes} {equal : Bool} (h : starts received text = .ok equal) :
    text <+: received ++ memory ↔ equal = true := by
  cases equal with
  | true => exact iff_of_true ((starts_eq_true.mp h).trans (List.prefix_append _ _)) rfl
  | false =>
    refine iff_of_false (fun htext => ?_) Bool.false_ne_true
    have hinside := starts_ok_iff.mp ⟨_, h⟩
    obtain hlong | hshort := List.prefix_or_prefix_of_prefix htext (List.prefix_append _ _)
    · rw [starts_eq_true.mpr hlong] at h
      cases h
    · cases hinside hshort
      rw [starts_eq_true.mpr List.prefix_rfl] at h
      cases h

theorem add_length_le_of_search {needle : Bytes} {i : Nat}
    (h : search received needle = .ok (some i)) : i + needle.length ≤ received.length := by
  have hfind : strstr received needle = some i := by
    have hempty : strstr (received ++ []) needle = some i := strstr_of_search h
    rwa [List.append_nil] at hempty
  exact (find_add_length_le hfind).trans (List.takeWhile_prefix _).length_le

theorem getUserBinLength_append {beyond : Bytes → Int} {length : Int}
    (h : getUserBinLength beyond received = .ok length) :
    OtaHttp.getUserBinLength (received ++ memory) = some length ∨
      OtaHttp.getUserBinLength (received ++ memory) = none := by
  unfold OtaHttp.getUserBinLength
  obtain ⟨found, hfound, h⟩ := bind_ok_iff.mp h
  rw [strstr_of_search hfound]
  cases found with
  | none =>
    cases h
    exact .inl rfl
  | some found =>
    have hinside := add_length_le_of_search hfound
    obtain ⟨t2, ht2, h⟩ := bind_ok_iff.mp h
    have hbehind : (received ++ memory).drop (found + http206Ranges.length) =
        received.drop (found + http206Ranges.length) ++ memory := List.drop_append_of_le_length hinside
    simp only
    rw [hbehind, strstr_of_search ht2]
    cases t2 with
    | none =>
      cases h
      exact .inl rfl
    | some t2 =>
      have hinside' := add_length_le_of_search ht2
      obtain ⟨len, hlen, h⟩ := bind_ok_iff.mp h
      rw [List.drop_drop] at hlen h
      have hbehind' : (received ++ memory).drop (found + http206Ranges.length + t2 + 1) =
          received.drop (found + http206Ranges.length + (t2 + 1)) ++ memory := by
        rw [Nat.add_assoc _ t2]
        apply List.drop_append_of_le_length
        rw [List.length_drop, show slash.length = 1 from rfl] at hinside'
        omega
      simp only
      rw [hbehind', strstr_of_search hlen]
      cases len with
      | none =>
        cases h
        exact .inl rfl
      | some len =>
        obtain ⟨_, hwrite, h⟩ := bind_ok_iff.mp h
        cases h
        have hlong := add_length_le_of_search hlen
        have hfits : len < 12 := by
          by_contra hlarge
          rw [write_error (by rw [binLengthStrSize]; omega)] at hwrite
          cases hwrite
        simp only
        rw [if_pos hfits, List.take_append_of_le_length ((Nat.le_add_right _ _).trans hlong)]
        cases toInt32 (atoi _) with
        | none => exact .inr rfl
        | some value => exact .inl rfl

theorem readLoop_eq {size current : Nat} {reads : List Bytes} {fileBuffer : Bytes}
    {result : Received} (h : readLoop size reads fileBuffer current = .ok result) :
    OtaDownload.readLoop size reads fileBuffer current = result := by
  induction reads generalizing fileBuffer current with
  | nil =>
    cases h
    rfl
  | cons chunk reads ih =>
    rw [OtaDownload.readLoop]
    obtain ⟨_, -, h⟩ := bind_ok_iff.mp h
    by_cases hnil : chunk.length = 0
    · rw [if_pos hnil] at h ⊢
      cases h
      rfl
    · rw [if_neg hnil] at h ⊢
      obtain ⟨_, hwrite, h⟩ := bind_ok_iff.mp h
      have hfits : ¬ fileBufferSize < fileBuffer.length + chunk.length := by
        intro hlarge
        rw [write_error (by omega)] at hwrite
        cases hwrite
      rw [if_neg hfits]
      simp only at h ⊢
      split at h
      case isTrue hgoes =>
        rw [if_pos hgoes]
        exact ih h
      case isFalse hgoes =>
        rw [if_neg hgoes]
        cases h
        rfl

theorem takeReply_eq {s : Download} {fs : FsCalls} {next : Turn Download Outcome}
    (h : takeReply env s received fs = .ok next) :
    OtaDownload.takeReply fs s received (received ++ memory) = next ∨
      OtaDownload.takeReply fs s received (received ++ memory) = .stop .undefined := by
  obtain ⟨size, hsize, h⟩ := bind_ok_iff.mp h
  have hbin : OtaDownload.binFileSizeOf s (received ++ memory) = some size ∨
      OtaDownload.binFileSizeOf s (received ++ memory) = none := by
    unfold binFileSizeOf at hsize
    unfold OtaDownload.binFileSizeOf
    split at hsize
    case isTrue hstarted =>
      rw [if_pos hstarted]
      cases hsize
      exact .inl rfl
    case isFalse hstarted =>
      rw [if_neg hstarted]
      obtain ⟨length, hlength, hvalue⟩ := bind_ok_iff.mp hsize
      cases hvalue
      have hboth : OtaHttp.getUserBinLength (received ++ memory) = some length ∨ _ :=
        getUserBinLength_append hlength
      obtain hsome | hnone := hboth
      · exact .inl (by rw [hsome]; rfl)
      · exact .inr (by rw [hnone]; rfl)
  unfold OtaDownload.takeReply
  obtain hbin | hbin := hbin
  · left
    rw [hbin]
    by_cases hzero : size = 0
    · rw [if_pos hzero] at h
      subst hzero
      exact Except.ok.inj h
    · rw [if_neg hzero] at h
      obtain ⟨_, -, h⟩ := bind_ok_iff.mp h
      obtain ⟨found, hfound, h⟩ := bind_ok_iff.mp h
      simp only
      rw [strstr_of_search hfound]
      cases found with
      | none => exact Except.ok.inj h
      | some t1 =>
        have hinside := add_length_le_of_search hfound
        obtain ⟨_, -, h⟩ := bind_ok_iff.mp h
        obtain ⟨result, hresult, h⟩ := bind_ok_iff.mp h
        simp only
        rw [if_neg (by rw [show headerEnd.length = 4 from rfl] at hinside; omega),
          readLoop_eq hresult]
        exact Except.ok.inj h
  · right
    rw [hbin]

end Refines

/-- The reads decide what a turn does that stays inside its bounds. -/
theorem turn_eq {s : Download} {next : Turn Download Outcome}
    (h : turn env os network s = .ok next) :
    OtaDownload.turn os network s = next ∨ OtaDownload.turn os network s = .stop .undefined := by
  obtain ⟨_, -, h⟩ := bind_ok_iff.mp h
  unfold OtaDownload.turn
  by_cases hsend : os.send s.requests ≤ 0
  · simp only [hsend, if_true] at h ⊢
    exact .inl (Except.ok.inj h)
  · simp only [hsend, if_false] at h ⊢
    cases hreads : s.pending ++ network s.requests s.rangeStart s.rangeEnd with
    | nil =>
      simp only [hreads] at h
      exact .inl (Except.ok.inj h)
    | cons first pending =>
      simp only [hreads] at h ⊢
      obtain ⟨_, -, h⟩ := bind_ok_iff.mp h
      by_cases hnil : first.length = 0
      · simp only [hnil, if_true, true_or] at h ⊢
        exact .inl (Except.ok.inj h)
      · simp only [hnil, if_false, false_or] at h ⊢
        obtain ⟨equal, hequal, h⟩ := bind_ok_iff.mp h
        simp only [starts_append hequal]
        cases equal with
        | false => exact .inl (Except.ok.inj h)
        | true => exact takeReply_eq env h

end Sv6x66.Colink.OtaMemory
