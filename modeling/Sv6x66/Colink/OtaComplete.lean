import Sv6x66.Colink.OtaDownload

/-! When the download of an image comes to an end with the image in `ota.bin`.
`current_bin_length` does not count the bytes that arrive in one read with
their header, so these are asked for again at the end. -/
namespace Sv6x66.Colink.OtaComplete

open Sv6x66.Lib Sv6x66.Lib.CString Sv6x66.Lib.ByteFile OtaHttp OtaDownload

/-- The existing bytes of a requested range. -/
def slice (image : Bytes) (start last : Nat) : Bytes := (image.drop start).take (last + 1 - start)

/-- A reply with this body, and the reads that deliver it: the first one brings
the header and `attached` bytes of the body. -/
structure Reply (size : Nat) (body : Bytes) where
  header : Bytes
  isHeader : IsHeader size header
  attached : Nat
  attached_le : attached ≤ body.length
  chunks : List Bytes
  split : body.take attached ++ chunks.flatten = body
  first_le : header.length + attached ≤ 2048
  chunk_pos : ∀ chunk ∈ chunks, 0 < chunk.length
  chunk_le : ∀ chunk ∈ chunks, chunk.length ≤ 2048

def Reply.reads {size : Nat} {body : Bytes} (reply : Reply size body) : List Bytes :=
  (reply.header ++ body.take reply.attached) :: reply.chunks

abbrev Server (image : Bytes) :=
  (request start last : Nat) → Reply image.length (slice image start last)

def Server.network {image : Bytes} (server : Server image) : Network :=
  fun request start last => (server request start last).reads

variable {image : Bytes} (server : Server image)

def fullSectors (image : Bytes) : Nat := image.length / 4096

/-- The last byte asked for in the request that starts at sector `i`. -/
def rangeEndAt (size i : Nat) : Nat :=
  if i = 0 then 4095 else if size - 1 ≤ 4096 * i + 4095 then size - 1 else 4096 * i + 4095

/-- Bytes of the first `i` sectors that came in one read with their header. -/
def attachedBytes (i : Nat) : Nat :=
  ∑ x ∈ Finset.range i, (server x (4096 * x) (4096 * x + 4095)).attached

/-- The reply to the `j`-th request for the bytes behind the full sectors. -/
def lastReply (j : Nat) : Reply image.length
    (slice image (4096 * fullSectors image) (rangeEndAt image.length (fullSectors image))) :=
  server (fullSectors image + j) (4096 * fullSectors image)
    (rangeEndAt image.length (fullSectors image))

/-- Bytes of the first `j` replies to that request that came after the read
with the header. -/
def triedBytes (j : Nat) : Nat :=
  ∑ x ∈ Finset.range j, (lastReply server x).chunks.flatten.length

/-- The bytes still to be counted once the full sectors are stored. -/
def missingBytes : Nat := image.length % 4096 + attachedBytes server (fullSectors image)

/-- The count reaches the size of the image with the very last read of the
`j`-th reply. -/
def EndsWith (j : Nat) : Prop :=
  triedBytes server j + (lastReply server j).chunks.dropLast.flatten.length < missingBytes server ∧
    missingBytes server ≤ triedBytes server (j + 1)

def Completes : Prop :=
  image.length ≤ 2 ^ 28 ∧ (missingBytes server = 0 ∨ ∃ j, EndsWith server j)

section ReadLoop

theorem readLoop_append {size : Nat} (hsize : size ≤ 2 ^ 32) {chunks : List Bytes}
    (hpos : ∀ chunk ∈ chunks, 0 < chunk.length) (rest : List Bytes) (buffer : Bytes) {cur : Nat}
    (hbuffer : buffer.length + chunks.flatten.length < 4096)
    (hcur : cur + chunks.flatten.length < size) :
    readLoop size (chunks ++ rest) buffer cur =
      readLoop size rest (buffer ++ chunks.flatten) (cur + chunks.flatten.length) := by
  induction chunks generalizing buffer cur with
  | nil => simp
  | cons chunk chunks ih =>
    have hchunk := hpos chunk List.mem_cons_self
    rw [List.flatten_cons, List.length_append] at hbuffer hcur
    have hmod : (cur + chunk.length) % 2 ^ 32 = cur + chunk.length := Nat.mod_eq_of_lt (by omega)
    have hgoesOn : (buffer ++ chunk).length < fileBufferSize ∧ cur + chunk.length < size := by
      rw [List.length_append]
      unfold fileBufferSize
      omega
    rw [List.cons_append, readLoop, if_neg (by omega), if_neg (by unfold fileBufferSize; omega)]
    simp only [hmod]
    rw [if_pos hgoesOn, ih (fun c hc => hpos c (List.mem_cons_of_mem chunk hc)) _
      (by rw [List.length_append]; omega) (by omega)]
    rw [List.flatten_cons, List.append_assoc, List.length_append, Nat.add_assoc]

theorem readLoop_stop {size : Nat} {chunk : Bytes} (hpos : 0 < chunk.length) (rest : List Bytes)
    {buffer : Bytes} {cur : Nat} (hfits : buffer.length + chunk.length ≤ 4096)
    (hcur : cur + chunk.length < 2 ^ 32)
    (hstop : 4096 ≤ buffer.length + chunk.length ∨ size ≤ cur + chunk.length) :
    readLoop size (chunk :: rest) buffer cur =
      .complete (buffer ++ chunk) (cur + chunk.length) rest := by
  have hends : ¬ ((buffer ++ chunk).length < fileBufferSize ∧ cur + chunk.length < size) := by
    rw [List.length_append]
    unfold fileBufferSize
    omega
  rw [readLoop, if_neg (by omega), if_neg (by unfold fileBufferSize; omega)]
  simp only [Nat.mod_eq_of_lt hcur]
  rw [if_neg hends]

/-- Reads that leave the loop running, and the one that ends it. -/
theorem readLoop_complete {size : Nat} (hsize : size ≤ 2 ^ 28) {chunks : List Bytes} {chunk : Bytes}
    (rest : List Bytes) (hpos : ∀ c ∈ chunks ++ chunk :: rest, 0 < c.length) {buffer : Bytes}
    {cur : Nat} (hcur : cur + chunks.flatten.length < size)
    (hfits : buffer.length + chunks.flatten.length + chunk.length ≤ 4096)
    (hstop : 4096 ≤ buffer.length + chunks.flatten.length + chunk.length ∨
      size ≤ cur + chunks.flatten.length + chunk.length) :
    readLoop size (chunks ++ chunk :: rest) buffer cur =
      .complete (buffer ++ chunks.flatten ++ chunk)
        (cur + chunks.flatten.length + chunk.length) rest := by
  have hlast : 0 < chunk.length := hpos chunk (by simp)
  rw [readLoop_append (by omega) (fun c hc => hpos c (by simp [hc])) _ _ (by omega) hcur]
  rw [← List.length_append] at hfits hstop
  exact readLoop_stop hlast rest hfits (by omega) hstop

/-- The read that takes a sum of lengths to `target`. -/
theorem exists_crossing (target : Nat) {chunks : List Bytes} (hpos : 0 < target)
    (h : target ≤ chunks.flatten.length) :
    ∃ before chunk after, chunks = before ++ chunk :: after ∧
      before.flatten.length < target ∧ target ≤ before.flatten.length + chunk.length := by
  induction chunks generalizing target with
  | nil =>
    rw [List.flatten_nil, List.length_nil] at h
    omega
  | cons chunk chunks ih =>
    rw [List.flatten_cons, List.length_append] at h
    by_cases hchunk : target ≤ chunk.length
    · exact ⟨[], chunk, chunks, rfl, by simpa using hpos, by simpa using hchunk⟩
    · obtain ⟨before, last, after, hsplit, hbefore, hlast⟩ :=
        ih (target - chunk.length) (by omega) (by omega)
      refine ⟨chunk :: before, last, after, by rw [hsplit, List.cons_append], ?_, ?_⟩
      · rw [List.flatten_cons, List.length_append]
        omega
      · rw [List.flatten_cons, List.length_append]
        omega

/-- The crossing read is the last one exactly if all reads before the last
stay below the target. -/
theorem crossing_is_last_iff {target : Nat} {before : List Bytes} {chunk : Bytes}
    (after : List Bytes) (hbefore : before.flatten.length < target)
    (hchunk : target ≤ before.flatten.length + chunk.length) :
    after = [] ↔ (before ++ chunk :: after).dropLast.flatten.length < target := by
  cases after with
  | nil =>
    rw [List.dropLast_concat]
    exact iff_of_true rfl hbefore
  | cons next after =>
    have hlength : target ≤ (before ++ chunk :: next :: after).dropLast.flatten.length := by
      rw [List.dropLast_append_of_ne_nil (by simp), List.dropLast_cons_of_ne_nil (by simp),
        List.flatten_append, List.flatten_cons, List.length_append, List.length_append]
      omega
    simp only [reduceCtorEq, false_iff]
    omega

/-- What has been read is everything exactly if no read is left. -/
theorem eq_whole_iff {whole got : Bytes} {rest : List Bytes} (hwhole : whole = got ++ rest.flatten)
    (hpos : ∀ chunk ∈ rest, 0 < chunk.length) : got = whole ↔ rest = [] := by
  constructor
  · intro hgot
    have hnone : rest.flatten.length = 0 := by
      have hlengths := congrArg List.length (hgot.trans hwhole)
      rw [List.length_append] at hlengths
      omega
    cases rest with
    | nil => rfl
    | cons next rest =>
      have hnext := hpos next List.mem_cons_self
      rw [List.flatten_cons, List.length_append] at hnone
      omega
  · intro hrest
    rw [hwhole, hrest, List.flatten_nil, List.append_nil]

end ReadLoop

section OneReply

theorem slice_sector (i : Nat) :
    image.take (4096 * i) ++ slice image (4096 * i) (4096 * i + 4095) =
      image.take (4096 * (i + 1)) := by
  have hlength : 4096 * i + 4095 + 1 - 4096 * i = 4096 := by omega
  unfold slice
  rw [hlength, ← List.take_add]
  rfl

theorem length_slice_sector {i : Nat} (h : i < fullSectors image) :
    (slice image (4096 * i) (4096 * i + 4095)).length = 4096 := by
  unfold fullSectors at h
  unfold slice
  rw [List.length_take, List.length_drop]
  omega

theorem slice_last : slice image (4096 * fullSectors image)
    (rangeEndAt image.length (fullSectors image)) = image.drop (4096 * fullSectors image) := by
  unfold slice
  apply List.take_of_length_le
  rw [List.length_drop]
  unfold rangeEndAt fullSectors
  split <;> [skip; split] <;> omega

/-- The state before a request when `i` sectors are stored. -/
structure Stored (image : Bytes) (i requests cur : Nat) (s : Download) : Prop where
  sectorIndex : s.sectorIndex = i
  binFileSize : s.startDownloadFlag = true → s.binFileSize = image.length
  rangeStart : s.rangeStart = 4096 * i
  rangeEnd : s.rangeEnd = rangeEndAt image.length i
  currentBinLength : s.currentBinLength = cur
  requests : s.requests = requests
  pending : s.pending = []
  otaBin : s.otaBin.getD [] = image.take (4096 * i)

theorem stored_initial (fileLength : Nat) :
    Stored image 0 0 0 (initial none fileLength) where
  sectorIndex := rfl
  binFileSize := by simp [initial]
  rangeStart := rfl
  rangeEnd := rfl
  currentBinLength := rfl
  requests := rfl
  pending := rfl
  otaBin := rfl

theorem flashOneSector_append {fs : FsCalls} (hfs : fs.Works) {otaBin : Option Bytes} {i : Nat}
    (hfile : otaBin.getD [] = image.take (4096 * i)) (hi : 4096 * i ≤ image.length)
    (hsize : i < 2 ^ 16) (src : Bytes) :
    flashOneSector fs otaBin (sectorStart + i) src = (true, some (image.take (4096 * i) ++ src)) := by
  have hlength : (image.take (4096 * i)).length = 4096 * i := by
    rw [List.length_take]
    omega
  have hoffset : (sectorStart + i) % 2 ^ 16 * spiFlashSecSize = 4096 * i := by
    unfold sectorStart spiFlashSecSize
    omega
  unfold flashOneSector
  simp only [hoffset, hfile, hfs.opened, hfs.write, if_true]
  rw [if_pos (hfs.seek _ _ hlength.ge)]
  have hpatch := patch_length 0xFF (image.take (4096 * i)) src
  rw [hlength] at hpatch
  rw [hpatch]

theorem binFileSizeOf_header {size : Nat} {header : Bytes} (hheader : IsHeader size header)
    (hsize : size < 2 ^ 31) {s : Download}
    (hs : s.startDownloadFlag = true → s.binFileSize = size) (memory : Bytes) :
    binFileSizeOf s (header ++ memory) = some size := by
  unfold binFileSizeOf
  split
  case isTrue h => rw [hs h]
  case isFalse =>
    rw [getUserBinLength_header hheader, if_pos hsize, Option.map_some]
    congr 1
    omega

theorem checkProgress_stop {s : Download} (h : s.binFileSize ≤ s.currentBinLength) :
    checkProgress s = .stop (.returned 0 s) :=
  if_pos h

theorem checkProgress_again {s : Download} (h : s.currentBinLength < s.binFileSize) :
    checkProgress s = .again s :=
  if_neg (not_le.mpr h)

/-- The header is understood, and the buffer starts with the part of the body
that came with it. -/
theorem takeReply_header {size : Nat} {header : Bytes} (hheader : IsHeader size header)
    (hpos : 0 < size) (hsize : size < 2 ^ 31) {s : Download}
    (hs : s.startDownloadFlag = true → s.binFileSize = size) (fs : FsCalls) (part stale : Bytes) :
    takeReply fs s (header ++ part) ((header ++ part) ++ stale) =
      storeReply fs
        { s with startDownloadFlag := true, binFileSize := size, fileLength := size }
        (readLoop size s.pending part s.currentBinLength) := by
  have hfour := hheader.four_le
  have hwhole : ¬ (header ++ part).length < header.length - 4 + 4 := by
    rw [List.length_append]
    omega
  have hpart : (header ++ part).drop (header.length - 4 + 4) = part := by
    rw [Nat.sub_add_cancel hfour, List.drop_left]
  obtain ⟨n, rfl⟩ : ∃ n, size = n + 1 := ⟨size - 1, by omega⟩
  unfold takeReply
  rw [List.append_assoc, binFileSizeOf_header hheader hsize hs]
  simp only [strstr_headerEnd hheader]
  rw [if_neg hwhole, hpart]

theorem turn_reply {os : Os} (hos : os.Works) {network : Network} {s : Download}
    {size : Nat} {header : Bytes} (hheader : IsHeader size header) (hpos : 0 < size)
    (hsize : size < 2 ^ 31) (hs : s.startDownloadFlag = true → s.binFileSize = size)
    {part : Bytes} {chunks : List Bytes}
    (hreads : s.pending ++ network s.requests s.rangeStart s.rangeEnd =
      (header ++ part) :: chunks) :
    turn os network s = storeReply (os.fs s.requests)
      { s with
        requests := s.requests + 1, pending := chunks, startDownloadFlag := true
        binFileSize := size, fileLength := size }
      (readLoop size chunks part s.currentBinLength) := by
  have hsend : ¬ os.send s.requests ≤ 0 := not_le.mpr (hos.send s.requests)
  have hfour := hheader.four_le
  have hread : ¬ (header ++ part).length = 0 := by
    rw [List.length_append]
    omega
  have hstatus : http206Return <+: (header ++ part) ++ os.stale s.requests := by
    rw [List.append_assoc]
    exact hheader.status.trans (List.prefix_append _ _)
  have hunderstood : ¬ ((header ++ part).length = 0 ∨
      ¬ http206Return <+: (header ++ part) ++ os.stale s.requests) :=
    not_or.mpr ⟨hread, not_not.mpr hstatus⟩
  unfold turn
  simp only [hreads]
  rw [if_neg hsend, if_neg hunderstood]
  exact takeReply_header (s := { s with requests := s.requests + 1, pending := chunks })
    hheader hpos hsize hs _ part _

theorem Reply.length_chunks {size : Nat} {body : Bytes} (reply : Reply size body) :
    reply.attached + reply.chunks.flatten.length = body.length := by
  have hlength := congrArg List.length reply.split
  have hle := reply.attached_le
  rw [List.length_append, List.length_take] at hlength
  omega

theorem Reply.split_of_eq {size : Nat} {body whole : Bytes} (reply : Reply size body)
    (h : body = whole) : whole.take reply.attached ++ reply.chunks.flatten = whole := by
  rw [← h]
  exact reply.split

theorem Reply.attached_lt {size : Nat} {body : Bytes} (reply : Reply size body) :
    reply.attached < 2048 := by
  have hfour := reply.isHeader.four_le
  have hfirst := reply.first_le
  omega

theorem rangeEndAt_full {i : Nat} (h : i < fullSectors image) :
    rangeEndAt image.length i = 4096 * i + 4095 := by
  unfold fullSectors at h
  unfold rangeEndAt
  split <;> [skip; split] <;> omega

theorem nextRangeEnd_full {i : Nat} (h : i < fullSectors image)
    (hsize : image.length ≤ 2 ^ 28) :
    nextRangeEnd (4096 * i + 4095) image.length = rangeEndAt image.length (i + 1) := by
  unfold fullSectors at h
  unfold nextRangeEnd rangeEndAt
  rw [if_neg (Nat.succ_ne_zero i)]
  split <;> split <;> omega

/-- The request for a full sector always stores it, and its bytes behind the
read with the header are counted. -/
theorem turn_full {os : Os} (hos : os.Works) (hpos : 0 < image.length)
    (hsize : image.length ≤ 2 ^ 28) {i requests cur : Nat} {s : Download}
    (hs : Stored image i requests cur s) (hi : i < fullSectors image) (hcur : cur ≤ 4096 * i) :
    ∃ t, turn os server.network s = checkProgress t ∧ t.binFileSize = image.length ∧
      Stored image (i + 1) (requests + 1)
        (cur + (4096 - (server requests (4096 * i) (4096 * i + 4095)).attached)) t ∧
      t.otaBin = some (image.take (4096 * (i + 1))) := by
  have hend := hs.rangeEnd.trans (rangeEndAt_full hi)
  have hbody : (slice image (4096 * i) (4096 * i + 4095)).length = 4096 := length_slice_sector hi
  have hsector : 4096 * (i + 1) ≤ image.length := by
    unfold fullSectors at hi
    omega
  generalize hreply : server requests (4096 * i) (4096 * i + 4095) = reply
  have hreads : s.pending ++ server.network s.requests s.rangeStart s.rangeEnd =
      (reply.header ++ (slice image (4096 * i) (4096 * i + 4095)).take reply.attached) ::
        reply.chunks := by
    rw [hs.pending, hs.requests, hs.rangeStart, hend, ← hreply]
    rfl
  have hlength := reply.length_chunks
  have hattached := reply.attached_lt
  have hpart : ((slice image (4096 * i) (4096 * i + 4095)).take reply.attached).length =
      reply.attached := by
    rw [List.length_take]
    omega
  -- the read that fills the buffer is the last one of the reply
  obtain ⟨chunks, last, hchunks⟩ : ∃ chunks last, reply.chunks = chunks ++ [last] := by
    have hne : reply.chunks ≠ [] := by
      intro hnil
      rw [hnil, List.flatten_nil, List.length_nil] at hlength
      omega
    exact ⟨_, _, (List.dropLast_append_getLast hne).symm⟩
  have hlast : 0 < last.length := reply.chunk_pos last (by simp [hchunks])
  have hsum : reply.attached + chunks.flatten.length + last.length = 4096 := by
    rw [hchunks, List.flatten_append, List.flatten_singleton, List.length_append] at hlength
    omega
  have hreceived : readLoop image.length reply.chunks
      ((slice image (4096 * i) (4096 * i + 4095)).take reply.attached) cur =
        .complete (slice image (4096 * i) (4096 * i + 4095)) (cur + (4096 - reply.attached)) [] := by
    have hpos := reply.chunk_pos
    rw [hchunks] at hpos ⊢
    rw [readLoop_complete hsize [] hpos (by omega) (by omega) (Or.inl (by omega))]
    have hsplit := reply.split
    rw [hchunks, List.flatten_append, List.flatten_singleton, ← List.append_assoc] at hsplit
    rw [hsplit]
    congr 1
    omega
  have hflash := flashOneSector_append (hos.fs requests) hs.otaBin (by omega) (by omega)
    (slice image (4096 * i) (4096 * i + 4095))
  rw [slice_sector] at hflash
  have hturn := turn_reply hos reply.isHeader hpos (by omega) hs.binFileSize hreads
  rw [hs.currentBinLength, hreceived] at hturn
  simp only [storeReply, hs.requests, hs.sectorIndex, hflash] at hturn
  refine ⟨_, hturn, rfl, ?_, rfl⟩
  refine ⟨Nat.mod_eq_of_lt (by omega), fun _ => rfl, ?_, ?_, rfl, rfl, rfl, rfl⟩
  · simp only [hend]
    omega
  · simp only [hend]
    exact nextRangeEnd_full hi hsize

theorem length_lastReply (j : Nat) :
    (lastReply server j).attached + (lastReply server j).chunks.flatten.length =
      image.length % 4096 := by
  rw [(lastReply server j).length_chunks, slice_last, List.length_drop]
  unfold fullSectors
  omega

theorem turn_lastReply {os : Os} (hos : os.Works) (hpos : 0 < image.length)
    (hsize : image.length ≤ 2 ^ 28) {j cur : Nat} {s : Download}
    (hs : Stored image (fullSectors image) (fullSectors image + j) cur s) :
    turn os server.network s = storeReply (os.fs (fullSectors image + j))
      { s with
        requests := fullSectors image + j + 1, pending := (lastReply server j).chunks
        startDownloadFlag := true, binFileSize := image.length, fileLength := image.length }
      (readLoop image.length (lastReply server j).chunks
        ((image.drop (4096 * fullSectors image)).take (lastReply server j).attached) cur) := by
  have hreads : s.pending ++ server.network s.requests s.rangeStart s.rangeEnd =
      ((lastReply server j).header ++
        (image.drop (4096 * fullSectors image)).take (lastReply server j).attached) ::
        (lastReply server j).chunks := by
    rw [hs.pending, hs.requests, hs.rangeStart, hs.rangeEnd, ← slice_last]
    rfl
  have hturn := turn_reply hos (lastReply server j).isHeader hpos (by omega) hs.binFileSize hreads
  rw [hs.currentBinLength, hs.requests] at hturn
  exact hturn

/-- A reply that does not take the count to the size of the image is read to
its end and asked for again. -/
theorem turn_last_again {os : Os} (hos : os.Works) (hpos : 0 < image.length)
    (hsize : image.length ≤ 2 ^ 28) {j cur : Nat} {s : Download}
    (hs : Stored image (fullSectors image) (fullSectors image + j) cur s)
    (hcur : cur + (lastReply server j).chunks.flatten.length < image.length) :
    ∃ t, turn os server.network s = .again t ∧
      Stored image (fullSectors image) (fullSectors image + (j + 1))
        (cur + (lastReply server j).chunks.flatten.length) t := by
  have hlength := length_lastReply server j
  have hturn := turn_lastReply server hos hpos hsize hs
  have hreceived : readLoop image.length (lastReply server j).chunks
      ((image.drop (4096 * fullSectors image)).take (lastReply server j).attached) cur =
        .failed (cur + (lastReply server j).chunks.flatten.length) [] := by
    have hread := readLoop_append (show image.length ≤ 2 ^ 32 by omega)
      (lastReply server j).chunk_pos []
      ((image.drop (4096 * fullSectors image)).take (lastReply server j).attached)
      (by rw [List.length_take]; omega) hcur
    rw [List.append_nil] at hread
    rw [hread, readLoop]
  rw [hreceived] at hturn
  refine ⟨_, hturn.trans (checkProgress_again hcur), ?_⟩
  exact ⟨hs.sectorIndex, fun _ => rfl, hs.rangeStart, hs.rangeEnd, rfl, rfl, rfl, hs.otaBin⟩

/-- A reply that takes the count to the size of the image ends the download,
with the whole image exactly if the last read did it. -/
theorem turn_last_stop {os : Os} (hos : os.Works) (hpos : 0 < image.length)
    (hsize : image.length ≤ 2 ^ 28) {j cur : Nat} {s : Download}
    (hs : Stored image (fullSectors image) (fullSectors image + j) cur s)
    (hbefore : cur < image.length)
    (hcur : image.length ≤ cur + (lastReply server j).chunks.flatten.length) :
    ∃ t, turn os server.network s = .stop (.returned 0 t) ∧
      (t.otaBin = some image ↔
        cur + (lastReply server j).chunks.dropLast.flatten.length < image.length) := by
  have hlength := length_lastReply server j
  have hturn := turn_lastReply server hos hpos hsize hs
  have hfull : 4096 * fullSectors image ≤ image.length := by
    unfold fullSectors
    omega
  have hsplit := (lastReply server j).split_of_eq slice_last
  obtain ⟨chunks, chunk, rest, hchunks, hbelow, hreach⟩ :=
    exists_crossing (image.length - cur) (by omega)
      (show image.length - cur ≤ (lastReply server j).chunks.flatten.length by omega)
  have hchunkPos := (lastReply server j).chunk_pos
  have hcount : (lastReply server j).chunks.flatten.length =
      chunks.flatten.length + chunk.length + rest.flatten.length := by
    rw [hchunks, List.flatten_append, List.flatten_cons, List.length_append, List.length_append]
    omega
  rw [hchunks] at hturn hsplit hchunkPos
  generalize hpart : (image.drop (4096 * fullSectors image)).take (lastReply server j).attached =
    part at hturn hsplit
  have hpartLength : part.length = (lastReply server j).attached := by
    rw [← hpart, List.length_take, List.length_drop]
    unfold fullSectors
    omega
  rw [readLoop_complete hsize rest hchunkPos (by omega) (by omega) (Or.inr (by omega))] at hturn
  have hflash := flashOneSector_append (hos.fs (fullSectors image + j)) hs.otaBin hfull
    (by unfold fullSectors; omega) (part ++ chunks.flatten ++ chunk)
  simp only [storeReply, hs.sectorIndex, hflash] at hturn
  refine ⟨_, hturn.trans (checkProgress_stop (by simp only; omega)), ?_⟩
  have himage : image = (image.take (4096 * fullSectors image) ++
      (part ++ chunks.flatten ++ chunk)) ++ rest.flatten := by
    calc image = image.take (4096 * fullSectors image) ++ image.drop (4096 * fullSectors image) :=
          (List.take_append_drop _ image).symm
      _ = image.take (4096 * fullSectors image) ++ (part ++ (chunks ++ chunk :: rest).flatten) := by
          rw [hsplit]
      _ = _ := by simp
  have hwhole := eq_whole_iff himage fun c hc => hchunkPos c (by simp [hc])
  have hlast := crossing_is_last_iff rest hbelow hreach
  rw [← hchunks] at hlast
  simp only [Option.some.injEq, hwhole, hlast]
  omega

end OneReply

section Download

/-- From this state on the download returns 0 with the image in `ota.bin`. -/
def Finishes (os : Os) (s : Download) : Prop :=
  ∃ t, Returns (turn os server.network) s (.returned 0 t) ∧ t.otaBin = some image

variable {server} in
theorem finishes_again {os : Os} {s t : Download} (h : turn os server.network s = .again t) :
    Finishes server os s ↔ Finishes server os t := by
  unfold Finishes
  simp only [Returns.again_iff h]

variable {server} in
theorem finishes_stop {os : Os} {s t : Download}
    (h : turn os server.network s = .stop (.returned 0 t)) :
    Finishes server os s ↔ t.otaBin = some image := by
  unfold Finishes
  simp only [Returns.stop_iff h, Outcome.returned.injEq, true_and]
  constructor
  · rintro ⟨u, rfl, hu⟩
    exact hu
  · intro ht
    exact ⟨t, rfl, ht⟩

theorem triedBytes_succ (j : Nat) : triedBytes server (j + 1) =
    triedBytes server j + (lastReply server j).chunks.flatten.length :=
  Finset.sum_range_succ _ j

theorem triedBytes_mono {i j : Nat} (h : i ≤ j) : triedBytes server i ≤ triedBytes server j :=
  Finset.sum_le_sum_of_subset (Finset.range_mono h)

theorem attachedBytes_succ (i : Nat) : attachedBytes server (i + 1) =
    attachedBytes server i + (server i (4096 * i) (4096 * i + 4095)).attached :=
  Finset.sum_range_succ _ i

theorem attachedBytes_le (i : Nat) : attachedBytes server i ≤ 4096 * i := by
  induction i with
  | zero => exact Nat.le_refl 0
  | succ i ih =>
    have hattached := (server i (4096 * i) (4096 * i + 4095)).attached_lt
    rw [attachedBytes_succ]
    omega

/-- The bytes counted when the full sectors are stored. -/
def countedBytes : Nat := 4096 * fullSectors image - attachedBytes server (fullSectors image)

theorem counted_add_missing : countedBytes server + missingBytes server = image.length := by
  have hattached := attachedBytes_le server (fullSectors image)
  unfold countedBytes missingBytes
  unfold fullSectors at hattached ⊢
  omega

/-- The state before the `j`-th request for the bytes behind the full sectors. -/
abbrev Trying (j : Nat) (s : Download) : Prop :=
  Stored image (fullSectors image) (fullSectors image + j) (countedBytes server + triedBytes server j) s

/-- Each reply either leaves the count below the size, and the next one is
asked for, or ends the download. -/
theorem finishes_trying {os : Os} (hos : os.Works) (hpos : 0 < image.length)
    (hsize : image.length ≤ 2 ^ 28) {j : Nat} {s : Download} (hs : Trying server j s)
    (hj : triedBytes server j < missingBytes server) :
    Finishes server os s ↔ ∃ i, j ≤ i ∧ EndsWith server i := by
  have hmissing := counted_add_missing server
  constructor
  · rintro ⟨r, hreturns, hr⟩
    obtain ⟨u, ⟨i, hi, hu, hbelow⟩, hstop⟩ := hreturns.invariant
      (I := fun u => ∃ i, j ≤ i ∧ Trying server i u ∧ triedBytes server i < missingBytes server)
      ⟨j, Nat.le_refl j, hs, hj⟩ (by
        rintro u v ⟨i, hi, hu, hbelow⟩ hagain
        by_cases hnext : triedBytes server (i + 1) < missingBytes server
        · rw [triedBytes_succ] at hnext
          obtain ⟨t, ht, htrying⟩ := turn_last_again server hos hpos hsize hu (by omega)
          cases ht.symm.trans hagain
          rw [Nat.add_assoc, ← triedBytes_succ] at htrying
          exact ⟨i + 1, by omega, htrying, by rw [triedBytes_succ]; exact hnext⟩
        · rw [triedBytes_succ] at hnext
          obtain ⟨t, ht, -⟩ := turn_last_stop server hos hpos hsize hu (by omega) (by omega)
          cases ht.symm.trans hagain)
    refine ⟨i, hi, ?_⟩
    by_cases hnext : triedBytes server (i + 1) < missingBytes server
    · rw [triedBytes_succ] at hnext
      obtain ⟨t, ht, -⟩ := turn_last_again server hos hpos hsize hu (by omega)
      cases ht.symm.trans hstop
    · have hreach := not_lt.mp hnext
      rw [triedBytes_succ] at hreach
      obtain ⟨t, ht, himage⟩ := turn_last_stop server hos hpos hsize hu (by omega) (by omega)
      cases ht.symm.trans hstop
      have hlast := himage.mp hr
      exact ⟨by omega, not_lt.mp hnext⟩
  · rintro ⟨i, hi, hbelow, hreach⟩
    obtain ⟨k, rfl⟩ := Nat.exists_eq_add_of_le hi
    clear hi
    induction k generalizing j s with
    | zero =>
      rw [Nat.add_zero] at hbelow hreach
      rw [triedBytes_succ] at hreach
      obtain ⟨t, ht, himage⟩ := turn_last_stop server hos hpos hsize hs (by omega) (by omega)
      exact (finishes_stop ht).mpr (himage.mpr (by omega))
    | succ k ih =>
      have hmono : triedBytes server (j + 1) ≤ triedBytes server (j + (k + 1)) :=
        triedBytes_mono server (by omega)
      have hnext : triedBytes server (j + 1) < missingBytes server := by omega
      have hcount := triedBytes_succ server j
      obtain ⟨t, ht, htrying⟩ := turn_last_again server hos hpos hsize hs (by omega)
      rw [Nat.add_assoc, ← triedBytes_succ] at htrying
      have hindex : j + 1 + k = j + (k + 1) := by omega
      rw [finishes_again ht]
      exact ih htrying hnext (by rw [hindex]; exact hbelow) (by rw [hindex]; exact hreach)

/-- The full sectors are stored one after the other, whatever the splits. -/
theorem finishes_stored {os : Os} (hos : os.Works) (hpos : 0 < image.length)
    (hsize : image.length ≤ 2 ^ 28) {i : Nat} (hi : i ≤ fullSectors image) {s : Download}
    (hs : Stored image i i (4096 * i - attachedBytes server i) s)
    (hcur : 4096 * i - attachedBytes server i < image.length) :
    Finishes server os s ↔ missingBytes server = 0 ∨ ∃ j, EndsWith server j := by
  have hfull : 4096 * fullSectors image ≤ image.length := by
    unfold fullSectors
    omega
  induction h : fullSectors image - i generalizing i s with
  | zero =>
    obtain rfl : i = fullSectors image := by omega
    have hmissing := counted_add_missing server
    have hne : missingBytes server ≠ 0 := by
      unfold countedBytes at hmissing
      omega
    have htrying := finishes_trying server hos hpos hsize (j := 0) hs (by
      unfold triedBytes
      rw [Finset.sum_range_zero]
      omega)
    simp only [Nat.zero_le, true_and] at htrying
    rw [htrying, or_iff_right hne]
  | succ n ih =>
    have hlt : i < fullSectors image := by omega
    have hattached := attachedBytes_le server i
    have hreply := (server i (4096 * i) (4096 * i + 4095)).attached_lt
    obtain ⟨t, ht, hbin, hstored, hfile⟩ :=
      turn_full server hos hpos hsize hs hlt (by omega)
    have hcount : 4096 * i - attachedBytes server i +
        (4096 - (server i (4096 * i) (4096 * i + 4095)).attached) =
          4096 * (i + 1) - attachedBytes server (i + 1) := by
      rw [attachedBytes_succ]
      omega
    rw [hcount] at hstored
    by_cases hend : image.length ≤ 4096 * (i + 1) - attachedBytes server (i + 1)
    · -- the count is complete: the image ends here and no header brought a byte of it
      have hlast : i + 1 = fullSectors image := by omega
      have hnone : missingBytes server = 0 := by
        unfold missingBytes
        rw [← hlast]
        omega
      have hstop := ht.trans (checkProgress_stop (by rw [hbin, hstored.currentBinLength]; exact hend))
      rw [finishes_stop hstop, hfile, List.take_of_length_le (by omega)]
      exact iff_of_true rfl (Or.inl hnone)
    · have hagain := ht.trans
        (checkProgress_again (by rw [hbin, hstored.currentBinLength]; exact not_le.mp hend))
      rw [finishes_again hagain]
      exact ih hlt hstored (not_le.mp hend) (by omega)

end Download

section FileSize

/-- One sector reaches at most to the end of the last one a `uint16` names. -/
theorem length_flashOneSector {fs : FsCalls} {otaBin : Option Bytes} {sector : Nat} {src : Bytes}
    (hfile : (otaBin.getD []).length ≤ 2 ^ 28) (hsrc : src.length ≤ 4096) :
    ((flashOneSector fs otaBin sector src).2.getD []).length ≤ 2 ^ 28 := by
  unfold flashOneSector spiFlashSecSize
  simp only
  split
  case isFalse => exact hfile
  case isTrue =>
    split
    case isFalse => exact hfile
    case isTrue =>
      split
      · rw [Option.getD_some, length_patch]
        omega
      · rw [Option.getD_some, length_patch, List.length_take]
        omega

theorem length_of_touches {fs : FsCalls} {s t : Download} (h : Touches fs s t)
    (hfile : (s.otaBin.getD []).length ≤ 2 ^ 28) : (t.otaBin.getD []).length ≤ 2 ^ 28 := by
  obtain heq | ⟨src, hsrc, heq⟩ := h
  · rw [heq]
    exact hfile
  · rw [heq]
    exact length_flashOneSector hfile hsrc

/-- No download leaves more than 2¹⁶ sectors in the file. -/
theorem length_of_returns {os : Os} {network : Network} {s t : Download} {ret : Int}
    (h : Returns (turn os network) s (.returned ret t))
    (hfile : (s.otaBin.getD []).length ≤ 2 ^ 28) : (t.otaBin.getD []).length ≤ 2 ^ 28 := by
  obtain ⟨u, hu, hstop⟩ := h.invariant (I := fun u => (u.otaBin.getD []).length ≤ 2 ^ 28) hfile
    fun u v hu hagain => length_of_touches (leadsTo_turn (Or.inl hagain)) hu
  exact length_of_touches (leadsTo_turn (Or.inr ⟨ret, hstop⟩)) hu

end FileSize

theorem launchUserbinDownload_eq {os : Os} (hos : os.Works) (network : Network)
    (otaBin : Option Bytes) (fileLength fuel : Nat) :
    launchUserbinDownload os network otaBin fileLength fuel =
      loop (turn os network) fuel (initial otaBin fileLength) := by
  unfold launchUserbinDownload
  rw [hos.httpBuffer, hos.fileBuffer, Bool.and_self, if_pos rfl]

/-- The download, started without an `ota.bin`, returns 0 with exactly the
image in it if and only if the split of the replies lets it. -/
theorem launchUserbinDownload_image_iff {os : Os} (hos : os.Works) (hpos : 0 < image.length)
    (fileLength : Nat) :
    (∃ fuel s, launchUserbinDownload os server.network none fileLength fuel =
      some (.returned 0 s) ∧ s.otaBin = some image) ↔ Completes server := by
  have hfinishes : (∃ fuel s, launchUserbinDownload os server.network none fileLength fuel =
      some (.returned 0 s) ∧ s.otaBin = some image) ↔
        Finishes server os (initial none fileLength) := by
    simp only [launchUserbinDownload_eq hos]
    constructor
    · rintro ⟨fuel, s, hfuel, hs⟩
      exact ⟨s, ⟨fuel, hfuel⟩, hs⟩
    · rintro ⟨s, ⟨fuel, hfuel⟩, hs⟩
      exact ⟨fuel, s, hfuel, hs⟩
  rw [hfinishes]
  unfold Completes
  by_cases hsize : image.length ≤ 2 ^ 28
  · have hstored := finishes_stored server hos hpos hsize (Nat.zero_le _)
      (stored_initial fileLength) (by omega)
    rw [hstored, and_iff_right hsize]
  · have hnever : ¬ Finishes server os (initial none fileLength) := by
      rintro ⟨t, hreturns, ht⟩
      have hlength := length_of_returns hreturns (by simp [initial])
      rw [ht, Option.getD_some] at hlength
      exact hsize hlength
    exact iff_of_false hnever fun h => hsize h.1

/-- Headers that arrive in reads of their own are always enough. -/
theorem completes_of_headers_alone (hsize : image.length ≤ 2 ^ 28)
    (halone : ∀ request start last, (server request start last).attached = 0) :
    Completes server := by
  refine ⟨hsize, ?_⟩
  have hmissing : missingBytes server = image.length % 4096 := by
    unfold missingBytes attachedBytes
    rw [Finset.sum_eq_zero fun x _ => halone x _ _, Nat.add_zero]
  by_cases hrest : image.length % 4096 = 0
  · exact Or.inl (hmissing.trans hrest)
  · right
    have hlength := length_lastReply server 0
    have hzero : (lastReply server 0).attached = 0 := halone _ _ _
    have htried : triedBytes server 0 = 0 := Finset.sum_range_zero _
    have hne : (lastReply server 0).chunks ≠ [] := by
      intro hnil
      rw [hnil, List.flatten_nil, List.length_nil] at hlength
      omega
    have hlast := (lastReply server 0).chunk_pos _ (List.getLast_mem hne)
    have hsum := congrArg (fun chunks => chunks.flatten.length) (List.dropLast_append_getLast hne)
    simp only [List.flatten_append, List.flatten_singleton, List.length_append] at hsum
    refine ⟨0, ?_, ?_⟩
    · omega
    · rw [triedBytes_succ]
      omega

/-- A reply whose first read brings up to `count` bytes of the body with the
header, while every later read brings one. -/
def trickle {size : Nat} (header : Bytes) (isHeader : IsHeader size header) (count : Nat)
    (hfirst : header.length + count ≤ 2048) (body : Bytes) : Reply size body where
  header := header
  isHeader := isHeader
  attached := min count body.length
  attached_le := Nat.min_le_right _ _
  chunks := (body.drop (min count body.length)).map fun byte => [byte]
  split := by
    rw [← List.flatMap_def, List.flatMap_singleton', List.take_append_drop]
  first_le := by omega
  chunk_pos := by
    intro chunk hchunk
    obtain ⟨byte, -, rfl⟩ := List.mem_map.mp hchunk
    exact Nat.one_pos
  chunk_le := by
    intro chunk hchunk
    obtain ⟨byte, -, rfl⟩ := List.mem_map.mp hchunk
    exact Nat.le_of_ble_eq_true rfl

def threeBytes : Bytes := [1, 2, 3]

def headerOfThree : Bytes :=
  ofString "HTTP/1.1 206 Partial Content\r\nContent-Range: bytes 0-2/3\r\n\r\n"

theorem isHeader_three : IsHeader threeBytes.length headerOfThree where
  status := by decide
  noNul := by decide
  total := ⟨ofString "HTTP/1.1 206 Partial Content\r\n", ofString "0-2", ofString "\r\n",
    by decide, by decide, by decide⟩
  ends := by decide

/-- The server of the three bytes, `count` of them together with the header. -/
def serverOfThree (count : Nat) (hcount : count ≤ 3) : Server threeBytes :=
  fun _ start last => trickle headerOfThree isHeader_three count
    (Nat.le_trans (Nat.add_le_add_left hcount _) (by decide)) (slice threeBytes start last)

def plainOs : Os where
  httpBuffer := true
  fileBuffer := true
  send := fun _ => 200
  stale := fun _ => [0]
  fs := fun _ => ⟨true, fun _ offset => offset, fun length => length⟩

theorem plainOs_works : plainOs.Works where
  httpBuffer := rfl
  fileBuffer := rfl
  send := fun _ => (by decide : (0 : Int) < 200)
  fs := fun _ => ⟨rfl, fun _ _ _ => rfl, fun _ => rfl⟩

theorem launchUserbinDownload_image_iff_three :
    ∃ fuel s, launchUserbinDownload plainOs (serverOfThree 0 (by decide)).network none 0 fuel =
      some (.returned 0 s) ∧ s.otaBin = some threeBytes :=
  (launchUserbinDownload_image_iff _ plainOs_works (by decide) 0).mpr
    ⟨by decide, Or.inr ⟨0, by decide, by decide⟩⟩

/-- One byte arrives with each header: the count ends in the middle of the
second reply, and two of the three bytes are stored. -/
theorem launchUserbinDownload_short :
    (∃ s, launchUserbinDownload plainOs (serverOfThree 1 (by decide)).network none 0 2 =
      some (.returned 0 s) ∧ s.otaBin = some [1, 2]) ∧
    ¬ ∃ fuel s, launchUserbinDownload plainOs (serverOfThree 1 (by decide)).network none 0 fuel =
      some (.returned 0 s) ∧ s.otaBin = some threeBytes := by
  have hshort : ∃ s, launchUserbinDownload plainOs (serverOfThree 1 (by decide)).network none 0 2 =
      some (.returned 0 s) ∧ s.otaBin = some [1, 2] := ⟨_, by rfl, by decide⟩
  refine ⟨hshort, ?_⟩
  rintro ⟨fuel, t, hfuel, ht⟩
  obtain ⟨s, hreturned, hs⟩ := hshort
  rw [launchUserbinDownload_eq plainOs_works] at hreturned hfuel
  have hsame : Outcome.returned 0 s = .returned 0 t := Returns.unique ⟨2, hreturned⟩ ⟨fuel, hfuel⟩
  cases hsame
  rw [hs] at ht
  revert ht
  decide

end Sv6x66.Colink.OtaComplete
