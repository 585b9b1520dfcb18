import Sv6x66.Colink.OtaAuthentic

/-! `verifyFlashData` of `colink_upgrade.c` over any behaviour of the file system: a sector
that cannot be sought is not hashed, and what a read does not bring is hashed as it stood in
the buffer. -/
namespace Sv6x66.Colink.OtaDigest
open Sv6x66.Lib Sv6x66.Lib.CString Sv6x66.Lib.ByteFile OtaDownload OtaUpgrade

/-- What `FS_open` answers, the n-th `FS_lseek`, and how many bytes the read behind it brings
at most, whatever it returns. -/
structure Fs where
  opened : Bool
  seek : Nat → Int
  got : Nat → Nat

/-- A file whose positions are `int32_t`. -/
abbrev OtaBin := { content : Bytes // content.length < 2 ^ 31 }

/-- `turns` are the turns of the loop so far; `i` is a `uint16`. -/
structure Hash where
  turns : Nat
  position : Nat
  buffer : Bytes
  hashed : Bytes

def Hash.i (s : Hash) : Nat := s.turns % 2 ^ 16

def offsetOf (start : UInt32) (i : Nat) : Int :=
  (start + UInt32.ofNat (i * spiFlashSecSize)).toInt32.toInt

section Model

variable (otaBin : OtaBin) (fs : Fs) (start size : UInt32)

/-- `FS_lseek` returns the position, or an error below 0 and moves nothing. -/
def fsLseek (s : Hash) : Hash :=
  { s with position := if 0 ≤ fs.seek s.turns then (fs.seek s.turns).toNat else s.position }

def fsRead (len : Nat) (s : Hash) : Hash :=
  let bytes := (otaBin.val.drop s.position).take (min len (fs.got s.turns))
  { s with position := s.position + bytes.length, buffer := overlay s.buffer bytes }

/-- The body of the loop. -/
def hashSector (s : Hash) : Hash :=
  if offsetOf start s.i = fs.seek s.turns then
    let s := fsRead otaBin fs spiFlashSecSize (fsLseek fs s)
    { s with turns := s.turns + 1, hashed := s.hashed ++ s.buffer.take spiFlashSecSize }
  else { fsLseek fs s with turns := s.turns + 1 }

/-- Behind the loop, the part of a sector is hashed in any case. -/
def hashRest (s : Hash) : Bytes :=
  let rest := size.toNat % spiFlashSecSize
  let read := if offsetOf start s.i = fs.seek s.turns then fsRead otaBin fs rest (fsLseek fs s)
    else fsLseek fs s
  read.hashed ++ read.buffer.take rest

def turn (s : Hash) : Turn Hash Bytes :=
  if s.i < size.toNat / spiFlashSecSize then .again (hashSector otaBin fs start s)
  else .stop (hashRest otaBin fs start size s)

def begin (buffer : Vector UInt8 4096) : Hash := ⟨0, 0, buffer.toList, []⟩

/-- `none` after `fuel` turns of the loop; `memory` is what `OS_MemAlloc` finds. -/
def verifyFlashData (sha256 : Bytes → Bytes) (memory : Option (Vector UInt8 4096))
    (digest : Bytes) (fuel : Nat) : Option Bool :=
  match memory with
  | none => some false
  | some buffer =>
    if fs.opened then
      (loop (turn otaBin fs start size) fuel (begin buffer)).map fun hashed =>
        decide (digestHex (sha256 hashed) = cstr digest)
    else some false

end Model

/-! ### What it is for -/

/-- The file has these bytes, with this digest. -/
def Contains (sha256 : Bytes → Bytes) (otaBin : OtaBin) (start size : UInt32) (digest : Bytes) :
    Prop :=
  start.toNat + size.toNat ≤ otaBin.val.length ∧
    digestHex (sha256 ((otaBin.val.drop start.toNat).take size.toNat)) = cstr digest

/-- Where the `i`-th sector begins. -/
def sectorAt (start : UInt32) (i : Nat) : Nat := start.toNat + spiFlashSecSize * i

/-- What the buffer holds at `j` in front of the `i`-th read, once every sector was right. -/
def staleByte (buffer : Vector UInt8 4096) (otaBin : OtaBin) (start : UInt32) (i j : Nat) :
    UInt8 :=
  if i = 0 then buffer.toList.getD j 0
  else otaBin.val.getD (sectorAt start (i - 1) + j) 0

/-- Every full sector is sought, and a byte that a read does not bring is the one that stands
in the buffer. -/
structure Faithful (buffer : Vector UInt8 4096) (otaBin : OtaBin) (fs : Fs) (start size : UInt32) :
    Prop where
  inside : start.toNat + size.toNat ≤ otaBin.val.length
  sought : ∀ i < size.toNat / spiFlashSecSize, fs.seek i = sectorAt start i
  sectors : ∀ i < size.toNat / spiFlashSecSize, ∀ j < spiFlashSecSize, fs.got i ≤ j →
    otaBin.val.getD (sectorAt start i + j) 0 = staleByte buffer otaBin start i j
  rest : ∀ i j, i = size.toNat / spiFlashSecSize → j < size.toNat % spiFlashSecSize →
    (fs.seek i = sectorAt start i → fs.got i ≤ j) →
    otaBin.val.getD (sectorAt start i + j) 0 = staleByte buffer otaBin start i j

theorem Faithful.of_full {buffer : Vector UInt8 4096} {otaBin : OtaBin} {fs : Fs}
    {start size : UInt32} (hinside : start.toNat + size.toNat ≤ otaBin.val.length)
    (hseek : ∀ i, fs.seek i = sectorAt start i) (hgot : ∀ i, spiFlashSecSize ≤ fs.got i) :
    Faithful buffer otaBin fs start size := by
  refine ⟨hinside, fun i _ => hseek i, fun i _ j hj hlate => ?_, fun i j _ hj hlate => ?_⟩
  · exact absurd hj (not_lt.mpr ((hgot i).trans hlate))
  · have hrest := hj.trans (Nat.mod_lt _ (by decide))
    exact absurd hrest (not_lt.mpr ((hgot i).trans (hlate (hseek i))))

/-! ### The texts -/

theorem hexDigit_inj : ∀ a < 16, ∀ b < 16, hexDigit a = hexDigit b → a = b := by decide

theorem digestHex_injective : Function.Injective digestHex := by
  intro xs ys h
  induction xs generalizing ys with
  | nil =>
    cases ys with
    | nil => rfl
    | cons y ys => simp [digestHex] at h
  | cons x xs ih =>
    cases ys with
    | nil => simp [digestHex] at h
    | cons y ys =>
      simp only [digestHex, List.flatMap_cons, List.cons_append, List.nil_append,
        List.cons.injEq] at h
      obtain ⟨hhigh, hlow, hrest⟩ := h
      have hx := x.toNat_lt
      have hy := y.toNat_lt
      have hdiv := hexDigit_inj _ (by omega) _ (by omega) hhigh
      have hmod := hexDigit_inj _ (by omega) _ (by omega) hlow
      have hbyte : x.toNat = y.toNat := by omega
      rw [ih hrest, UInt8.toNat_inj.mp hbyte]

theorem zero_not_mem_digestHex (digest : Bytes) : 0 ∉ digestHex digest := by
  have hdigit : ∀ a < 16, hexDigit a ≠ 0 := by decide
  intro hmem
  obtain ⟨byte, -, hbyte⟩ := List.mem_flatMap.mp hmem
  have hlt := byte.toNat_lt
  simp only [List.mem_cons, List.not_mem_nil, or_false] at hbyte
  obtain h | h := hbyte
  · exact hdigit _ (by omega) h.symm
  · exact hdigit _ (by omega) h.symm

theorem offsetOf_eq {start : UInt32} {i : Nat} (h : sectorAt start i < 2 ^ 31) :
    offsetOf start i = sectorAt start i := by
  rw [sectorAt, spiFlashSecSize] at *
  have hsum : (start + UInt32.ofNat (i * 4096)).toNat = start.toNat + 4096 * i := by
    rw [UInt32.toNat_add, UInt32.toNat_ofNat']
    omega
  change (start + UInt32.ofNat (i * 4096)).toBitVec.toInt = _
  rw [BitVec.toInt_eq_toNat_of_lt]
  · exact congrArg _ hsum
  · change 2 * (start + UInt32.ofNat (i * 4096)).toNat < _
    omega

/-! ### The loop -/

section Loop

variable (buffer : Vector UInt8 4096) (otaBin : OtaBin) (fs : Fs) (start size : UInt32)

/-- The state after this many sectors. -/
def after (k : Nat) : Hash := (hashSector otaBin fs start)^[k] (begin buffer)

theorem after_succ (k : Nat) : after buffer otaBin fs start (k + 1) =
    hashSector otaBin fs start (after buffer otaBin fs start k) :=
  Function.iterate_succ_apply' ..

theorem turns_after (k : Nat) : (after buffer otaBin fs start k).turns = k := by
  induction k with
  | zero => rfl
  | succ k ih =>
    rw [after_succ, hashSector]
    split
    · exact congrArg (· + 1) ih
    · exact congrArg (· + 1) ih

/-- The loop ends behind the full sectors, if `i` can count them. -/
theorem returns_iff (hashed : Bytes) :
    Returns (turn otaBin fs start size) (begin buffer) hashed ↔
      size.toNat / spiFlashSecSize < 2 ^ 16 ∧ hashed = hashRest otaBin fs start size
        (after buffer otaBin fs start (size.toNat / spiFlashSecSize)) := by
  constructor
  · intro h
    have hstep (s t : Hash) (hs : s = after buffer otaBin fs start s.turns ∧
        (size.toNat / spiFlashSecSize < 2 ^ 16 → s.turns ≤ size.toNat / spiFlashSecSize))
        (hnext : turn otaBin fs start size s = .again t) :
        t = after buffer otaBin fs start t.turns ∧
        (size.toNat / spiFlashSecSize < 2 ^ 16 → t.turns ≤ size.toNat / spiFlashSecSize) := by
      obtain ⟨hs, hle⟩ := hs
      unfold turn at hnext
      split at hnext
      case isFalse => cases hnext
      case isTrue hmore =>
        cases hnext
        have hturns : (hashSector otaBin fs start s).turns = s.turns + 1 := by
          rw [hs, ← after_succ, turns_after, turns_after]
        refine ⟨?_, fun hcount => ?_⟩
        · rw [hturns, after_succ, ← hs]
        · have hbefore := hle hcount
          have hi : s.i = s.turns := Nat.mod_eq_of_lt (by omega)
          omega
    obtain ⟨s, ⟨hs, hle⟩, hstop⟩ := h.invariant ⟨rfl, fun _ => Nat.zero_le _⟩ hstep
    unfold turn at hstop
    split at hstop
    case isTrue => cases hstop
    case isFalse hlast =>
      cases hstop
      have hsmall : s.i < 2 ^ 16 := Nat.mod_lt _ (by decide)
      have hcount : size.toNat / spiFlashSecSize < 2 ^ 16 := by omega
      have hturns := hle hcount
      have hi : s.i = s.turns := Nat.mod_eq_of_lt (by omega)
      have hend : s.turns = size.toNat / spiFlashSecSize := by omega
      rw [hend] at hs
      rw [← hs]
      exact ⟨hcount, rfl⟩
  · rintro ⟨hcount, rfl⟩
    have hi (k : Nat) (hk : k ≤ size.toNat / spiFlashSecSize) :
        (after buffer otaBin fs start k).i = k := by
      rw [Hash.i, turns_after]
      exact Nat.mod_eq_of_lt (by omega)
    have hback (left k : Nat) (hk : k + left = size.toNat / spiFlashSecSize) :
        Returns (turn otaBin fs start size) (after buffer otaBin fs start k)
          (hashRest otaBin fs start size
            (after buffer otaBin fs start (size.toNat / spiFlashSecSize))) := by
      induction left generalizing k with
      | zero =>
        have hstop : turn otaBin fs start size (after buffer otaBin fs start k) =
            .stop (hashRest otaBin fs start size (after buffer otaBin fs start k)) :=
          if_neg (by rw [hi k (by omega)]; omega)
        rw [Returns.stop_iff hstop, ← hk, Nat.add_zero]
      | succ left ih =>
        have hagain : turn otaBin fs start size (after buffer otaBin fs start k) =
            .again (after buffer otaBin fs start (k + 1)) := by
          rw [after_succ]
          exact if_pos (by rw [hi k (by omega)]; omega)
        rw [Returns.again_iff hagain]
        exact ih (k + 1) (by omega)
    exact hback _ 0 (Nat.zero_add _)

theorem length_buffer_after (k : Nat) :
    (after buffer otaBin fs start k).buffer.length = spiFlashSecSize := by
  induction k with
  | zero => exact Vector.length_toList
  | succ k ih =>
    rw [after_succ, hashSector]
    split
    · refine (length_overlay ?_).trans ih
      rw [List.length_take]
      change _ ≤ (after buffer otaBin fs start k).buffer.length
      omega
    · exact ih

theorem length_hashed_le (k : Nat) :
    (after buffer otaBin fs start k).hashed.length ≤ spiFlashSecSize * k := by
  induction k with
  | zero => exact Nat.le_refl 0
  | succ k ih =>
    rw [after_succ, hashSector, Nat.mul_succ]
    split
    · refine (List.length_append ..).trans_le (Nat.add_le_add ih ?_)
      exact List.length_take_le ..
    · exact ih.trans (Nat.le_add_right _ _)

variable {buffer otaBin fs start size}

theorem i_after {k : Nat} (h : k < 2 ^ 16) :
    (after buffer otaBin fs start k).i = k := by
  rw [Hash.i, turns_after]
  exact Nat.mod_eq_of_lt h

/-- The comparison in front of a read. -/
theorem sought_iff {k : Nat} (h : k < 2 ^ 16 ∧ sectorAt start k < 2 ^ 31) :
    offsetOf start (after buffer otaBin fs start k).i =
        fs.seek (after buffer otaBin fs start k).turns ↔
      fs.seek k = sectorAt start k := by
  rw [i_after h.1, turns_after, offsetOf_eq h.2]
  exact eq_comm

/-- A read behind a successful seek. -/
theorem fsRead_of_sought {k : Nat} (hsought : fs.seek k = sectorAt start k)
    (len : Nat) :
    fsRead otaBin fs len (fsLseek fs (after buffer otaBin fs start k)) =
      { after buffer otaBin fs start k with
        position := sectorAt start k +
          ((otaBin.val.drop (sectorAt start k)).take (min len (fs.got k))).length
        buffer := overlay (after buffer otaBin fs start k).buffer
          ((otaBin.val.drop (sectorAt start k)).take (min len (fs.got k))) } := by
  have hposition : (if 0 ≤ fs.seek k then (fs.seek k).toNat
      else (after buffer otaBin fs start k).position) = sectorAt start k := by
    rw [hsought, if_pos (Int.natCast_nonneg _), Int.toNat_natCast]
  simp only [fsRead, fsLseek, turns_after, hposition]

variable (buffer otaBin) in
theorem after_succ_of_sought {k : Nat} (h : k < 2 ^ 16 ∧ sectorAt start k < 2 ^ 31)
    (hsought : fs.seek k = sectorAt start k) :
    (after buffer otaBin fs start (k + 1)).buffer =
        overlay (after buffer otaBin fs start k).buffer ((otaBin.val.drop
          (sectorAt start k)).take (min spiFlashSecSize (fs.got k))) ∧
      (after buffer otaBin fs start (k + 1)).hashed = (after buffer otaBin fs start k).hashed ++
        (after buffer otaBin fs start (k + 1)).buffer.take spiFlashSecSize := by
  rw [after_succ, hashSector, if_pos ((sought_iff h).mpr hsought), fsRead_of_sought hsought]
  exact ⟨rfl, rfl⟩

theorem after_succ_of_missed {k : Nat} (h : k < 2 ^ 16 ∧ sectorAt start k < 2 ^ 31)
    (hmissed : fs.seek k ≠ sectorAt start k) :
    (after buffer otaBin fs start (k + 1)).hashed = (after buffer otaBin fs start k).hashed := by
  rw [after_succ, hashSector, if_neg fun hsought => hmissed ((sought_iff h).mp hsought)]
  rfl

theorem sectorAt_succ (start : UInt32) (k : Nat) :
    sectorAt start (k + 1) = sectorAt start k + spiFlashSecSize := by
  rw [sectorAt, Nat.mul_succ, ← Nat.add_assoc]
  rfl

/-- The file's bytes up to the end of this many sectors. -/
def sectorsOf (otaBin : OtaBin) (start : UInt32) (k : Nat) : Bytes :=
  (otaBin.val.drop start.toNat).take (spiFlashSecSize * k)

theorem sectorsOf_succ (k : Nat) : sectorsOf otaBin start (k + 1) = sectorsOf otaBin start k ++
    (otaBin.val.drop (sectorAt start k)).take spiFlashSecSize := by
  rw [sectorsOf, Nat.mul_succ, List.take_add, List.drop_drop]
  rfl

theorem hashed_succ_iff {k : Nat} (hk : k < 2 ^ 16)
    (h : sectorAt start (k + 1) ≤ otaBin.val.length) :
    (after buffer otaBin fs start (k + 1)).hashed = sectorsOf otaBin start (k + 1) ↔
      (after buffer otaBin fs start k).hashed = sectorsOf otaBin start k ∧
        fs.seek k = sectorAt start k ∧ ∀ j < spiFlashSecSize, fs.got k ≤ j →
          otaBin.val.getD (sectorAt start k + j) 0 =
            (after buffer otaBin fs start k).buffer.getD j 0 := by
  have hlength := otaBin.property
  rw [sectorAt_succ] at h
  have hrange : k < 2 ^ 16 ∧ sectorAt start k < 2 ^ 31 := ⟨hk, by omega⟩
  have hbuffer := length_buffer_after buffer otaBin fs start k
  by_cases hsought : fs.seek k = sectorAt start k
  · obtain ⟨hread, hhashed⟩ := after_succ_of_sought buffer otaBin hrange
      hsought
    rw [hhashed, hread, sectorsOf_succ, ← take_overlay_eq_iff (0 : UInt8) (by omega) hbuffer.ge]
    have hsame : ((overlay (after buffer otaBin fs start k).buffer
        ((otaBin.val.drop (sectorAt start k)).take (min spiFlashSecSize (fs.got k)))).take
          spiFlashSecSize).length =
        ((otaBin.val.drop (sectorAt start k)).take spiFlashSecSize).length := by
      rw [List.length_take, List.length_take, List.length_drop, length_overlay, hbuffer]
      · omega
      · rw [List.length_take]
        omega
    constructor
    · intro heq
      obtain ⟨hleft, hright⟩ := List.append_inj' heq hsame
      exact ⟨hleft, hsought, hright⟩
    · rintro ⟨hleft, -, hright⟩
      rw [hleft, hright]
  · rw [after_succ_of_missed hrange hsought]
    refine iff_of_false (fun heq => ?_) fun hright => hsought hright.2.1
    have hshort := length_hashed_le buffer otaBin fs start k
    rw [heq, sectorsOf_succ, List.length_append, sectorsOf, List.length_take, List.length_take,
      List.length_drop, List.length_drop] at hshort
    rw [sectorAt] at h hshort
    rw [spiFlashSecSize] at h hshort
    omega

/-- Once every sector was right, the buffer holds the last of them. -/
theorem buffer_after {k : Nat} (hk : k ≤ 2 ^ 16) (h : sectorAt start k ≤ otaBin.val.length)
    (hhashed : (after buffer otaBin fs start k).hashed = sectorsOf otaBin start k) {j : Nat}
    (hj : j < spiFlashSecSize) :
    (after buffer otaBin fs start k).buffer.getD j 0 = staleByte buffer otaBin start k j := by
  cases k with
  | zero => rfl
  | succ k =>
    obtain ⟨-, hsought, hbytes⟩ := (hashed_succ_iff hk h).mp hhashed
    have hlength := otaBin.property
    rw [sectorAt_succ] at h
    obtain ⟨hread, -⟩ := after_succ_of_sought buffer otaBin
      ⟨hk, by omega⟩ hsought
    have hsector := (take_overlay_eq_iff (0 : UInt8) h
      (length_buffer_after buffer otaBin fs start k).ge (fs.got k)).mpr hbytes
    rw [← hread] at hsector
    have hbyte := congrArg (fun bytes : Bytes => bytes[j]?) hsector
    simp only [List.getElem?_take_of_lt hj, List.getElem?_drop] at hbyte
    rw [List.getD_eq_getElem?_getD, hbyte, ← List.getD_eq_getElem?_getD]
    rfl

/-- One sector at a time: what has been hashed is the file exactly if every read brought the
file's bytes or found them in the buffer. -/
theorem hashed_eq_iff {k : Nat} (hk : k ≤ 2 ^ 16) (h : sectorAt start k ≤ otaBin.val.length) :
    (after buffer otaBin fs start k).hashed = sectorsOf otaBin start k ↔
      ∀ i < k, fs.seek i = sectorAt start i ∧ ∀ j < spiFlashSecSize, fs.got i ≤ j →
        otaBin.val.getD (sectorAt start i + j) 0 = staleByte buffer otaBin start i j := by
  induction k with
  | zero => exact iff_of_true rfl fun i hi => absurd hi (Nat.not_lt_zero i)
  | succ k ih =>
    have hbefore : sectorAt start k ≤ otaBin.val.length := by
      rw [sectorAt_succ] at h
      omega
    rw [hashed_succ_iff hk h, Nat.forall_lt_succ_right, ← ih (by omega) hbefore]
    apply and_congr_right
    intro hhashed
    apply and_congr_right
    intro _
    apply forall₂_congr
    intro j hj
    rw [buffer_after (by omega) hbefore hhashed hj]

theorem hashRest_after {n : Nat} (h : n < 2 ^ 16 ∧ sectorAt start n < 2 ^ 31) :
    hashRest otaBin fs start size (after buffer otaBin fs start n) =
      (after buffer otaBin fs start n).hashed ++
        (overlay (after buffer otaBin fs start n).buffer ((otaBin.val.drop (sectorAt start n)).take
          (min (size.toNat % spiFlashSecSize)
            (if fs.seek n = sectorAt start n then fs.got n else 0)))).take
          (size.toNat % spiFlashSecSize) := by
  simp only [hashRest, sought_iff h]
  by_cases hsought : fs.seek n = sectorAt start n
  · rw [if_pos hsought, if_pos hsought, fsRead_of_sought hsought]
  · rw [if_neg hsought, if_neg hsought, Nat.min_zero, List.take_zero, overlay_nil]
    rfl

/-- What is behind the full sectors. -/
theorem hashRest_eq_iff (hcount : size.toNat / spiFlashSecSize < 2 ^ 16)
    (hinside : start.toNat + size.toNat ≤ otaBin.val.length) :
    hashRest otaBin fs start size (after buffer otaBin fs start (size.toNat / spiFlashSecSize)) =
        (otaBin.val.drop start.toNat).take size.toNat ↔
      Faithful buffer otaBin fs start size := by
  generalize hn : size.toNat / spiFlashSecSize = n at hcount
  generalize hrest : size.toNat % spiFlashSecSize = rest
  have hsize : size.toNat = spiFlashSecSize * n + rest := by
    rw [← hn, ← hrest]
    exact (Nat.div_add_mod ..).symm
  have hend : sectorAt start n + rest ≤ otaBin.val.length := by
    rw [sectorAt]
    omega
  have hlength := otaBin.property
  have hsmall : rest ≤ spiFlashSecSize := by
    rw [← hrest]
    exact (Nat.mod_lt _ (by decide)).le
  have hbuffer := length_buffer_after buffer otaBin fs start n
  have hslice : (otaBin.val.drop start.toNat).take size.toNat =
      sectorsOf otaBin start n ++ (otaBin.val.drop (sectorAt start n)).take rest := by
    rw [hsize, List.take_add, List.drop_drop]
    rfl
  have hread := take_overlay_eq_iff (0 : UInt8) hend (hsmall.trans_eq hbuffer.symm)
    (if fs.seek n = sectorAt start n then fs.got n else 0)
  rw [hashRest_after ⟨hcount, by omega⟩, hslice, hrest]
  have hsame : ((overlay (after buffer otaBin fs start n).buffer
      ((otaBin.val.drop (sectorAt start n)).take (min rest
        (if fs.seek n = sectorAt start n then fs.got n else 0)))).take rest).length =
      ((otaBin.val.drop (sectorAt start n)).take rest).length := by
    rw [List.length_take, List.length_take, List.length_drop, length_overlay, hbuffer]
    · omega
    · rw [List.length_take]
      omega
  have hsector : sectorAt start n ≤ otaBin.val.length := by omega
  constructor
  · intro heq
    obtain ⟨hleft, hright⟩ := List.append_inj' heq hsame
    have hsectors := (hashed_eq_iff hcount.le hsector).mp hleft
    subst hn hrest
    refine ⟨hinside, fun i hi => (hsectors i hi).1, fun i hi => (hsectors i hi).2, ?_⟩
    rintro i j rfl hj hlate
    rw [hread.mp hright j hj ?_, buffer_after hcount.le hsector hleft (hj.trans_le hsmall)]
    split
    · exact hlate ‹_›
    · exact Nat.zero_le j
  · intro hfaithful
    subst hn hrest
    have hleft := (hashed_eq_iff hcount.le hsector).mpr fun i hi =>
      ⟨hfaithful.sought i hi, hfaithful.sectors i hi⟩
    have hright := hread.mpr fun j hj hlate => by
      rw [buffer_after hcount.le hsector hleft (hj.trans_le hsmall)]
      refine hfaithful.rest _ j rfl hj fun hsought => ?_
      rwa [if_pos hsought] at hlate
    rw [hleft, hright]

end Loop

/-- What has been hashed decides, and nothing else. -/
theorem verifyFlashData_true_iff (otaBin : OtaBin) {fs : Fs} (start size : UInt32)
    (sha256 : Bytes → Bytes) (hopened : fs.opened = true) (buffer : Vector UInt8 4096)
    (digest : Bytes) :
    (∃ fuel, verifyFlashData otaBin fs start size sha256 (some buffer) digest fuel = some true) ↔
      size.toNat / spiFlashSecSize < 2 ^ 16 ∧ digestHex (sha256 (hashRest otaBin fs start size
        (after buffer otaBin fs start (size.toNat / spiFlashSecSize)))) = cstr digest := by
  simp only [verifyFlashData, hopened, if_true, Option.map_eq_some_iff, decide_eq_true_eq]
  constructor
  · rintro ⟨fuel, hashed, hloop, hdigest⟩
    obtain ⟨hfits, rfl⟩ := (returns_iff buffer otaBin fs start size hashed).mp ⟨fuel, hloop⟩
    exact ⟨hfits, hdigest⟩
  · rintro ⟨hfits, hdigest⟩
    obtain ⟨fuel, hloop⟩ := (returns_iff buffer otaBin fs start size _).mpr ⟨hfits, rfl⟩
    exact ⟨fuel, _, hloop, hdigest⟩

/-- For every digest, an accepted file is the right one exactly if what went wrong in reading
it changed nothing. -/
theorem verifyFlashData_sound_iff {sha256 : Bytes → Bytes} (hsha : Function.Injective sha256)
    (memory : Option (Vector UInt8 4096)) (otaBin : OtaBin) (fs : Fs) (start size : UInt32) :
    (∀ digest fuel, verifyFlashData otaBin fs start size sha256 memory digest fuel = some true →
      Contains sha256 otaBin start size digest) ↔
    ∀ buffer ∈ memory, fs.opened = true → size.toNat < 2 ^ 28 →
      Faithful buffer otaBin fs start size := by
  have hcount : size.toNat / spiFlashSecSize < 2 ^ 16 ↔ size.toNat < 2 ^ 28 := by
    rw [spiFlashSecSize]
    omega
  cases memory with
  | none => simp [verifyFlashData]
  | some buffer =>
    simp only [Option.mem_some_iff, forall_eq']
    by_cases hopened : fs.opened = true
    · have htrue := verifyFlashData_true_iff otaBin start size sha256 hopened buffer
      constructor
      · intro hsound _ hsize
        obtain ⟨fuel, hfuel⟩ := (htrue (digestHex (sha256 (hashRest otaBin fs start size
          (after buffer otaBin fs start (size.toNat / spiFlashSecSize)))))).mpr
            ⟨hcount.mpr hsize, (cstr_of_not_mem (zero_not_mem_digestHex _)).symm⟩
        obtain ⟨hinside, hdigest⟩ := hsound _ fuel hfuel
        rw [cstr_of_not_mem (zero_not_mem_digestHex _)] at hdigest
        rw [← hashRest_eq_iff (hcount.mpr hsize) hinside]
        exact (hsha (digestHex_injective hdigest)).symm
      · intro hfaithful digest fuel hfuel
        obtain ⟨hsize, hdigest⟩ := (htrue digest).mp ⟨fuel, hfuel⟩
        have hright := hfaithful hopened (hcount.mp hsize)
        rw [(hashRest_eq_iff hsize hright.inside).mpr hright] at hdigest
        exact ⟨hright.inside, hdigest⟩
    · refine iff_of_true (fun digest fuel hfuel => ?_) fun h => absurd h hopened
      rw [verifyFlashData, if_neg hopened] at hfuel
      cases hfuel

/-! ### A file of one byte -/

/-- Injective, with the SHA-256 digest of `"a"`. -/
def shaOf (bytes : Bytes) : Bytes :=
  if bytes = ofString "a" then OtaAuthentic.digestOfA else List.replicate 33 0 ++ bytes

theorem shaOf_injective : Function.Injective shaOf := by
  have hlong (bytes : Bytes) : List.replicate 33 0 ++ bytes ≠ OtaAuthentic.digestOfA := by
    intro h
    have hlength := congrArg List.length h
    rw [List.length_append, List.length_replicate,
      show OtaAuthentic.digestOfA.length = 32 from rfl] at hlength
    omega
  intro xs ys h
  unfold shaOf at h
  split at h
  case isTrue hxs =>
    split at h
    case isTrue hys => rw [hxs, hys]
    case isFalse => exact absurd h.symm (hlong ys)
  case isFalse =>
    split at h
    case isTrue => exact absurd h (hlong xs)
    case isFalse => exact List.append_cancel_left h

/-- A file system that seeks, and whose reads bring at most `got` bytes. -/
def seeking (got : Nat) : Fs := ⟨true, fun n => spiFlashSecSize * n, fun _ => got⟩

theorem verifyFlashData_sound_iff_read :
    verifyFlashData ⟨ofString "a", by decide⟩ (seeking 4096) 0 1 shaOf
        (some (Vector.replicate 4096 0)) (digestHex OtaAuthentic.digestOfA) 1 = some true ∧
      Contains shaOf ⟨ofString "a", by decide⟩ 0 1 (digestHex OtaAuthentic.digestOfA) := by
  have htrue : verifyFlashData ⟨ofString "a", by decide⟩ (seeking 4096) 0 1 shaOf
      (some (Vector.replicate 4096 0)) (digestHex OtaAuthentic.digestOfA) 1 = some true := by
    decide
  refine ⟨htrue, (verifyFlashData_sound_iff shaOf_injective _ _ _ _ _).mpr ?_ _ 1 htrue⟩
  intro _ _ _ _
  exact .of_full (by decide) (fun i => by simp [seeking, sectorAt]) fun _ => le_rfl

/-- Nothing is read of the file `"b"`, and the buffer still holds an `"a"`. -/
theorem stale_byte_accepted :
    ¬ ∀ sha256 memory otaBin fs start size, Function.Injective sha256 →
      ∀ digest fuel,
        verifyFlashData otaBin fs start size sha256 memory digest fuel = some true →
        Contains sha256 otaBin start size digest := by
  intro h
  have hcontains := h shaOf (some (Vector.replicate 4096 97)) ⟨ofString "b", by decide⟩
    (seeking 0) 0 1 shaOf_injective (digestHex OtaAuthentic.digestOfA) 1 (by decide)
  exact absurd hcontains.2 (by decide)

end Sv6x66.Colink.OtaDigest
