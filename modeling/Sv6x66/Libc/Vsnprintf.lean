import Sv6x66.Libc.Ntoa

/-! `vsnprintf` and `printf` of `libc_patch.c`: the format is read one conversion at
a time, and what it yields goes to the buffer at `idx`. -/
namespace Sv6x66.Libc.Vsnprintf
open Sv6x66.Lib.CString Sv6x66.Libc.Ntoa Function

/-- The argument list; `D` are the values of type `double`. -/
inductive Arg (D : Type) where
  | int (value : UInt32)
  | long (value : UInt32)
  | longLong (value : UInt64)
  | double (value : D)
  | str (memory : Bytes)
  | ptr (value : UInt32)

/-- What a character of the format or a conversion puts into the buffer. -/
inductive Piece where
  | char (c : UInt8)
  | number (value : Nat) (negative : Bool) (base : Nat) (spec : Spec)
  | float (parts : FloatParts) (spec : Spec)
  | padded (c : UInt8) (spec : Spec)
  | text (text : Bytes) (spec : Spec)

/-! ### The format -/

def flagOf (flags : Flags) (c : UInt8) : Option Flags :=
  if c = ch '0' then some { flags with zeropad := true }
  else if c = ch '-' then some { flags with left := true }
  else if c = ch '+' then some { flags with plus := true }
  else if c = ch ' ' then some { flags with space := true }
  else if c = ch '#' then some { flags with hash := true }
  else none

def readFlags (flags : Flags) : Bytes → Flags × Bytes
  | [] => (flags, [])
  | c :: format =>
    match flagOf flags c with
    | some flags => readFlags flags format
    | none => (flags, c :: format)

def isDigit (c : UInt8) : Bool := ch '0' ≤ c ∧ c ≤ ch '9'

def atoi (i : UInt32) : Bytes → UInt32 × Bytes
  | [] => (i, [])
  | c :: format =>
    if isDigit c then atoi (i * 10 + (c - ch '0').toUInt32) format else (i, c :: format)

variable {D : Type}

def readWidth (flags : Flags) (args : List (Arg D)) :
    Bytes → Option (Flags × Nat × Bytes × List (Arg D))
  | [] => some (flags, 0, [], args)
  | c :: format =>
    if isDigit c then
      let (width, format) := atoi 0 (c :: format)
      some (flags, width.toNat, format, args)
    else if c = ch '*' then
      match args with
      | .int w :: args =>
        if w.toBitVec.toInt < 0 then some ({ flags with left := true }, (-w).toNat, format, args)
        else some (flags, w.toNat, format, args)
      | _ => none
    else some (flags, 0, c :: format, args)

/-- What follows the point of a precision. -/
def readDigits (args : List (Arg D)) : Bytes → Option (Nat × Bytes × List (Arg D))
  | [] => some (0, [], args)
  | c :: format =>
    if isDigit c then
      let (precision, format) := atoi 0 (c :: format)
      some (precision.toNat, format, args)
    else if c = ch '*' then
      match args with
      | .int precision :: args => some (precision.toNat, format, args)
      | _ => none
    else some (0, c :: format, args)

def readPrecision (flags : Flags) (args : List (Arg D)) :
    Bytes → Option (Flags × Nat × Bytes × List (Arg D))
  | [] => some (flags, 0, [], args)
  | c :: format =>
    if c = ch '.' then
      (readDigits args format).map fun (precision, format, args) =>
        ({ flags with precision := true }, precision, format, args)
    else some (flags, 0, c :: format, args)

def readLength (flags : Flags) : Bytes → Flags × Bytes
  | [] => (flags, [])
  | c :: format =>
    if c = ch 'l' ∨ c = ch 'L' then
      match format with
      | [] => ({ flags with long := true }, [])
      | d :: later =>
        if d = ch 'l' then ({ flags with long := true, longLong := true }, later)
        else ({ flags with long := true }, d :: later)
    else (flags, c :: format)

/-- An integer argument, signed and unsigned. -/
def readInteger (flags : Flags) : List (Arg D) → Option (Int × Nat × List (Arg D))
  | .longLong value :: args =>
    if flags.longLong then some (value.toBitVec.toInt, value.toNat, args) else none
  | .long value :: args =>
    if ¬ flags.longLong ∧ flags.long then some (value.toBitVec.toInt, value.toNat, args) else none
  | .int value :: args =>
    if ¬ flags.longLong ∧ ¬ flags.long then some (value.toBitVec.toInt, value.toNat, args)
    else none
  | _ => none

def isInteger (c : UInt8) : Bool :=
  c = ch 'd' ∨ c = ch 'i' ∨ c = ch 'u' ∨ c = ch 'x' ∨ c = ch 'X' ∨ c = ch 'o' ∨ c = ch 'b'

def baseOf (c : UInt8) : Nat :=
  if c = ch 'x' ∨ c = ch 'X' then 16 else if c = ch 'o' then 8 else if c = ch 'b' then 2 else 10

/-- The flags of an integer conversion. -/
def integerFlags (c : UInt8) (flags : Flags) : Flags :=
  let flags := { flags with hash := flags.hash ∧ (baseOf c = 16 ∨ baseOf c = 8) }
  let flags := { flags with uppercase := flags.uppercase ∨ c = ch 'X' }
  if c = ch 'i' ∨ c = ch 'd' then flags else { flags with plus := false, space := false }

/-- The `switch` over the specifier. `ftoaParts` are the floating-point operations. -/
def specifier (ftoaParts : D → Nat → FloatParts) (spec : Spec) (c : UInt8) (args : List (Arg D)) :
    Option (Piece × List (Arg D)) :=
  if isInteger c then
    (readInteger spec.flags args).map fun (signed, unsigned, args) =>
      let spec := { spec with flags := integerFlags c spec.flags }
      if c = ch 'i' ∨ c = ch 'd' then
        (.number signed.natAbs (signed < 0) (baseOf c) spec, args)
      else (.number unsigned false (baseOf c) spec, args)
  else if c = ch 'f' ∨ c = ch 'F' then
    match args with
    | .double value :: args => some (.float (ftoaParts value (ftoaPrec spec)) spec, args)
    | _ => none
  else if c = ch 'c' then
    match args with
    | .int value :: args => some (.padded value.toUInt8 spec, args)
    | _ => none
  else if c = ch 's' then
    match args with
    | .str memory :: args => some (.text (cstr memory) spec, args)
    | _ => none
  else if c = ch 'p' then
    match args with
    | .ptr value :: args =>
      let flags := { spec.flags with zeropad := true, uppercase := true }
      some (.number value.toNat false 16 { spec with flags := flags, width := 8 }, args)
    | _ => none
  else some (.char c, args)

/-- A conversion, from behind its `%`. `none` where an argument does not match or the format
ends within it. -/
def conversion (ftoaParts : D → Nat → FloatParts) (format : Bytes) (args : List (Arg D)) :
    Option (Piece × Bytes × List (Arg D)) :=
  let (flags, format) :=
    readFlags ⟨false, false, false, false, false, false, false, false, false⟩ format
  match readWidth flags args format with
  | none => none
  | some (flags, width, format, args) =>
    match readPrecision flags args format with
    | none => none
    | some (flags, precision, format, args) =>
      match readLength flags format with
      | (_, []) => none
      | (flags, c :: format) =>
        (specifier ftoaParts ⟨flags, width, precision⟩ c args).map fun (piece, args) =>
          (piece, format, args)

/-- The piece at the front of the format `c :: format`. -/
def next (ftoaParts : D → Nat → FloatParts) (c : UInt8) (format : Bytes) (args : List (Arg D)) :
    Option (Piece × Bytes × List (Arg D)) :=
  if c ≠ ch '%' then some (.char c, format, args) else conversion ftoaParts format args

theorem readFlags_length (flags : Flags) (format : Bytes) :
    (readFlags flags format).2.length ≤ format.length := by
  induction format generalizing flags with
  | nil => exact le_rfl
  | cons c format ih =>
    rw [readFlags]
    split
    · exact (ih _).trans (Nat.le_succ _)
    · exact le_rfl

theorem atoi_length (i : UInt32) (format : Bytes) : (atoi i format).2.length ≤ format.length := by
  induction format generalizing i with
  | nil => exact le_rfl
  | cons c format ih =>
    rw [atoi]
    split
    · exact (ih _).trans (Nat.le_succ _)
    · exact le_rfl

theorem readWidth_length {flags flags' : Flags} {args args' : List (Arg D)} {format format' : Bytes}
    {width : Nat} (h : readWidth flags args format = some (flags', width, format', args')) :
    format'.length ≤ format.length := by
  unfold readWidth at h
  split at h
  · cases h
    exact le_rfl
  · rename_i c format
    split at h
    · have hlen := atoi_length 0 (c :: format)
      dsimp only at h
      cases h
      exact hlen
    · split at h
      · split at h
        · split at h
          · cases h
            exact Nat.le_succ _
          · cases h
            exact Nat.le_succ _
        · cases h
      · cases h
        exact le_rfl

theorem readDigits_length {args args' : List (Arg D)} {format format' : Bytes} {precision : Nat}
    (h : readDigits args format = some (precision, format', args')) :
    format'.length ≤ format.length := by
  unfold readDigits at h
  split at h
  · cases h
    exact le_rfl
  · rename_i c format
    split at h
    · have hlen := atoi_length 0 (c :: format)
      dsimp only at h
      cases h
      exact hlen
    · split at h
      · split at h
        · cases h
          exact Nat.le_succ _
        · cases h
      · cases h
        exact le_rfl

theorem readPrecision_length {flags flags' : Flags} {args args' : List (Arg D)}
    {format format' : Bytes} {precision : Nat}
    (h : readPrecision flags args format = some (flags', precision, format', args')) :
    format'.length ≤ format.length := by
  unfold readPrecision at h
  split at h
  · cases h
    exact le_rfl
  · split at h
    · obtain ⟨⟨precision, rest, args⟩, hdigits, heq⟩ := Option.map_eq_some_iff.mp h
      cases heq
      exact (readDigits_length hdigits).trans (Nat.le_succ _)
    · cases h
      exact le_rfl

theorem readLength_length (flags : Flags) (format : Bytes) :
    (readLength flags format).2.length ≤ format.length := by
  unfold readLength
  split
  · exact le_rfl
  · split
    · split
      · exact Nat.zero_le _
      · split
        · exact (Nat.le_succ _).trans (Nat.le_succ _)
        · exact Nat.le_succ _
    · exact le_rfl

theorem conversion_length {ftoaParts : D → Nat → FloatParts} {format format' : Bytes}
    {args args' : List (Arg D)} {piece : Piece}
    (h : conversion ftoaParts format args = some (piece, format', args')) :
    format'.length ≤ format.length := by
  unfold conversion at h
  dsimp only at h
  split at h
  · cases h
  · rename_i hwidth
    have hwidth := (readWidth_length hwidth).trans (readFlags_length _ _)
    split at h
    · cases h
    · rename_i hprecision
      have hprecision := (readPrecision_length hprecision).trans hwidth
      split at h
      · cases h
      · rename_i flags c rest hlength
        have hrest := hlength ▸ readLength_length _ _
        obtain ⟨_, -, heq⟩ := Option.map_eq_some_iff.mp h
        cases heq
        exact ((Nat.le_succ _).trans hrest).trans hprecision

/-- A piece takes its characters off the format. -/
theorem next_length {ftoaParts : D → Nat → FloatParts} {c : UInt8} {format format' : Bytes}
    {args args' : List (Arg D)} {piece : Piece}
    (h : next ftoaParts c format args = some (piece, format', args')) :
    format'.length ≤ format.length := by
  rw [next] at h
  split at h
  · cases h
    exact le_rfl
  · exact conversion_length h

/-- The pieces of a whole format; `none` where the arguments do not match it. -/
def pieces (ftoaParts : D → Nat → FloatParts) : Bytes → List (Arg D) → Option (List Piece)
  | [], _ => some []
  | c :: format, args =>
    match _h : next ftoaParts c format args with
    | none => none
    | some (piece, later, rest) => (pieces ftoaParts later rest).map (piece :: ·)
termination_by format => format.length
decreasing_by exact Nat.lt_succ_of_le (next_length _h)

/-! ### The buffer -/

/-- The bytes of `buffer` written, `idx`, and the places of the conversion buffers used. -/
structure Out where
  buffer : Nat → Option UInt8
  idx : Nat
  uses : List Nat

/-- `buffer[idx++] = c` -/
def Out.put (out : Out) (c : UInt8) : Out :=
  { out with buffer := update out.buffer out.idx (some c), idx := out.idx + 1 }

/-- A loop that puts bytes as long as `idx < buffer_len`. -/
def putWhile (bufferLen : Nat) : Bytes → Out → Out
  | [], out => out
  | c :: text, out => if out.idx < bufferLen then putWhile bufferLen text (out.put c) else out

/-- A loop over places of the buffer that does not touch `idx`. -/
def writeFrom (buffer : Nat → Option UInt8) (start : Nat) : Bytes → Nat → Option UInt8
  | [] => buffer
  | c :: text => writeFrom (update buffer start (some c)) (start + 1) text

/-- `idx += len` -/
def addIdx (idx len : Nat) : Nat :=
  if idx + len ≤ sizeMax then idx + len else idx + len - (sizeMax + 1)

/-- Where the spaces behind a field of `len` bytes end. -/
def fieldEnd (maxlen : Nat) (spec : Spec) (len : Nat) : Nat :=
  if spec.flags.left then max len (min spec.width maxlen) else len

/-- The end of `_ntoa_format` and `_ftoa`: the digits in their order, and the spaces behind. -/
def copyOut (maxlen : Nat) (conv : Conv) (spec : Spec) (out : Out) : Out :=
  let places := (List.range (min conv.len maxlen)).map fun i => conv.len - i - 1
  let len := fieldEnd maxlen spec conv.len
  let reversed := writeFrom out.buffer out.idx (places.map conv.buf)
  let spaces := List.replicate (len - conv.len) (ch ' ')
  ⟨writeFrom reversed (out.idx + conv.len) spaces, addIdx out.idx len,
    out.uses ++ conv.uses ++ places⟩

/-- `_ntoa_long` and `_ntoa_long_long` -/
def ntoaLong (maxlen value : Nat) (negative : Bool) (base : Nat) (spec : Spec) (out : Out) : Out :=
  let conv := digits value base spec
  if maxlen = 0 ∨ 16 < base then { out with uses := out.uses ++ conv.uses }
  else copyOut maxlen (ntoaFormat conv negative base spec) spec out

def ftoa (maxlen : Nat) (parts : FloatParts) (spec : Spec) (out : Out) : Out :=
  if parts.big then out else copyOut maxlen (ftoaFormat parts spec) spec out

/-- The bytes of a string that its precision lets through. -/
def shown (text : Bytes) (spec : Spec) : Bytes :=
  if spec.flags.precision then text.take spec.precision else text

def emit (bufferLen : Nat) : Piece → Out → Out
  | .char c, out => out.put c
  | .number value negative base spec, out =>
    ntoaLong (bufferLen - out.idx) value negative base spec out
  | .float parts spec, out => ftoa (bufferLen - out.idx) parts spec out
  | .padded c spec, out =>
    let spaces := List.replicate (spec.width - 1) (ch ' ')
    if spec.flags.left then putWhile bufferLen spaces (out.put c)
    else (putWhile bufferLen spaces out).put c
  | .text text spec, out =>
    let text := shown text spec
    let spaces := List.replicate (spec.width - text.length) (ch ' ')
    if spec.flags.left then putWhile bufferLen spaces (putWhile bufferLen text out)
    else putWhile bufferLen text (putWhile bufferLen spaces out)

variable (ftoaParts : D → Nat → FloatParts)

def vsnLoop (bufferLen : Nat) (format : Bytes) (args : List (Arg D)) (out : Out) : Option Out :=
  if out.idx < bufferLen then
    match format with
    | [] => some { out with buffer := update out.buffer out.idx (some 0) }
    | c :: format =>
      match _h : next ftoaParts c format args with
      | none => none
      | some (piece, later, rest) => vsnLoop bufferLen later rest (emit bufferLen piece out)
  else some out
termination_by format.length
decreasing_by exact Nat.lt_succ_of_le (next_length _h)

def vsnprintf (bufferLen : Nat) (format : Bytes) (args : List (Arg D)) : Option Out :=
  vsnLoop ftoaParts bufferLen (cstr format) args ⟨fun _ => none, 0, []⟩

/-- `idx` as the `int` that is returned. -/
def Out.ret (out : Out) : Int := if out.idx ≤ 2147483647 then out.idx else out.idx - 4294967296

/-- What `printf` sends of the buffer, if it has been written. -/
def Out.printed (out : Out) : Option Bytes :=
  ((List.range out.ret.toNat).mapM out.buffer).map fun text =>
    text.flatMap fun c => if c = ch '\n' then [ch '\r', c] else [c]

/-! ### The bounds of the buffer -/

structure Bounded (bufferLen : Nat) (out : Out) : Prop where
  writes : ∀ i, out.buffer i ≠ none → i < bufferLen
  terminated : out.idx < bufferLen ∧ out.buffer out.idx = some 0
  conversions : ∀ i ∈ out.uses, i < ntoaBufferSize
  printed : out.printed.isSome

/-- The length of a field, padded behind. -/
def fieldLength (spec : Spec) (len : Nat) : Nat :=
  if spec.flags.left then max len spec.width else len

/-- The length of what a piece puts into a buffer that is long enough. -/
def Piece.length : Piece → Nat
  | .char _ => 1
  | .number value negative base spec =>
    if 16 < base then 0
    else fieldLength spec (ntoaFormat (digits value base spec) negative base spec).len
  | .float parts spec => if parts.big then 0 else fieldLength spec (ftoaFormat parts spec).len
  | .padded _ spec => max 1 spec.width
  | .text memory spec => max (shown memory spec).length spec.width

/-- A signed zero without a digit and without a width. -/
def Piece.Vanishes : Piece → Prop
  | .number value negative base spec => base ≤ 16 ∧ EmptySigned value negative spec
  | _ => False

/-! ### The bytes written -/

variable {bufferLen : Nat} {out : Out} {spec : Spec} {conv : Conv}

/-- The bytes in front of `idx` are the ones written, from buffers used inside their bounds. -/
structure Filled (out : Out) : Prop where
  buffer : ∀ i, out.buffer i ≠ none ↔ i < out.idx
  uses : ∀ i ∈ out.uses, i < ntoaBufferSize

theorem Filled.put (h : Filled out) (c : UInt8) : Filled (out.put c) := by
  refine ⟨fun i => ?_, h.uses⟩
  have hidx : (out.put c).idx = out.idx + 1 := rfl
  by_cases hi : i = out.idx
  · rw [hidx, hi]
    refine iff_of_true ?_ (Nat.lt_succ_self _)
    simp only [Out.put, update_self]
    exact Option.some_ne_none c
  · have hsame : (out.put c).buffer i = out.buffer i := update_of_ne hi ..
    rw [hidx, hsame, h.buffer]
    omega

theorem Filled.putWhile (h : Filled out) (bufferLen : Nat) (text : Bytes) :
    Filled (putWhile bufferLen text out) := by
  induction text generalizing out with
  | nil => exact h
  | cons c text ih =>
    rw [Vsnprintf.putWhile]
    split
    · exact ih (h.put c)
    · exact h

theorem idx_putWhile (h : out.idx ≤ bufferLen) (text : Bytes) :
    (putWhile bufferLen text out).idx = min (out.idx + text.length) bufferLen := by
  induction text generalizing out with
  | nil => exact (Nat.min_eq_left h).symm
  | cons c text ih =>
    rw [putWhile, List.length_cons]
    split
    · have hidx : (out.put c).idx = out.idx + 1 := rfl
      rw [ih (by omega), hidx]
      omega
    · omega

theorem putWhile_full (h : bufferLen ≤ out.idx) (text : Bytes) :
    putWhile bufferLen text out = out := by
  cases text with
  | nil => rfl
  | cons c text => exact if_neg (Nat.not_lt.mpr h)

theorem writeFrom_ne_none (buffer : Nat → Option UInt8) (start : Nat) (text : Bytes) (i : Nat) :
    writeFrom buffer start text i ≠ none ↔
      buffer i ≠ none ∨ start ≤ i ∧ i < start + text.length := by
  induction text generalizing buffer start with
  | nil => exact (or_iff_left (by rw [List.length_nil]; omega)).symm
  | cons c text ih =>
    rw [writeFrom, ih, List.length_cons]
    by_cases hi : i = start
    · rw [hi, update_self]
      exact iff_of_true (.inl (Option.some_ne_none c)) (.inr (by omega))
    · rw [update_of_ne hi]
      exact or_congr_right (by omega)

theorem addIdx_of_le {idx len : Nat} (h : idx + len ≤ sizeMax) : addIdx idx len = idx + len :=
  if_pos h

theorem le_fieldLength (spec : Spec) (len : Nat) : len ≤ fieldLength spec len := by
  rw [fieldLength]
  split
  · exact Nat.le_max_left ..
  · exact le_rfl

theorem fieldEnd_of_fits {maxlen len : Nat} (h : fieldLength spec len ≤ maxlen) :
    fieldEnd maxlen spec len = fieldLength spec len := by
  rw [fieldLength] at h ⊢
  rw [fieldEnd]
  split
  · rw [if_pos ‹_›] at h
    exact congrArg _ (Nat.min_eq_left ((Nat.le_max_right ..).trans h))
  · rfl

theorem fieldEnd_of_full {maxlen len : Nat} (h : maxlen ≤ fieldLength spec len) :
    maxlen ≤ fieldEnd maxlen spec len ∧ fieldEnd maxlen spec len ≤ max len maxlen := by
  rw [fieldLength] at h
  rw [fieldEnd]
  split
  · rw [if_pos ‹_›] at h
    constructor
    · obtain hlen | hwidth := le_max_iff.mp h
      · exact hlen.trans (Nat.le_max_left ..)
      · exact (Nat.min_eq_right hwidth).ge.trans (Nat.le_max_right ..)
    · exact max_le_max le_rfl (Nat.min_le_right ..)
  · rw [if_neg ‹_›] at h
    exact ⟨h, Nat.le_max_left ..⟩

/-- The places a reversal reads are in front of `len`. -/
theorem uses_copyOut (h : Filled out) (hconv : conv.Inside) (maxlen : Nat) (spec : Spec) :
    ∀ i ∈ (copyOut maxlen conv spec out).uses, i < ntoaBufferSize := by
  intro i hi
  obtain hi | hi := List.mem_append.mp hi
  · obtain hi | hi := List.mem_append.mp hi
    · exact h.uses i hi
    · exact hconv.uses i hi
  · obtain ⟨k, hk, rfl⟩ := List.mem_map.mp hi
    have hk : k < min conv.len maxlen := List.mem_range.mp hk
    have hlt : k < conv.len := hk.trans_le (Nat.min_le_left ..)
    have hlen := hconv.len
    omega

/-- A field that fits is copied whole. -/
theorem Filled.copyOut (h : Filled out) (hconv : conv.Inside) {maxlen : Nat}
    (hfits : fieldLength spec conv.len ≤ maxlen) (hidx : out.idx + maxlen ≤ sizeMax) :
    Filled (copyOut maxlen conv spec out) ∧
      (Vsnprintf.copyOut maxlen conv spec out).idx = out.idx + fieldLength spec conv.len := by
  have hle := le_fieldLength spec conv.len
  have hend : (Vsnprintf.copyOut maxlen conv spec out).idx =
      out.idx + fieldLength spec conv.len := by
    simp only [Vsnprintf.copyOut]
    rw [fieldEnd_of_fits hfits]
    exact addIdx_of_le (by omega)
  refine ⟨⟨fun i => ?_, uses_copyOut h hconv maxlen spec⟩, hend⟩
  rw [hend]
  simp only [Vsnprintf.copyOut]
  have hcount : min conv.len maxlen = conv.len := Nat.min_eq_left (hle.trans hfits)
  rw [writeFrom_ne_none, writeFrom_ne_none, h.buffer, fieldEnd_of_fits hfits, hcount,
    List.length_map, List.length_map, List.length_range, List.length_replicate]
  omega

/-- A field that does not fit takes `idx` to the end of the buffer or behind it. -/
theorem idx_copyOut_full (hconv : conv.Inside) {maxlen : Nat}
    (hfull : maxlen ≤ fieldLength spec conv.len)
    (hidx : out.idx + maxlen + ntoaBufferSize ≤ sizeMax + 1) (hpos : 0 < maxlen) :
    out.idx + maxlen ≤ (copyOut maxlen conv spec out).idx := by
  obtain ⟨hge, hle⟩ := fieldEnd_of_full hfull
  have hlen := hconv.len
  have hmax : max conv.len maxlen ≤ ntoaBufferSize + maxlen - 1 := by
    refine max_le ?_ ?_
    · omega
    · unfold ntoaBufferSize
      omega
  simp only [copyOut]
  rw [addIdx_of_le (by omega)]
  omega

/-- Of a vanished number the reversal reads behind the conversion buffer. -/
theorem uses_copyOut_vanished (h : conv.len = sizeMax) {maxlen : Nat} (hpos : 0 < maxlen)
    (spec : Spec) (out : Out) : ∃ i ∈ (copyOut maxlen conv spec out).uses, ntoaBufferSize ≤ i := by
  have hlarge : ntoaBufferSize ≤ sizeMax - 0 - 1 := by decide
  refine ⟨sizeMax - 0 - 1, ?_, hlarge⟩
  refine List.mem_append_right _ (List.mem_map.mpr ⟨0, List.mem_range.mpr ?_, ?_⟩)
  · rw [h]
    exact Nat.lt_min.mpr ⟨by decide, hpos⟩
  · rw [h]

/-! ### A piece -/

/-- What a piece of `len` bytes does: it fits and is written whole, or it takes `idx` to the end of
the buffer or behind it. -/
structure Writes (bufferLen len : Nat) (out t : Out) : Prop where
  fits : out.idx + len < bufferLen → Filled t ∧ t.idx = out.idx + len
  full : bufferLen ≤ out.idx + len → bufferLen ≤ t.idx

theorem Writes.trans {first second : Nat} {t u : Out} (h : Writes bufferLen first out t)
    (hfits : Filled t → t.idx < bufferLen → Writes bufferLen second t u)
    (hfull : bufferLen ≤ t.idx → bufferLen ≤ u.idx) :
    Writes bufferLen (first + second) out u := by
  constructor
  · intro hroom
    obtain ⟨ht, hidx⟩ := h.fits (by omega)
    obtain ⟨hu, hend⟩ := (hfits ht (by omega)).fits (by omega)
    exact ⟨hu, by omega⟩
  · intro hover
    by_cases hroom : out.idx + first < bufferLen
    · obtain ⟨ht, hidx⟩ := h.fits hroom
      exact (hfits ht (by omega)).full (by omega)
    · exact hfull (h.full (Nat.le_of_not_lt hroom))

theorem writes_put (h : Filled out) (bufferLen : Nat) (c : UInt8) :
    Writes bufferLen 1 out (out.put c) :=
  ⟨fun _ => ⟨h.put c, rfl⟩, id⟩

theorem writes_putWhile (h : Filled out) (hidx : out.idx < bufferLen) (text : Bytes) :
    Writes bufferLen text.length out (putWhile bufferLen text out) := by
  have hend := idx_putWhile hidx.le text
  constructor
  · intro hfits
    exact ⟨h.putWhile bufferLen text, hend.trans (Nat.min_eq_left hfits.le)⟩
  · intro hfull
    exact (hend.trans (Nat.min_eq_right hfull)).ge

theorem le_idx_putWhile (h : bufferLen ≤ out.idx) (text : Bytes) :
    bufferLen ≤ (putWhile bufferLen text out).idx := by
  rwa [putWhile_full h]

theorem writes_copyOut (h : Filled out) (hidx : out.idx < bufferLen)
    (hbuf : bufferLen + ntoaBufferSize ≤ sizeMax + 1) (hconv : conv.Inside) (spec : Spec) :
    Writes bufferLen (fieldLength spec conv.len) out
      (copyOut (bufferLen - out.idx) conv spec out) := by
  have hsize : ntoaBufferSize = 32 := rfl
  constructor
  · intro hfits
    exact h.copyOut hconv (by omega) (by omega)
  · intro hfull
    have hend : out.idx + (bufferLen - out.idx) ≤
        (copyOut (bufferLen - out.idx) conv spec out).idx :=
      idx_copyOut_full hconv (by omega) (by omega) (by omega)
    omega

theorem writes_emit (h : Filled out) (hidx : out.idx < bufferLen)
    (hbuf : bufferLen + ntoaBufferSize ≤ sizeMax + 1) {piece : Piece}
    (hshown : ¬ piece.Vanishes) : Writes bufferLen piece.length out (emit bufferLen piece out) := by
  cases piece with
  | char c => exact writes_put h bufferLen c
  | number value negative base spec =>
    rw [emit, ntoaLong, Piece.length]
    by_cases hbase : 16 < base
    · have hdigits := (inside_digits value base spec).1
      rw [if_pos hbase, if_pos (Or.inr hbase)]
      refine ⟨fun _ => ⟨⟨h.buffer, fun i hi => ?_⟩, rfl⟩, id⟩
      exact (List.mem_append.mp hi).elim (h.uses i) (hdigits.uses i)
    · have hsigned : ¬ EmptySigned value negative spec :=
        fun hempty => hshown ⟨Nat.le_of_not_lt hbase, hempty⟩
      rw [if_neg (not_or.mpr ⟨by omega, hbase⟩), if_neg hbase]
      exact writes_copyOut h hidx hbuf (inside_ntoaFormat hsigned) spec
  | float parts spec =>
    rw [emit, ftoa, Piece.length]
    by_cases hbig : parts.big
    · rw [if_pos hbig, if_pos hbig]
      exact ⟨fun _ => ⟨h, rfl⟩, id⟩
    · rw [if_neg hbig, if_neg hbig]
      exact writes_copyOut h hidx hbuf (inside_ftoaFormat parts spec) spec
  | padded c spec =>
    have hlength : (Piece.padded c spec).length =
        1 + (List.replicate (spec.width - 1) (ch ' ')).length := by
      rw [Piece.length, List.length_replicate]
      omega
    rw [emit, hlength]
    split
    · exact (writes_put h bufferLen c).trans (fun ht hlt => writes_putWhile ht hlt _)
        fun hfull => le_idx_putWhile hfull _
    · rw [Nat.add_comm]
      exact (writes_putWhile h hidx _).trans (fun ht _ => writes_put ht bufferLen c)
        fun hfull => hfull.trans (Nat.le_succ _)
  | text memory spec =>
    have hlength : (Piece.text memory spec).length = (shown memory spec).length +
        (List.replicate (spec.width - (shown memory spec).length) (ch ' ')).length := by
      rw [Piece.length, List.length_replicate]
      omega
    rw [emit, hlength]
    split
    · exact (writes_putWhile h hidx _).trans (fun ht hlt => writes_putWhile ht hlt _)
        fun hfull => le_idx_putWhile hfull _
    · rw [Nat.add_comm]
      exact (writes_putWhile h hidx _).trans (fun ht hlt => writes_putWhile ht hlt _)
        fun hfull => le_idx_putWhile hfull _

/-! ### What the conversion buffers were used for is never taken back -/

theorem uses_putWhile (bufferLen : Nat) (text : Bytes) (out : Out) :
    (putWhile bufferLen text out).uses = out.uses := by
  induction text generalizing out with
  | nil => rfl
  | cons c text ih =>
    rw [putWhile]
    split
    · exact ih (out.put c)
    · rfl

theorem uses_copyOut_prefix (maxlen : Nat) (conv : Conv) (spec : Spec) (out : Out) :
    out.uses <+: (copyOut maxlen conv spec out).uses := by
  simp only [copyOut]
  rw [List.append_assoc]
  exact List.prefix_append _ _

theorem uses_emit (bufferLen : Nat) (piece : Piece) (out : Out) :
    out.uses <+: (emit bufferLen piece out).uses := by
  cases piece with
  | char c => exact List.prefix_refl _
  | number value negative base spec =>
    rw [emit, ntoaLong]
    split
    · exact List.prefix_append _ _
    · exact uses_copyOut_prefix ..
  | float parts spec =>
    rw [emit, ftoa]
    split
    · exact List.prefix_refl _
    · exact uses_copyOut_prefix ..
  | padded c spec =>
    rw [emit]
    split
    · rw [uses_putWhile]
      exact List.prefix_refl _
    · have huses := uses_putWhile bufferLen (List.replicate (spec.width - 1) (ch ' ')) out
      exact huses ▸ List.prefix_refl _
  | text memory spec =>
    rw [emit]
    split
    · rw [uses_putWhile, uses_putWhile]
    · rw [uses_putWhile, uses_putWhile]

/-- A number that vanishes is read from behind its conversion buffer. -/
theorem uses_emit_vanished (hidx : out.idx < bufferLen) {piece : Piece} (h : piece.Vanishes) :
    ∃ i ∈ (emit bufferLen piece out).uses, ntoaBufferSize ≤ i := by
  cases piece with
  | number value negative base spec =>
    rw [emit, ntoaLong]
    rw [if_neg (by have := h.1; omega)]
    exact uses_copyOut_vanished (len_ntoaFormat base h.2) (by omega) spec out
  | char c => exact h.elim
  | float parts spec => exact h.elim
  | padded c spec => exact h.elim
  | text memory spec => exact h.elim

/-! ### The loop -/

variable {ftoaParts} {format : Bytes} {args : List (Arg D)} {ps : List Piece} {t : Out}

theorem pieces_eq_nil (h : pieces ftoaParts format args = some []) : format = [] := by
  cases format with
  | nil => rfl
  | cons c format =>
    rw [pieces] at h
    split at h
    · cases h
    · obtain ⟨later, -, heq⟩ := Option.map_eq_some_iff.mp h
      cases heq

theorem pieces_eq_cons {piece : Piece}
    (h : pieces ftoaParts format args = some (piece :: ps)) :
    ∃ c rest later args', format = c :: rest ∧
      next ftoaParts c rest args = some (piece, later, args') ∧
      pieces ftoaParts later args' = some ps := by
  cases format with
  | nil =>
    rw [pieces] at h
    cases h
  | cons c rest =>
    rw [pieces] at h
    split at h
    · cases h
    · rename_i piece' later args' hnext
      obtain ⟨ps', hlater, heq⟩ := Option.map_eq_some_iff.mp h
      cases heq
      exact ⟨c, rest, later, args', rfl, hnext, hlater⟩

theorem vsnLoop_full (h : bufferLen ≤ out.idx) (format : Bytes) (args : List (Arg D)) :
    vsnLoop ftoaParts bufferLen format args out = some out := by
  rw [vsnLoop.eq_def, if_neg (Nat.not_lt.mpr h)]

theorem vsnLoop_nil (h : out.idx < bufferLen) (args : List (Arg D)) :
    vsnLoop ftoaParts bufferLen [] args out =
      some { out with buffer := update out.buffer out.idx (some 0) } := by
  rw [vsnLoop.eq_def, if_pos h]

theorem vsnLoop_cons (h : out.idx < bufferLen) {c : UInt8} {later : Bytes} {args' : List (Arg D)}
    {piece : Piece} (hnext : next ftoaParts c format args = some (piece, later, args')) :
    vsnLoop ftoaParts bufferLen (c :: format) args out =
      vsnLoop ftoaParts bufferLen later args' (emit bufferLen piece out) := by
  rw [vsnLoop.eq_def, if_pos h]
  dsimp only
  split
  · rename_i hnone
    rw [hnone] at hnext
    cases hnext
  · rename_i hsome
    rw [hsome] at hnext
    cases hnext
    rfl

theorem vsnLoop_uses (hmatch : pieces ftoaParts format args = some ps)
    (h : vsnLoop ftoaParts bufferLen format args out = some t) : out.uses <+: t.uses := by
  induction ps generalizing format args out with
  | nil =>
    rw [pieces_eq_nil hmatch] at h
    by_cases hidx : out.idx < bufferLen
    · rw [vsnLoop_nil hidx] at h
      cases h
      exact List.prefix_refl _
    · rw [vsnLoop_full (Nat.le_of_not_lt hidx)] at h
      cases h
      exact List.prefix_refl _
  | cons piece ps ih =>
    obtain ⟨c, rest, later, args', rfl, hnext, hlater⟩ := pieces_eq_cons hmatch
    by_cases hidx : out.idx < bufferLen
    · rw [vsnLoop_cons hidx hnext] at h
      exact (uses_emit bufferLen piece out).trans (ih hlater h)
    · rw [vsnLoop_full (Nat.le_of_not_lt hidx)] at h
      cases h
      exact List.prefix_refl _

/-- Output that is shorter than the room left is written whole, with its NUL. -/
theorem vsnLoop_fits (hbuf : bufferLen + ntoaBufferSize ≤ sizeMax + 1)
    (hmatch : pieces ftoaParts format args = some ps) (h : Filled out)
    (hshown : ∀ piece ∈ ps, ¬ piece.Vanishes)
    (hroom : out.idx + (ps.map Piece.length).sum < bufferLen) :
    ∃ t, vsnLoop ftoaParts bufferLen format args out =
        some { t with buffer := update t.buffer t.idx (some 0) } ∧
      Filled t ∧ t.idx < bufferLen := by
  induction ps generalizing format args out with
  | nil =>
    rw [pieces_eq_nil hmatch]
    exact ⟨out, vsnLoop_nil hroom args, h, hroom⟩
  | cons piece ps ih =>
    obtain ⟨c, rest, later, args', rfl, hnext, hlater⟩ := pieces_eq_cons hmatch
    rw [List.map_cons, List.sum_cons] at hroom
    obtain ⟨hpiece, hrest⟩ := List.forall_mem_cons.mp hshown
    have hidx : out.idx < bufferLen := by omega
    obtain ⟨hfilled, hend⟩ := (writes_emit h hidx hbuf hpiece).fits (by omega)
    rw [vsnLoop_cons hidx hnext]
    exact ih hlater hfilled hrest (by omega)

/-- Otherwise `idx` ends behind the buffer, or a conversion buffer was read behind its end. -/
theorem vsnLoop_over (hbuf : bufferLen + ntoaBufferSize ≤ sizeMax + 1)
    (hmatch : pieces ftoaParts format args = some ps) (h : Filled out)
    (hbad : ¬ ((∀ piece ∈ ps, ¬ piece.Vanishes) ∧
      out.idx + (ps.map Piece.length).sum < bufferLen))
    (hloop : vsnLoop ftoaParts bufferLen format args out = some t) :
    bufferLen ≤ t.idx ∨ ∃ i ∈ t.uses, ntoaBufferSize ≤ i := by
  induction ps generalizing format args out with
  | nil =>
    have hidx : bufferLen ≤ out.idx :=
      Nat.le_of_not_lt fun hlt => hbad ⟨fun _ hmem => absurd hmem List.not_mem_nil, hlt⟩
    rw [vsnLoop_full hidx] at hloop
    cases hloop
    exact .inl hidx
  | cons piece ps ih =>
    by_cases hidx : out.idx < bufferLen
    · obtain ⟨c, rest, later, args', rfl, hnext, hlater⟩ := pieces_eq_cons hmatch
      rw [vsnLoop_cons hidx hnext] at hloop
      by_cases hpiece : piece.Vanishes
      · obtain ⟨i, hi, hlarge⟩ := uses_emit_vanished hidx hpiece
        exact .inr ⟨i, (vsnLoop_uses hlater hloop).subset hi, hlarge⟩
      · have hwrites := writes_emit h hidx hbuf hpiece
        by_cases hroom : out.idx + piece.length < bufferLen
        · obtain ⟨hfilled, hend⟩ := hwrites.fits hroom
          refine ih hlater hfilled (fun hgood => hbad ?_) hloop
          rw [List.map_cons, List.sum_cons]
          exact ⟨List.forall_mem_cons.mpr ⟨hpiece, hgood.1⟩, by omega⟩
        · have hfull := hwrites.full (Nat.le_of_not_lt hroom)
          rw [vsnLoop_full hfull] at hloop
          cases hloop
          exact .inl hfull
    · rw [vsnLoop_full (Nat.le_of_not_lt hidx)] at hloop
      cases hloop
      exact .inl (Nat.le_of_not_lt hidx)

/-! ### The result -/

theorem filled_start : Filled ⟨fun _ => none, 0, []⟩ :=
  ⟨fun i => iff_of_false (not_not_intro rfl) (Nat.not_lt_zero i),
    fun _ hi => absurd hi List.not_mem_nil⟩

theorem mapM_isSome {α β : Type} {f : α → Option β} {items : List α}
    (h : ∀ a ∈ items, f a ≠ none) : (items.mapM f).isSome := by
  induction items with
  | nil => rfl
  | cons a items ih =>
    obtain ⟨ha, hitems⟩ := List.forall_mem_cons.mp h
    obtain ⟨b, hb⟩ := Option.ne_none_iff_exists'.mp ha
    obtain ⟨bs, hbs⟩ := Option.isSome_iff_exists.mp (ih hitems)
    rw [List.mapM_cons, hb, hbs]
    rfl

theorem Filled.bounded (h : Filled out) (hidx : out.idx < bufferLen) :
    Bounded bufferLen { out with buffer := update out.buffer out.idx (some 0) } := by
  refine ⟨fun i hi => ?_, ⟨hidx, update_self ..⟩, h.uses, ?_⟩
  · by_cases hend : i = out.idx
    · exact hend ▸ hidx
    · dsimp only at hi
      rw [update_of_ne hend, h.buffer] at hi
      exact hi.trans hidx
  · rw [Out.printed, Option.isSome_map]
    refine mapM_isSome fun i hi => ?_
    have hi := List.mem_range.mp hi
    have hret : i < out.idx := by
      simp only [Out.ret] at hi
      split at hi
      · omega
      · omega
    dsimp only
    rw [update_of_ne hret.ne]
    exact (h.buffer i).mpr hret

theorem Bounded.not_over (h : Bounded bufferLen t) :
    ¬ (bufferLen ≤ t.idx ∨ ∃ i ∈ t.uses, ntoaBufferSize ≤ i) := by
  rintro (hidx | ⟨i, hi, hlarge⟩)
  · exact Nat.not_lt.mpr hidx h.terminated.1
  · exact Nat.not_lt.mpr hlarge (h.conversions i hi)

/-- The formatting is bounded exactly if its whole output and a NUL have room in the buffer and
no signed zero vanishes. The buffer and a conversion buffer share the address space. -/
theorem vsnprintf_bounded_iff (ftoaParts : D → Nat → FloatParts) (bufferLen : Nat) (format : Bytes)
    (args : List (Arg D)) (ps : List Piece) (hbuf : bufferLen + ntoaBufferSize ≤ sizeMax + 1)
    (hmatch : pieces ftoaParts (cstr format) args = some ps) :
    (∃ out, vsnprintf ftoaParts bufferLen format args = some out ∧ Bounded bufferLen out) ↔
      (∀ piece ∈ ps, ¬ piece.Vanishes) ∧ (ps.map Piece.length).sum < bufferLen := by
  have hstart : (⟨fun _ => none, 0, []⟩ : Out).idx + (ps.map Piece.length).sum =
      (ps.map Piece.length).sum := Nat.zero_add _
  constructor
  · rintro ⟨out, hloop, hbounded⟩
    by_contra hbad
    rw [← hstart] at hbad
    exact hbounded.not_over (vsnLoop_over hbuf hmatch filled_start hbad hloop)
  · rintro ⟨hshown, hroom⟩
    rw [← hstart] at hroom
    obtain ⟨t, hloop, hfilled, hidx⟩ := vsnLoop_fits hbuf hmatch filled_start hshown hroom
    exact ⟨_, hloop, hfilled.bounded hidx⟩

theorem pieces_cons {c : UInt8} {later : Bytes} {args' : List (Arg D)} {piece : Piece}
    (hnext : next ftoaParts c format args = some (piece, later, args'))
    (hlater : pieces ftoaParts later args' = some ps) :
    pieces ftoaParts (c :: format) args = some (piece :: ps) := by
  rw [pieces]
  split
  · rename_i hnone
    rw [hnone] at hnext
    cases hnext
  · rename_i hsome
    rw [hsome] at hnext
    cases hnext
    rw [hlater]
    rfl

theorem pieces_nil (args : List (Arg D)) : pieces ftoaParts [] args = some [] := by
  rw [pieces]

/-- No `double` among the arguments. -/
def noParts (_ : Unit) (_ : Nat) : FloatParts := ⟨false, false, 0, 0⟩

def plain : Flags := ⟨false, false, false, false, false, false, false, false, false⟩

theorem vsnprintf_bounded_iff_field : ∃ out,
    vsnprintf noParts 8 (ofString "v=%5s") [.str (ofString "ab")] = some out ∧ Bounded 8 out := by
  have hmatch : pieces noParts (cstr (ofString "v=%5s")) [.str (ofString "ab")] =
      some [.char (ch 'v'), .char (ch '='), .text (ofString "ab") ⟨plain, 5, 0⟩] :=
    pieces_cons rfl (pieces_cons rfl (pieces_cons rfl (pieces_nil [])))
  refine (vsnprintf_bounded_iff noParts 8 _ _ _ (by decide) hmatch).mpr ⟨?_, by decide⟩
  simp only [List.forall_mem_cons, Piece.Vanishes, not_false_eq_true, true_and]
  exact fun _ hmem => absurd hmem List.not_mem_nil

/-- The space in front of a character fills the buffer, and the character goes behind it. -/
theorem wideChar_behind : ¬ ∃ out,
    vsnprintf noParts 1 (ofString "%2c") [.int 65] = some out ∧ Bounded 1 out := by
  rintro ⟨out, hloop, hbounded⟩
  have hmatch : pieces noParts (cstr (ofString "%2c")) [.int 65] =
      some [.padded 65 ⟨plain, 2, 0⟩] :=
    pieces_cons rfl (pieces_nil [])
  have hbad : ¬ ((∀ piece ∈ [Piece.padded 65 ⟨plain, 2, 0⟩], ¬ piece.Vanishes) ∧
      0 + ([Piece.padded 65 ⟨plain, 2, 0⟩].map Piece.length).sum < 1) :=
    fun h => absurd h.2 (by decide)
  exact hbounded.not_over (vsnLoop_over (by decide) hmatch filled_start hbad hloop)

end Sv6x66.Libc.Vsnprintf
