import Mathlib.Tactic

/-! The keys of `tuya_key.c`: a timer samples each of them, and `__key_ent_proc` makes
presses, sequences of presses and long presses of the samples. -/
namespace Sv6x66.Tylink.TuyaKey

/-- `KEY_STAT_E` -/
inductive KeyStat where
  | keyDown | keyDownConfirm | keyDownning | keyUpConfirm | keyUping | keyFinish
  deriving DecidableEq

/-- `PUSH_KEY_TYPE_E` -/
inductive PushKeyType where
  | normalKey | seqKey | longKey
  deriving DecidableEq

/-- `KEY_LONG_PRESS_TP_E` -/
inductive KeyLongPressTp where
  | lpInvalid | lpOnceTrig | lpMoreNormalTrig
  deriving DecidableEq

structure KeyUserDef where
  port : Nat
  lowLevelDetect : Bool
  lpTp : KeyLongPressTp
  longKeyTime : UInt16
  seqKeyDetectTime : UInt16

structure KeyEntity where
  kud : KeyUserDef
  status : KeyStat
  longKeyPress : Bool
  keyValLast : Bool
  downTime : Int32
  upTime : Int32
  seqKeyCnt : Int32

/-- A call of `call_back`. -/
structure KeyCall where
  port : Nat
  type : PushKeyType
  cnt : Int32
  deriving DecidableEq

def tuyaKeyDownVerify (kud : KeyUserDef) (gpioStat : Bool) : Bool :=
  if kud.lowLevelDetect = false then gpioStat else !gpioStat

def keyDownContTrigTimeMs : Int := 300

/-- The call and the end of `KEY_UPING` behind the `if` that sets `KEY_FINISH`. -/
def keyFinished (key : KeyEntity) : KeyEntity × List KeyCall :=
  let key := if key.seqKeyCnt ≠ 0 then { key with seqKeyCnt := key.seqKeyCnt + 1 } else key
  let call : KeyCall := if key.seqKeyCnt > 1 then ⟨key.kud.port, .seqKey, key.seqKeyCnt⟩
    else ⟨key.kud.port, .normalKey, 0⟩
  (if key.kud.lpTp = .lpOnceTrig then { key with longKeyPress := false } else key, [call])

/-- `__key_ent_proc` with the level that `tuya_gpio_read` finds; two states do not look at it.
`timerSpace` is that of `key_mag`. -/
def keyEntProc (timerSpace : Int32) (key : KeyEntity) (gpioStat : Bool) :
    KeyEntity × List KeyCall :=
  let keyVal := tuyaKeyDownVerify key.kud gpioStat
  match key.status with
  | .keyDown =>
    let key := if keyVal ∧ ¬ key.keyValLast then
      { key with status := .keyDownConfirm, keyValLast := true }
      else { key with keyValLast := keyVal }
    ({ key with downTime := 0, upTime := 0, seqKeyCnt := 0 }, [])
  | .keyDownConfirm =>
    if keyVal then ({ key with status := .keyDownning }, [])
    else ({ key with status := .keyDown, downTime := 0 }, [])
  | .keyDownning =>
    if keyVal then
      let key := { key with downTime := key.downTime + timerSpace }
      if key.kud.lpTp = .lpOnceTrig ∧ key.downTime.toInt ≥ key.kud.longKeyTime.toNat ∧
          key.longKeyPress = false then
        ({ key with longKeyPress := true }, [⟨key.kud.port, .longKey, 0⟩])
      else if key.kud.lpTp = .lpMoreNormalTrig ∧ key.downTime.toInt ≥ keyDownContTrigTimeMs then
        ({ key with downTime := 0 }, [⟨key.kud.port, .normalKey, 0⟩])
      else (key, [])
    else ({ key with status := .keyUpConfirm, upTime := 0 }, [])
  | .keyUpConfirm =>
    if keyVal = false then ({ key with status := .keyUping }, [])
    else ({ key with downTime := key.downTime + timerSpace, status := .keyDownning }, [])
  | .keyUping =>
    let key := if keyVal = false then
      let key := { key with
        upTime := if key.upTime = 0 then timerSpace * 2 else key.upTime + timerSpace }
      if key.upTime.toInt ≥ key.kud.seqKeyDetectTime.toNat then { key with status := .keyFinish }
      else key
      else if key.upTime.toInt ≥ key.kud.seqKeyDetectTime.toNat then
        { key with status := .keyFinish }
      else { key with status := .keyDownConfirm, upTime := 0, seqKeyCnt := key.seqKeyCnt + 1 }
    if key.status = .keyFinish then keyFinished key else (key, [])
  | .keyFinish => ({ key with status := .keyDown }, [])

/-- The timer goes on and on. -/
def keyRun (timerSpace : Int32) : KeyEntity → List Bool → KeyEntity × List KeyCall
  | key, [] => (key, [])
  | key, gpioStat :: later =>
    let now := keyEntProc timerSpace key gpioStat
    let rest := keyRun timerSpace now.1 later
    (rest.1, now.2 ++ rest.2)

/-! ### Gestures -/

/-- A sample of a key held down, or one that finds it released and the next one that does
not. -/
inductive Touch where
  | hold | glitch
  deriving DecidableEq

def Touch.samples : Touch → List Bool
  | .hold => [true]
  | .glitch => [false, true]

/-- Two samples confirm a press. -/
def press (touches : List Touch) : List Bool := [true, true] ++ touches.flatMap Touch.samples

/-- A press, more of them each after a number of samples that find the key released, and the
samples behind the last one. -/
structure Gesture where
  first : List Touch
  more : List (Nat × List Touch)
  rest : Nat

def Gesture.samples (g : Gesture) : List Bool :=
  press g.first ++
    g.more.flatMap (fun (gap, touches) => List.replicate gap false ++ press touches) ++
    List.replicate g.rest false

def Gesture.touches (g : Gesture) : List Touch := g.first ++ g.more.flatMap (·.2)

/-- `up_time` after as many samples; the first two count for nothing. -/
def released (space samples : Nat) : Nat := if samples ≤ 2 then 0 else (samples - 1) * space

/-- The gaps end the press but not the sequence, the rest ends it; two more samples make the
key ready for the next gesture. No time comes to `2 ^ 31` ms. -/
structure Gesture.Clear (kud : KeyUserDef) (space : Nat) (g : Gesture) : Prop where
  gaps : ∀ later ∈ g.more, 2 ≤ later.1 ∧ released space later.1 < kud.seqKeyDetectTime.toNat
  rest : 5 ≤ g.rest ∧ kud.seqKeyDetectTime.toNat ≤ released space (g.rest - 2)
  clean : kud.lpTp = .lpMoreNormalTrig → Touch.glitch ∉ g.touches
  bound : (g.touches.length + g.more.length + 2) * space < 2 ^ 31

/-- The touches up to the last sample that finds the key held. -/
def heldFor : List Touch → Nat
  | [] => 0
  | .hold :: later => heldFor later + 1
  | .glitch :: later => if heldFor later = 0 then 0 else heldFor later + 1

/-- The calls while the key is held. -/
def heldCalls (kud : KeyUserDef) (space : Nat) (touches : List Touch) : List KeyCall :=
  match kud.lpTp with
  | .lpInvalid => []
  | .lpOnceTrig =>
    if heldFor touches ≠ 0 ∧ kud.longKeyTime.toNat ≤ heldFor touches * space then
      [⟨kud.port, .longKey, 0⟩] else []
  | .lpMoreNormalTrig =>
    List.replicate (touches.length / ((300 + space - 1) / space)) ⟨kud.port, .normalKey, 0⟩

/-- The call at the end. -/
def lastCall (kud : KeyUserDef) (g : Gesture) : KeyCall :=
  if g.more = [] then ⟨kud.port, .normalKey, 0⟩
  else ⟨kud.port, .seqKey, Int32.ofNat (g.more.length + 1)⟩

/-- What `tuya_gpio_read` finds. -/
def level (kud : KeyUserDef) (keyVal : Bool) : Bool :=
  if kud.lowLevelDetect = false then keyVal else !keyVal

/-- The key was released, and no gesture is begun. -/
structure Ready (kud : KeyUserDef) (long : Bool) (key : KeyEntity) : Prop where
  kud : key.kud = kud
  status : key.status = .keyDown
  keyValLast : key.keyValLast = false
  longKeyPress : key.longKeyPress = long

/-! ### Samples -/

variable {kud : KeyUserDef} {space units cnt : Nat} {long : Bool} {key : KeyEntity}
  {status : KeyStat}

@[simp] theorem verify_level (kud : KeyUserDef) (keyVal : Bool) :
    tuyaKeyDownVerify kud (level kud keyVal) = keyVal := by
  unfold tuyaKeyDownVerify level
  split
  · rfl
  · exact Bool.not_not keyVal

theorem keyRun_append (timerSpace : Int32) (key : KeyEntity) (first later : List Bool) :
    keyRun timerSpace key (first ++ later) =
      let front := keyRun timerSpace key first
      let back := keyRun timerSpace front.1 later
      (back.1, front.2 ++ back.2) := by
  induction first generalizing key with
  | nil => rfl
  | cons gpioStat first ih => simp [keyRun, ih, List.append_assoc]

/-- The samples lead from one key to the other with these calls. -/
def Goes (space : Nat) (key : KeyEntity) (samples : List Bool) (calls : List KeyCall)
    (key' : KeyEntity) : Prop :=
  keyRun (Int32.ofNat space) key (samples.map (level key.kud)) = (key', calls)

theorem Goes.append {key' key'' : KeyEntity} {first later : List Bool}
    {calls calls' : List KeyCall} (h : Goes space key first calls key')
    (hkud : key'.kud = key.kud) (h' : Goes space key' later calls' key'') :
    Goes space key (first ++ later) (calls ++ calls') key'' := by
  unfold Goes at *
  rw [hkud] at h'
  rw [List.map_append, keyRun_append, h]
  dsimp only
  rw [h']

theorem toInt_ofNat {n : Nat} (h : n < 2 ^ 31) : (Int32.ofNat n).toInt = n :=
  Int32.toInt_ofNat_of_lt h

theorem ofNat_eq_zero {n : Nat} (h : n < 2 ^ 31) : Int32.ofNat n = 0 ↔ n = 0 := by
  rw [← Int32.toInt_inj, toInt_ofNat h]
  exact Int.natCast_eq_zero

/-! ### A press -/

/-- A key in the middle of a gesture, after `cnt` presses before this one and as many samples
of the key being held as `units`. -/
structure Stands (kud : KeyUserDef) (space : Nat) (status : KeyStat) (units : Nat) (long : Bool)
    (cnt : Nat) (key : KeyEntity) : Prop where
  kud : key.kud = kud
  status : key.status = status
  keyValLast : key.keyValLast = true
  downTime : key.downTime = Int32.ofNat (units * space)
  longKeyPress : key.longKeyPress = long
  seqKeyCnt : key.seqKeyCnt = Int32.ofNat cnt

theorem Goes.single {keyVal : Bool} {calls : List KeyCall} {key' : KeyEntity}
    (h : keyEntProc (Int32.ofNat space) key (level key.kud keyVal) = (key', calls)) :
    Goes space key [keyVal] calls key' := by
  rw [Goes, List.map_singleton, keyRun, h]
  dsimp only
  rw [keyRun, List.append_nil]

theorem Ready.confirm (h : Ready kud long key) (space : Nat) :
    ∃ key', Goes space key [true, true] [] key' ∧
    Stands kud space .keyDownning 0 long 0 key' := by
  obtain rfl := h.kud
  refine ⟨{ key with
    status := .keyDownning, keyValLast := true, downTime := 0, upTime := 0, seqKeyCnt := 0 },
    ?_, ?_⟩
  · simp [Goes, keyRun, keyEntProc, h.status, h.keyValLast]
  · constructor <;> simp [h.longKeyPress]

/-- What a touch does to the time and the flag of the long press. -/
def hold (kud : KeyUserDef) (space : Nat) (held : Nat × Bool) : Touch → (Nat × Bool) × List KeyCall
  | .hold =>
    if kud.lpTp = .lpOnceTrig ∧ kud.longKeyTime.toNat ≤ (held.1 + 1) * space ∧ held.2 = false then
      ((held.1 + 1, true), [⟨kud.port, .longKey, 0⟩])
    else if kud.lpTp = .lpMoreNormalTrig ∧ 300 ≤ (held.1 + 1) * space then
      ((0, held.2), [⟨kud.port, .normalKey, 0⟩])
    else ((held.1 + 1, held.2), [])
  | .glitch => ((held.1 + 1, held.2), [])

theorem Stands.touch (h : Stands kud space .keyDownning units long cnt key)
    (hbound : (units + 1) * space < 2 ^ 31) (touch : Touch) :
    ∃ key', Goes space key touch.samples (hold kud space (units, long) touch).2 key' ∧
      Stands kud space .keyDownning (hold kud space (units, long) touch).1.1
        (hold kud space (units, long) touch).1.2 cnt key' := by
  obtain rfl := h.kud
  have hadd : key.downTime + Int32.ofNat space = Int32.ofNat ((units + 1) * space) := by
    rw [h.downTime, ← Int32.ofNat_add, Nat.succ_mul]
  have hint := toInt_ofNat hbound
  have htrig : keyDownContTrigTimeMs ≤ ((units + 1) * space : Nat) ↔ 300 ≤ (units + 1) * space :=
    Nat.cast_le (m := 300)
  cases touch with
  | glitch =>
    refine ⟨{ key with
      status := .keyDownning, upTime := 0, downTime := Int32.ofNat ((units + 1) * space) }, ?_, ?_⟩
    · simp [Goes, Touch.samples, keyRun, keyEntProc, h.status, hadd, hold, -Int32.ofNat_mul]
    · exact ⟨rfl, rfl, h.keyValLast, rfl, h.longKeyPress, h.seqKeyCnt⟩
  | hold =>
    by_cases hlong : key.kud.lpTp = .lpOnceTrig ∧
        key.kud.longKeyTime.toNat ≤ (units + 1) * space ∧ long = false
    · rw [hold, if_pos hlong]
      refine ⟨{ key with
        longKeyPress := true, downTime := Int32.ofNat ((units + 1) * space) }, .single ?_, ?_⟩
      · simp only [keyEntProc, h.status, verify_level, hadd, hint, h.longKeyPress, ge_iff_le,
          Nat.cast_le, if_true]
        rw [if_pos hlong]
      · exact ⟨rfl, h.status, h.keyValLast, rfl, rfl, h.seqKeyCnt⟩
    · by_cases hmore : key.kud.lpTp = .lpMoreNormalTrig ∧ 300 ≤ (units + 1) * space
      · rw [hold, if_neg hlong, if_pos hmore]
        refine ⟨{ key with downTime := 0 }, .single ?_, ?_⟩
        · simp only [keyEntProc, h.status, verify_level, hadd, hint, h.longKeyPress, ge_iff_le,
            Nat.cast_le, if_true]
          rw [if_neg hlong, if_pos ⟨hmore.1, htrig.mpr hmore.2⟩]
        · exact ⟨rfl, h.status, h.keyValLast, by simp, h.longKeyPress, h.seqKeyCnt⟩
      · rw [hold, if_neg hlong, if_neg hmore]
        refine ⟨{ key with downTime := Int32.ofNat ((units + 1) * space) }, .single ?_, ?_⟩
        · simp only [keyEntProc, h.status, verify_level, hadd, hint, h.longKeyPress, ge_iff_le,
            Nat.cast_le, if_true]
          rw [if_neg hlong, if_neg fun hboth => hmore ⟨hboth.1, htrig.mp hboth.2⟩]
        · exact ⟨rfl, h.status, h.keyValLast, rfl, h.longKeyPress, h.seqKeyCnt⟩

/-- The touches of a press, one by one. -/
def holdAll (kud : KeyUserDef) (space : Nat) :
    Nat × Bool → List Touch → (Nat × Bool) × List KeyCall
  | held, [] => (held, [])
  | held, touch :: later =>
    let now := hold kud space held touch
    let rest := holdAll kud space now.1 later
    (rest.1, now.2 ++ rest.2)

theorem hold_fst_le (kud : KeyUserDef) (space : Nat) (held : Nat × Bool) (touch : Touch) :
    (hold kud space held touch).1.1 ≤ held.1 + 1 := by
  unfold hold
  split
  · split
    · exact le_rfl
    · split
      · exact Nat.zero_le _
      · exact le_rfl
  · exact le_rfl

theorem holdAll_append (kud : KeyUserDef) (space : Nat) (held : Nat × Bool)
    (first later : List Touch) :
    holdAll kud space held (first ++ later) =
      let front := holdAll kud space held first
      let back := holdAll kud space front.1 later
      (back.1, front.2 ++ back.2) := by
  induction first generalizing held with
  | nil => rfl
  | cons touch first ih => simp [holdAll, ih, List.append_assoc]

theorem holdAll_fst_le (kud : KeyUserDef) (space : Nat) (held : Nat × Bool)
    (touches : List Touch) : (holdAll kud space held touches).1.1 ≤ held.1 + touches.length := by
  induction touches generalizing held with
  | nil => exact le_rfl
  | cons touch later ih =>
    have hnow := hold_fst_le kud space held touch
    have hrest := ih (hold kud space held touch).1
    rw [List.length_cons]
    exact hrest.trans (by omega)

theorem Stands.touches (h : Stands kud space .keyDownning units long cnt key)
    (touches : List Touch) (hbound : (units + touches.length) * space < 2 ^ 31) :
    ∃ key', Goes space key (touches.flatMap Touch.samples)
        (holdAll kud space (units, long) touches).2 key' ∧
      Stands kud space .keyDownning (holdAll kud space (units, long) touches).1.1
        (holdAll kud space (units, long) touches).1.2 cnt key' := by
  induction touches generalizing units long key with
  | nil => exact ⟨key, rfl, h⟩
  | cons touch later ih =>
    rw [List.length_cons] at hbound
    have hnow : (units + 1) * space < 2 ^ 31 :=
      (Nat.mul_le_mul_right space (by omega)).trans_lt hbound
    obtain ⟨middle, hgoes, hstands⟩ := h.touch hnow touch
    have hle := hold_fst_le kud space (units, long) touch
    have hlater : ((hold kud space (units, long) touch).1.1 + later.length) * space < 2 ^ 31 :=
      (Nat.mul_le_mul_right space (by dsimp only at hle; omega)).trans_lt hbound
    obtain ⟨key', hgoes', hstands'⟩ := ih hstands hlater
    rw [List.flatMap_cons]
    exact ⟨key', hgoes.append (hstands.kud.trans h.kud.symm) hgoes', hstands'⟩

/-! ### The samples that find the key released -/

/-- The key is released in the middle of a gesture. -/
structure Up (kud : KeyUserDef) (space : Nat) (units : Nat) (long : Bool) (cnt samples : Nat)
    (key : KeyEntity) : Prop extends Stands kud space .keyUping units long cnt key where
  upTime : key.upTime = Int32.ofNat (released space samples)

theorem released_two (space : Nat) : released space 2 = 0 := rfl

theorem released_succ (space : Nat) {samples : Nat} (h : 2 ≤ samples) :
    released space (samples + 1) = samples * space := by
  rw [released, if_neg (by omega), Nat.add_sub_cancel]

theorem Stands.release (h : Stands kud space .keyDownning units long cnt key) :
    ∃ key', Goes space key [false, false] [] key' ∧ Up kud space units long cnt 2 key' := by
  obtain rfl := h.kud
  refine ⟨{ key with status := .keyUping, upTime := 0 }, ?_, ?_⟩
  · simp [Goes, keyRun, keyEntProc, h.status]
  · exact ⟨⟨rfl, rfl, h.keyValLast, h.downTime, h.longKeyPress, h.seqKeyCnt⟩, rfl⟩

theorem Up.again {samples : Nat} (h : Up kud space units long cnt samples key)
    (hgap : released space samples < kud.seqKeyDetectTime.toNat) :
    ∃ key', Goes space key [true, true] [] key' ∧
      Stands kud space .keyDownning units long (cnt + 1) key' := by
  obtain rfl := h.kud
  have hseq := key.kud.seqKeyDetectTime.toNat_lt
  have hearly : ¬ key.upTime.toInt ≥ key.kud.seqKeyDetectTime.toNat := by
    rw [h.upTime, toInt_ofNat (by omega)]
    omega
  have hcnt : key.seqKeyCnt + 1 = Int32.ofNat (cnt + 1) := by
    rw [h.seqKeyCnt, Int32.ofNat_add]
    rfl
  have hfirst : Goes space key [true] [] { key with
      status := .keyDownConfirm, upTime := 0, seqKeyCnt := Int32.ofNat (cnt + 1) } := by
    apply Goes.single
    simp only [keyEntProc, h.status, verify_level, if_neg hearly, hcnt]
    rfl
  refine ⟨{ key with
    status := .keyDownning, upTime := 0, seqKeyCnt := Int32.ofNat (cnt + 1) }, ?_, ?_⟩
  · refine hfirst.append rfl (.single ?_)
    simp only [keyEntProc, verify_level, if_true]
  · exact ⟨rfl, rfl, h.keyValLast, h.downTime, h.longKeyPress, rfl⟩

theorem Up.next {samples : Nat} (h : Up kud space units long cnt samples key)
    (hspace : 0 < space) (hsamples : 2 ≤ samples) (hbound : samples * space < 2 ^ 31) :
    (if key.upTime = 0 then Int32.ofNat space * 2 else key.upTime + Int32.ofNat space) =
      Int32.ofNat (released space (samples + 1)) := by
  rw [released_succ space hsamples, h.upTime]
  obtain rfl | hmore := Nat.eq_or_lt_of_le hsamples
  · rw [released_two, Nat.mul_comm, Int32.ofNat_mul]
    rfl
  · obtain ⟨n, rfl⟩ := Nat.exists_eq_add_of_lt hmore
    have hthis : released space (2 + n + 1) = (2 + n) * space := released_succ space (by omega)
    have hpos : 0 < (2 + n) * space := Nat.mul_pos (by omega) hspace
    have hle : (2 + n) * space ≤ (2 + n + 1) * space := Nat.mul_le_mul_right _ (by omega)
    rw [hthis, if_neg fun hzero => by
      have := (ofNat_eq_zero (by omega)).mp hzero
      omega]
    rw [← Int32.ofNat_add, Nat.succ_mul]

/-- The call at the end of a gesture. -/
def callAfter (kud : KeyUserDef) (cnt : Nat) : KeyCall :=
  if cnt = 0 then ⟨kud.port, .normalKey, 0⟩ else ⟨kud.port, .seqKey, Int32.ofNat (cnt + 1)⟩

theorem keyFinished_eq (h : key.seqKeyCnt = Int32.ofNat cnt) (hcnt : cnt + 1 < 2 ^ 31) :
    ∃ key', keyFinished key = (key', [callAfter key.kud cnt]) ∧ key'.kud = key.kud ∧
      key'.status = key.status ∧
      key'.longKeyPress = if key.kud.lpTp = .lpOnceTrig then false else key.longKeyPress := by
  by_cases hzero : cnt = 0
  · subst hzero
    have hnone : key.seqKeyCnt = 0 := h
    have hone : ¬ (0 : Int32) > 1 := by decide
    simp only [keyFinished, hnone, ne_eq, not_true_eq_false, if_false, if_neg hone]
    rw [callAfter, if_pos rfl]
    refine ⟨_, rfl, ?_⟩
    split <;> exact ⟨rfl, rfl, rfl⟩
  · have hne : Int32.ofNat cnt ≠ 0 := fun heq => hzero ((ofNat_eq_zero (by omega)).mp heq)
    have hnext : Int32.ofNat cnt + 1 = Int32.ofNat (cnt + 1) := (Int32.ofNat_add cnt 1).symm
    have hmany : Int32.ofNat (cnt + 1) > 1 := by
      rw [gt_iff_lt, Int32.lt_iff_toInt_lt, toInt_ofNat hcnt]
      change (1 : Int) < _
      omega
    rw [keyFinished, h, callAfter, if_neg hzero, if_pos hne]
    dsimp only
    rw [hnext, if_pos hmany]
    refine ⟨_, rfl, ?_⟩
    split <;> exact ⟨rfl, rfl, rfl⟩

theorem Up.wait {samples : Nat} (h : Up kud space units long cnt samples key)
    (hspace : 0 < space) (hsamples : 2 ≤ samples) (hbound : samples * space < 2 ^ 31)
    (hearly : released space (samples + 1) < kud.seqKeyDetectTime.toNat) :
    ∃ key', Goes space key [false] [] key' ∧ Up kud space units long cnt (samples + 1) key' := by
  obtain rfl := h.kud
  have hnext := h.next hspace hsamples hbound
  have hint : ¬ (Int32.ofNat (released space (samples + 1))).toInt ≥
      key.kud.seqKeyDetectTime.toNat := by
    rw [toInt_ofNat (by rw [released_succ space hsamples]; exact hbound)]
    omega
  refine ⟨{ key with upTime := Int32.ofNat (released space (samples + 1)) }, .single ?_, ?_⟩
  · simp only [keyEntProc, h.status, verify_level, if_true, hnext, if_neg hint]
    rw [if_neg (by decide)]
  · exact ⟨⟨rfl, h.status, h.keyValLast, h.downTime, h.longKeyPress, h.seqKeyCnt⟩, rfl⟩

theorem Up.finish {samples : Nat} (h : Up kud space units long cnt samples key)
    (hspace : 0 < space) (hsamples : 2 ≤ samples) (hbound : samples * space < 2 ^ 31)
    (hcnt : cnt + 1 < 2 ^ 31) (hlate : kud.seqKeyDetectTime.toNat ≤ released space (samples + 1)) :
    ∃ key', Goes space key [false] [callAfter kud cnt] key' ∧ key'.kud = kud ∧
      key'.status = .keyFinish ∧
      key'.longKeyPress = if kud.lpTp = .lpOnceTrig then false else long := by
  obtain rfl := h.kud
  have hnext := h.next hspace hsamples hbound
  have hint : (Int32.ofNat (released space (samples + 1))).toInt ≥
      key.kud.seqKeyDetectTime.toNat := by
    rw [toInt_ofNat (by rw [released_succ space hsamples]; exact hbound)]
    omega
  have hcount : ({ key with
      upTime := Int32.ofNat (released space (samples + 1)), status := .keyFinish } :
      KeyEntity).seqKeyCnt = Int32.ofNat cnt := h.seqKeyCnt
  obtain ⟨key', hfinished, hkud, hstatus, hlong⟩ := keyFinished_eq hcount hcnt
  refine ⟨key', .single ?_, hkud, hstatus, ?_⟩
  · simp only [keyEntProc, h.status, verify_level, if_true, hnext, if_pos hint]
    exact hfinished
  · rw [hlong, ← h.longKeyPress]

/-! ### Gestures -/

theorem Ready.idle (h : Ready kud long key) (space n : Nat) :
    ∃ key', Goes space key (List.replicate n false) [] key' ∧ Ready kud long key' := by
  induction n generalizing key with
  | zero => exact ⟨key, rfl, h⟩
  | succ n ih =>
    obtain rfl := h.kud
    have hnow : Goes space key [false] []
        { key with keyValLast := false, downTime := 0, upTime := 0, seqKeyCnt := 0 } := by
      apply Goes.single
      simp [keyEntProc, h.status]
    have hkept : Ready key.kud long
        { key with keyValLast := false, downTime := 0, upTime := 0, seqKeyCnt := 0 } :=
      ⟨rfl, h.status, rfl, h.longKeyPress⟩
    obtain ⟨key', hgoes, hready⟩ := ih hkept
    exact ⟨key', hnow.append rfl hgoes, hready⟩

/-- After its end a gesture takes two more samples. -/
theorem ready_of_finish (hkud : key.kud = kud) (hstatus : key.status = .keyFinish)
    (hlong : key.longKeyPress = false) (space n : Nat) :
    ∃ key', Goes space key (List.replicate (n + 2) false) [] key' ∧ Ready kud false key' := by
  obtain rfl := hkud
  have hnow : Goes space key [false, false] []
      { key with
        status := .keyDown, keyValLast := false, downTime := 0, upTime := 0, seqKeyCnt := 0 } := by
    simp [Goes, keyRun, keyEntProc, hstatus]
  have hidle : Ready key.kud false { key with
      status := .keyDown, keyValLast := false, downTime := 0, upTime := 0, seqKeyCnt := 0 } :=
    ⟨rfl, rfl, rfl, hlong⟩
  obtain ⟨key', hgoes, hready⟩ := hidle.idle space n
  exact ⟨key', hnow.append rfl hgoes, hready⟩

theorem released_le (space : Nat) {m n : Nat} (h : m ≤ n) :
    released space m ≤ released space n := by
  unfold released
  split
  · exact Nat.zero_le _
  · rw [if_neg (by omega)]
    exact Nat.mul_le_mul_right _ (by omega)

theorem samples_lt {kud : KeyUserDef} {samples : Nat} (hspace : 0 < space ∧ space ≤ 100)
    (h : samples = 2 ∨ released space samples < kud.seqKeyDetectTime.toNat) :
    samples * space < 2 ^ 31 := by
  have hseq := kud.seqKeyDetectTime.toNat_lt
  by_cases hshort : samples ≤ 2
  · have := Nat.mul_le_mul_right space hshort
    omega
  · rw [released, if_neg hshort] at h
    have hsplit : samples * space = (samples - 1) * space + space := by
      rw [← Nat.succ_mul]
      congr 1
      omega
    omega

theorem Stands.gap (h : Stands kud space .keyDownning units long cnt key)
    (hspace : 0 < space ∧ space ≤ 100) {gap : Nat} (hgap : 2 ≤ gap)
    (hearly : released space gap < kud.seqKeyDetectTime.toNat) :
    ∃ key', Goes space key (List.replicate gap false) [] key' ∧
      Up kud space units long cnt gap key' := by
  induction gap, hgap using Nat.le_induction with
  | base => exact h.release
  | succ gap hgap ih =>
    have hbefore : released space gap < kud.seqKeyDetectTime.toNat :=
      (released_le space (Nat.le_succ gap)).trans_lt hearly
    obtain ⟨middle, hgoes, hup⟩ := ih hbefore
    obtain ⟨key', hgoes', hup'⟩ :=
      hup.wait hspace.1 hgap (samples_lt hspace (.inr hbefore)) hearly
    rw [List.replicate_succ']
    exact ⟨key', hgoes.append (hup.kud.trans h.kud.symm) hgoes', hup'⟩

/-- The gesture ends with the first sample that is late enough, two before the last at the
latest. -/
theorem Up.ends {samples n rest : Nat} (h : Up kud space units long cnt samples key)
    (hspace : 0 < space ∧ space ≤ 100) (hsamples : 2 ≤ samples)
    (hearly : samples = 2 ∨ released space samples < kud.seqKeyDetectTime.toNat)
    (hcnt : cnt + 1 < 2 ^ 31) (hrest : samples + n = rest) (hmin : 5 ≤ rest)
    (hlate : kud.seqKeyDetectTime.toNat ≤ released space (rest - 2))
    (hlong : long = true → kud.lpTp = .lpOnceTrig) :
    ∃ key', Goes space key (List.replicate n false) [callAfter kud cnt] key' ∧
      Ready kud false key' := by
  have hmore : samples < rest - 2 := by
    obtain rfl | hbefore := hearly
    · omega
    · by_contra hle
      have := released_le space (not_lt.mp hle)
      omega
  have hbound := samples_lt hspace hearly
  obtain ⟨n, rfl⟩ : ∃ m, n = m + 1 := ⟨n - 1, by omega⟩
  rw [List.replicate_succ]
  induction n generalizing samples key with
  | zero => omega
  | succ n ih =>
    by_cases hnext : released space (samples + 1) < kud.seqKeyDetectTime.toNat
    · obtain ⟨middle, hgoes, hup⟩ := h.wait hspace.1 hsamples hbound hnext
      have hfurther : samples + 1 < rest - 2 := by
        by_contra hle
        have := released_le space (not_lt.mp hle)
        omega
      obtain ⟨key', hgoes', hready⟩ := ih hup (by omega) (.inr hnext) hfurther
        (samples_lt hspace (.inr hnext)) (by omega)
      rw [List.replicate_succ]
      exact ⟨key', hgoes.append (hup.kud.trans h.kud.symm) hgoes', hready⟩
    · obtain ⟨middle, hgoes, hkud, hstatus, hpress⟩ :=
        h.finish hspace.1 hsamples hbound hcnt (not_lt.mp hnext)
      have hclear : middle.longKeyPress = false := by
        rw [hpress]
        split
        · rfl
        · cases long
          · rfl
          · exact absurd (hlong rfl) ‹_›
      obtain ⟨m, rfl⟩ : ∃ m, n = m + 1 := ⟨n - 1, by omega⟩
      obtain ⟨key', hgoes', hready⟩ := ready_of_finish hkud hstatus hclear space m
      exact ⟨key', hgoes.append (hkud.trans h.kud.symm) hgoes', hready⟩

theorem hold_long (kud : KeyUserDef) (space : Nat) {held : Nat × Bool} (touch : Touch)
    (h : held.2 = true → kud.lpTp = .lpOnceTrig) :
    (hold kud space held touch).1.2 = true → kud.lpTp = .lpOnceTrig := by
  unfold hold
  split
  · split
    · rename_i hlong
      exact fun _ => hlong.1
    · split <;> exact h
  · exact h

theorem holdAll_long (kud : KeyUserDef) (space : Nat) {held : Nat × Bool} (touches : List Touch)
    (h : held.2 = true → kud.lpTp = .lpOnceTrig) :
    (holdAll kud space held touches).1.2 = true → kud.lpTp = .lpOnceTrig := by
  induction touches generalizing held with
  | nil => exact h
  | cons touch later ih => exact ih (hold_long kud space touch h)

/-- The further presses of a gesture. -/
theorem Stands.presses (h : Stands kud space .keyDownning units long cnt key)
    (hspace : 0 < space ∧ space ≤ 100) {more : List (Nat × List Touch)}
    (hgaps : ∀ later ∈ more, 2 ≤ later.1 ∧
      released space later.1 < kud.seqKeyDetectTime.toNat)
    (hbound : (units + (more.flatMap (·.2)).length) * space < 2 ^ 31) :
    ∃ key', Goes space key
        (more.flatMap fun (gap, touches) => List.replicate gap false ++ press touches)
        (holdAll kud space (units, long) (more.flatMap (·.2))).2 key' ∧
      Stands kud space .keyDownning (holdAll kud space (units, long) (more.flatMap (·.2))).1.1
        (holdAll kud space (units, long) (more.flatMap (·.2))).1.2 (cnt + more.length) key' := by
  induction more generalizing units long cnt key with
  | nil => exact ⟨key, rfl, h⟩
  | cons later more ih =>
    obtain ⟨gap, touches⟩ := later
    obtain ⟨hgap, hearly⟩ := hgaps _ List.mem_cons_self
    rw [List.flatMap_cons, List.length_append] at hbound
    have hthis : (units + touches.length) * space < 2 ^ 31 :=
      (Nat.mul_le_mul_right space (by dsimp only; omega)).trans_lt hbound
    obtain ⟨key₁, hgoes₁, hup⟩ := h.gap hspace hgap hearly
    obtain ⟨key₂, hgoes₂, hdown⟩ := hup.again hearly
    obtain ⟨key₃, hgoes₃, hheld⟩ := hdown.touches touches hthis
    have hle := holdAll_fst_le kud space (units, long) touches
    have hlater : ((holdAll kud space (units, long) touches).1.1 +
        (more.flatMap (·.2)).length) * space < 2 ^ 31 :=
      (Nat.mul_le_mul_right space (by dsimp only at hle ⊢; omega)).trans_lt hbound
    obtain ⟨key₄, hgoes₄, hlast⟩ := ih hheld
      (fun later hlater => hgaps later (List.mem_cons_of_mem _ hlater)) hlater
    have hkud₁ := hup.kud.trans h.kud.symm
    have hkud₂ := hdown.kud.trans h.kud.symm
    have hkud₃ := hheld.kud.trans h.kud.symm
    refine ⟨key₄, ?_, ?_⟩
    · have hall := ((hgoes₁.append hkud₁ hgoes₂).append hkud₂ hgoes₃).append hkud₃ hgoes₄
      rw [List.flatMap_cons, List.flatMap_cons, holdAll_append]
      simpa [press, List.append_assoc] using hall
    · rw [List.flatMap_cons, holdAll_append, List.length_cons,
        show cnt + (more.length + 1) = cnt + 1 + more.length by omega]
      exact hlast

/-! ### The calls of a gesture -/

variable {g : Gesture}

theorem holdAll_once_long (honce : kud.lpTp = .lpOnceTrig) (units : Nat) (touches : List Touch) :
    (holdAll kud space (units, true) touches).2 = [] := by
  induction touches generalizing units with
  | nil => rfl
  | cons touch later ih =>
    have hnow : hold kud space (units, true) touch = ((units + 1, true), []) := by
      cases touch <;> simp [hold, honce]
    rw [holdAll, hnow]
    exact ih (units + 1)

theorem holdAll_once (honce : kud.lpTp = .lpOnceTrig) (units : Nat) (touches : List Touch) :
    (holdAll kud space (units, false) touches).2 =
      if heldFor touches ≠ 0 ∧ kud.longKeyTime.toNat ≤ (units + heldFor touches) * space then
        [⟨kud.port, .longKey, 0⟩] else [] := by
  induction touches generalizing units with
  | nil => rfl
  | cons touch later ih =>
    have hshift : units + 1 + heldFor later = units + (heldFor later + 1) := by omega
    cases touch with
    | glitch =>
      have hnow : hold kud space (units, false) .glitch = ((units + 1, false), []) := rfl
      rw [holdAll, hnow]
      dsimp only
      rw [ih, hshift, heldFor, List.nil_append]
      by_cases hnone : heldFor later = 0
      · simp [hnone]
      · simp [hnone]
    | hold =>
      by_cases hlong : kud.longKeyTime.toNat ≤ (units + 1) * space
      · have hnow : hold kud space (units, false) .hold =
            ((units + 1, true), [⟨kud.port, .longKey, 0⟩]) := by
          rw [hold, if_pos ⟨honce, hlong, rfl⟩]
        have hle : (units + 1) * space ≤ (units + (heldFor later + 1)) * space :=
          Nat.mul_le_mul_right _ (by omega)
        rw [holdAll, hnow]
        dsimp only
        rw [holdAll_once_long honce, heldFor, if_pos ⟨Nat.succ_ne_zero _, hlong.trans hle⟩]
        rfl
      · have hnow : hold kud space (units, false) .hold = ((units + 1, false), []) := by
          rw [hold, if_neg fun hboth => hlong hboth.2.1, if_neg (by simp [honce])]
        rw [holdAll, hnow]
        dsimp only
        rw [ih, hshift, heldFor, List.nil_append]
        by_cases hnone : heldFor later = 0
        · rw [hnone, if_neg (by simp), if_neg fun hboth => hlong hboth.2]
        · simp [hnone]

theorem holdAll_more (hmore : kud.lpTp = .lpMoreNormalTrig) (hspace : 0 < space) {units : Nat}
    (hunits : units < (300 + space - 1) / space) {touches : List Touch}
    (hclean : Touch.glitch ∉ touches) :
    (holdAll kud space (units, false) touches).2 =
      List.replicate ((units + touches.length) / ((300 + space - 1) / space))
        ⟨kud.port, .normalKey, 0⟩ := by
  have hceil (n : Nat) : (300 + space - 1) / space ≤ n ↔ 300 ≤ n * space := by
    rw [Nat.div_le_iff_le_mul_add_pred hspace, Nat.mul_comm]
    omega
  induction touches generalizing units with
  | nil => rw [List.length_nil, Nat.add_zero, Nat.div_eq_of_lt hunits]; rfl
  | cons touch later ih =>
    rw [List.mem_cons, not_or] at hclean
    obtain ⟨htouch, hlater⟩ := hclean
    obtain rfl : touch = .hold := by
      cases touch with
      | hold => rfl
      | glitch => exact absurd rfl htouch
    by_cases htrig : 300 ≤ (units + 1) * space
    · have hnow : hold kud space (units, false) .hold =
          ((0, false), [⟨kud.port, .normalKey, 0⟩]) := by
        rw [hold, if_neg (by simp [hmore]), if_pos ⟨hmore, htrig⟩]
      have hlast : units + 1 = (300 + space - 1) / space := by
        have := (hceil _).mpr htrig
        omega
      rw [holdAll, hnow]
      dsimp only
      rw [ih (by omega) hlater, Nat.zero_add, List.length_cons,
        show units + (later.length + 1) = later.length + (units + 1) by omega, hlast,
        Nat.add_div_right _ (by omega), List.replicate_succ]
      rfl
    · have hnow : hold kud space (units, false) .hold = ((units + 1, false), []) := by
        rw [hold, if_neg (by simp [hmore]), if_neg fun hboth => htrig hboth.2]
      have hless : units + 1 < (300 + space - 1) / space :=
        not_le.mp fun hle => htrig ((hceil _).mp hle)
      rw [holdAll, hnow]
      dsimp only
      rw [ih hless hlater, List.nil_append, List.length_cons,
        show units + (later.length + 1) = units + 1 + later.length by omega]

theorem holdAll_eq (hspace : 0 < space) {touches : List Touch}
    (hclean : kud.lpTp = .lpMoreNormalTrig → Touch.glitch ∉ touches) :
    (holdAll kud space (0, false) touches).2 = heldCalls kud space touches := by
  rw [heldCalls]
  cases htp : kud.lpTp with
  | lpInvalid =>
    have hnow (units : Nat) (touch : Touch) :
        hold kud space (units, false) touch = ((units + 1, false), []) := by
      cases touch <;> simp [hold, htp]
    have hall (units : Nat) : (holdAll kud space (units, false) touches).2 = [] := by
      induction touches generalizing units with
      | nil => rfl
      | cons touch later ih =>
        rw [holdAll, hnow]
        exact ih (fun hmore => nomatch htp.symm.trans hmore) (units + 1)
    exact hall 0
  | lpOnceTrig =>
    rw [holdAll_once htp, Nat.zero_add]
  | lpMoreNormalTrig =>
    have hpos : 0 < (300 + space - 1) / space := Nat.div_pos (by omega) hspace
    rw [holdAll_more htp hspace hpos (hclean htp), Nat.zero_add]

theorem lastCall_eq (kud : KeyUserDef) (g : Gesture) :
    lastCall kud g = callAfter kud g.more.length := by
  rw [lastCall, callAfter]
  by_cases hmore : g.more = []
  · rw [if_pos hmore, if_pos (by rw [hmore]; rfl)]
  · rw [if_neg hmore, if_neg fun hzero => hmore (List.eq_nil_of_length_eq_zero hzero)]

/-- The presses of a gesture, without its end. -/
theorem Ready.presses (h : Ready kud long key) (hspace : 0 < space ∧ space ≤ 100)
    (hgaps : ∀ later ∈ g.more, 2 ≤ later.1 ∧
      released space later.1 < kud.seqKeyDetectTime.toNat)
    (hbound : (g.touches.length + g.more.length + 2) * space < 2 ^ 31) :
    ∃ key', Goes space key (press g.first ++
        g.more.flatMap fun (gap, touches) => List.replicate gap false ++ press touches)
        (holdAll kud space (0, long) g.touches).2 key' ∧
      Stands kud space .keyDownning (holdAll kud space (0, long) g.touches).1.1
        (holdAll kud space (0, long) g.touches).1.2 g.more.length key' := by
  have hlen : g.touches.length = g.first.length + (g.more.flatMap (·.2)).length :=
    List.length_append
  obtain ⟨key₁, hgoes₁, hdown⟩ := h.confirm space
  obtain ⟨key₂, hgoes₂, hheld⟩ := hdown.touches g.first
    ((Nat.mul_le_mul_right space (by omega)).trans_lt hbound)
  have hle := holdAll_fst_le kud space (0, long) g.first
  obtain ⟨key₃, hgoes₃, hlast⟩ := hheld.presses hspace hgaps
    ((Nat.mul_le_mul_right space (by dsimp only at hle; omega)).trans_lt hbound)
  have hall := (hgoes₁.append (hdown.kud.trans h.kud.symm) hgoes₂).append
    (hheld.kud.trans h.kud.symm) hgoes₃
  rw [Gesture.touches, holdAll_append]
  refine ⟨key₃, hall, ?_⟩
  rw [Nat.zero_add] at hlast
  exact hlast

theorem Ready.gesture (h : Ready kud long key) (hspace : 0 < space ∧ space ≤ 100)
    (hlong : long = true → kud.lpTp = .lpOnceTrig) (hclear : g.Clear kud space) :
    ∃ key', Goes space key g.samples
        ((holdAll kud space (0, long) g.touches).2 ++ [lastCall kud g]) key' ∧
      Ready kud false key' := by
  obtain ⟨key₁, hgoes₁, hdown⟩ := h.presses hspace hclear.gaps hclear.bound
  obtain ⟨key₂, hgoes₂, hup⟩ := hdown.release
  obtain ⟨hmin, hlate⟩ := hclear.rest
  obtain ⟨n, hrest⟩ : ∃ n, g.rest = 2 + n := ⟨g.rest - 2, by omega⟩
  have hcnt : g.more.length + 1 < 2 ^ 31 := by
    have := hclear.bound
    have := Nat.le_mul_of_pos_right (g.touches.length + g.more.length + 2) hspace.1
    omega
  obtain ⟨key₃, hgoes₃, hready⟩ := hup.ends hspace le_rfl (.inl rfl) hcnt
    hrest.symm hmin hlate (holdAll_long kud space g.touches hlong)
  have hall := (hgoes₁.append (hdown.kud.trans h.kud.symm) hgoes₂).append
    (hup.kud.trans h.kud.symm) hgoes₃
  refine ⟨key₃, ?_, hready⟩
  rw [Gesture.samples, lastCall_eq, hrest, List.replicate_add]
  rw [List.append_assoc] at hall
  simpa using hall

/-- What the user does with the key is what is called: for every gesture first the long press
or the presses of the full 300 ms the key was held, then a press or the number of presses. -/
theorem gestures_recognised (hready : Ready kud false key) (hspace : 0 < space ∧ space ≤ 100)
    {gestures : List Gesture} (hclear : ∀ g ∈ gestures, g.Clear kud space) :
    ∃ key', keyRun (Int32.ofNat space) key ((gestures.flatMap Gesture.samples).map (level kud)) =
        (key', gestures.flatMap fun g => heldCalls kud space g.touches ++ [lastCall kud g]) ∧
      Ready kud false key' := by
  obtain rfl := hready.kud
  suffices hgoes : ∃ key', Goes space key (gestures.flatMap Gesture.samples)
      (gestures.flatMap fun g => heldCalls key.kud space g.touches ++ [lastCall key.kud g]) key' ∧
        Ready key.kud false key' from hgoes
  generalize hkud : key.kud = kud at *
  induction gestures generalizing key with
  | nil => exact ⟨key, rfl, hready⟩
  | cons g later ih =>
    have hg := hclear g List.mem_cons_self
    obtain ⟨middle, hgoes, hmiddle⟩ := hready.gesture hspace (fun hlong => nomatch hlong) hg
    obtain ⟨key', hgoes', hready'⟩ :=
      ih hmiddle.kud hmiddle (fun g hg => hclear g (List.mem_cons_of_mem _ hg))
    rw [holdAll_eq hspace.1 hg.clean] at hgoes
    rw [List.flatMap_cons, List.flatMap_cons]
    exact ⟨key', hgoes.append (hmiddle.kud.trans hready.kud.symm) hgoes', hready'⟩

/-- A key that is pressed twice, with a bounce, and then held for its 100 ms. -/
theorem gestures_recognised_twice :
    let kud : KeyUserDef := ⟨9, true, .lpOnceTrig, 100, 400⟩
    let twice : Gesture := ⟨[.hold, .glitch, .hold], [(4, [.hold])], 30⟩
    let held : Gesture := ⟨List.replicate 6 .hold, [], 25⟩
    let key : KeyEntity := ⟨kud, .keyDown, false, false, 0, 0, 0⟩
    ∃ key', keyRun (Int32.ofNat 20) key
        (([twice, held].flatMap Gesture.samples).map (level kud)) =
        (key', [twice, held].flatMap fun g => heldCalls kud 20 g.touches ++ [lastCall kud g]) ∧
      Ready kud false key' :=
  gestures_recognised ⟨rfl, rfl, rfl, rfl⟩ (by decide) (by
    intro g hg
    obtain rfl | hg := List.mem_cons.mp hg
    · exact ⟨by decide, by decide, fun hmore => (nomatch hmore), by decide⟩
    · obtain rfl := List.mem_singleton.mp hg
      exact ⟨List.forall_mem_nil _, by decide, fun hmore => (nomatch hmore),
        by decide⟩)

/-! ### A bounce after the key is released -/

theorem holdAll_flag (honce : kud.lpTp = .lpOnceTrig) (space units : Nat) (long : Bool)
    (touches : List Touch) :
    (holdAll kud space (units, long) touches).1.2 =
      (long || !(holdAll kud space (units, long) touches).2.isEmpty) := by
  induction touches generalizing units long with
  | nil => exact (Bool.or_false long).symm
  | cons touch later ih =>
    rw [holdAll]
    dsimp only
    rw [ih]
    cases touch with
    | glitch => simp [hold]
    | hold =>
      rw [hold]
      by_cases hlong : kud.lpTp = .lpOnceTrig ∧ kud.longKeyTime.toNat ≤ (units + 1) * space ∧
          long = false
      · rw [if_pos hlong]
        simp
      · rw [if_neg hlong, if_neg (by simp [honce])]
        simp

/-- A single sample that finds the key pressed, after it was released, takes the end of the
gesture away; and if that was a long press, the next one is not reported as one. -/
theorem bounce_loses_gesture (hready : Ready kud false key) (hspace : 0 < space ∧ space ≤ 100)
    (honce : kud.lpTp = .lpOnceTrig) {next : Gesture}
    (hgaps : ∀ later ∈ g.more, 2 ≤ later.1 ∧
      released space later.1 < kud.seqKeyDetectTime.toNat)
    (hrest : 2 ≤ g.rest ∧ released space g.rest < kud.seqKeyDetectTime.toNat)
    (hbound : (g.touches.length + g.more.length + 2) * space < 2 ^ 31)
    (hnext : next.Clear kud space) (n : Nat) :
    ∃ key', keyRun (Int32.ofNat space) key
        ((g.samples ++ true :: List.replicate (n + 2) false ++ next.samples).map (level kud)) =
        (key', heldCalls kud space g.touches ++
          (if heldCalls kud space g.touches = [] then heldCalls kud space next.touches else []) ++
            [lastCall kud next]) ∧
      Ready kud false key' := by
  obtain rfl := hready.kud
  have hclean (touches : List Touch) :
      key.kud.lpTp = .lpMoreNormalTrig → Touch.glitch ∉ touches :=
    fun hmore => nomatch honce.symm.trans hmore
  obtain ⟨key₁, hgoes₁, hdown⟩ := hready.presses hspace hgaps hbound
  have hflag := holdAll_flag honce space 0 false g.touches
  rw [holdAll_eq hspace.1 (hclean _)] at hflag hgoes₁
  generalize hlong : (holdAll key.kud space (0, false) g.touches).1.2 = long at hflag hdown
  obtain ⟨key₂, hgoes₂, hup⟩ := hdown.gap hspace hrest.1 hrest.2
  have hgoes₃ : Goes space key₂ [true, false, false] [] { key₂ with
      status := .keyDown, keyValLast := false, downTime := 0, upTime := 0, seqKeyCnt := 0 } := by
    have hearly : ¬ key₂.upTime.toInt ≥ key₂.kud.seqKeyDetectTime.toNat := by
      have hseq := key.kud.seqKeyDetectTime.toNat_lt
      rw [hup.upTime, toInt_ofNat (by omega), hup.kud]
      omega
    have hfirst : Goes space key₂ [true] [] { key₂ with
        status := .keyDownConfirm, upTime := 0, seqKeyCnt := key₂.seqKeyCnt + 1 } := by
      apply Goes.single
      simp only [keyEntProc, hup.status, verify_level, if_neg hearly]
      rfl
    refine hfirst.append rfl (?_ : Goes space _ [false, false] [] _)
    simp [Goes, keyRun, keyEntProc]
  have hdone : Ready key.kud long { key₂ with
      status := .keyDown, keyValLast := false, downTime := 0, upTime := 0, seqKeyCnt := 0 } :=
    ⟨hup.kud, rfl, rfl, hup.longKeyPress⟩
  obtain ⟨key₄, hgoes₄, hidle⟩ := hdone.idle space n
  obtain ⟨key₅, hgoes₅, hlast⟩ := hidle.gesture hspace (fun _ => honce) hnext
  have hnextCalls : (holdAll key.kud space (0, long) next.touches).2 =
      if heldCalls key.kud space g.touches = [] then heldCalls key.kud space next.touches
      else [] := by
    rw [hflag]
    by_cases hnone : heldCalls key.kud space g.touches = []
    · rw [if_pos hnone, hnone]
      exact holdAll_eq hspace.1 (hclean _)
    · rw [if_neg hnone, List.isEmpty_eq_false_iff.mpr hnone]
      exact holdAll_once_long honce 0 next.touches
  rw [hnextCalls] at hgoes₅
  have hall := (((hgoes₁.append hdown.kud hgoes₂).append hup.kud hgoes₃).append hup.kud
    hgoes₄).append hidle.kud hgoes₅
  refine ⟨key₅, ?_, hlast⟩
  rw [Gesture.samples, List.append_assoc]
  simpa [Goes, List.replicate_succ] using hall

/-- The key is held for its 100 ms and bounces once when it is let go. -/
theorem bounce_loses_gesture_long :
    let kud : KeyUserDef := ⟨9, true, .lpOnceTrig, 100, 400⟩
    let held : Gesture := ⟨List.replicate 6 .hold, [], 3⟩
    let again : Gesture := ⟨List.replicate 6 .hold, [], 25⟩
    let key : KeyEntity := ⟨kud, .keyDown, false, false, 0, 0, 0⟩
    ∃ key', keyRun (Int32.ofNat 20) key
        ((held.samples ++ true :: List.replicate (0 + 2) false ++ again.samples).map (level kud)) =
        (key', heldCalls kud 20 held.touches ++
          (if heldCalls kud 20 held.touches = [] then heldCalls kud 20 again.touches else []) ++
            [lastCall kud again]) ∧
      Ready kud false key' :=
  bounce_loses_gesture ⟨rfl, rfl, rfl, rfl⟩ (by decide) rfl
    (fun _ hmem => absurd hmem List.not_mem_nil) (by decide) (by decide)
    ⟨fun _ hmem => absurd hmem List.not_mem_nil, by decide, fun hmore => absurd hmore (by decide),
      by decide⟩ 0

end Sv6x66.Tylink.TuyaKey
