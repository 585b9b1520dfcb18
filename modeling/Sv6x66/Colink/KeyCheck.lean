import Mathlib.Data.List.GetD
import Sv6x66.Colink.KeyLed

/-! `key_check_handler` of `key_led.c`, called with every sample of the key. Its counter is a
`char` that goes on while the key is held. -/
namespace Sv6x66.Colink.KeyCheck
open Sv6x66.Colink.KeyLed
open Sv6x66.Colink.KeyLedQueue

def keyLongVal : Int := 50

/-- The statics. -/
structure Statics where
  lastKey1 : UInt8
  conut : UInt8
deriving DecidableEq, Repr

def initial : Statics := ⟨1, 0⟩

/-- A `char` in a comparison; the compiler says whether it is signed. -/
def charValue (charSigned : Bool) (c : UInt8) : Int :=
  if charSigned && 128 ≤ c.toNat then c.toNat - 256 else c.toNat

/-- The messages put into the queue for one sample. -/
def keyCheckHandler (charSigned : Bool) (s : Statics) (state : UInt8) : Statics × List Message :=
  if state = 0 then
    (⟨state, s.conut + 1⟩,
      if charValue charSigned s.conut = keyLongVal then [.devKey key1Long] else [])
  else
    (⟨state, 0⟩,
      if s.lastKey1 = 0 ∧ charValue charSigned s.conut < keyLongVal then [.devKey keyKey1] else [])

/-- The statics after these samples. -/
def follow (charSigned : Bool) (s : Statics) (samples : List UInt8) : Statics :=
  samples.foldl (fun s state => (keyCheckHandler charSigned s state).1) s

/-- The messages of each sample. -/
def messages (charSigned : Bool) : Statics → List UInt8 → List (List Message)
  | _, [] => []
  | s, state :: rest =>
    (keyCheckHandler charSigned s state).2 ::
      messages charSigned (keyCheckHandler charSigned s state).1 rest

/-- The messages during the `n` low samples behind `before`, and those of the sample after
them. -/
def pressMessages (charSigned : Bool) (samples before : List UInt8) (n : Nat) :
    List Message × List Message :=
  let press := (messages charSigned initial samples).drop before.length
  ((press.take n).flatten, press.getD n [])

/-- A short press is reported at its end, a longer one while it lasts. -/
def recognized (n : Nat) : List Message × List Message :=
  if (n : Int) ≤ keyLongVal then ([], [.devKey keyKey1]) else ([.devKey key1Long], [])

/-! ### The samples one after the other -/

variable {charSigned : Bool} {s : Statics}

theorem length_messages (charSigned : Bool) (s : Statics) (samples : List UInt8) :
    (messages charSigned s samples).length = samples.length := by
  induction samples generalizing s with
  | nil => rfl
  | cons state rest ih => simp [messages, ih]

theorem messages_append (s : Statics) (samples later : List UInt8) :
    messages charSigned s (samples ++ later) =
      messages charSigned s samples ++ messages charSigned (follow charSigned s samples) later := by
  induction samples generalizing s with
  | nil => rfl
  | cons state rest ih =>
    simp only [List.cons_append, messages, ih]
    rfl

theorem follow_snoc (s : Statics) (samples : List UInt8) (state : UInt8) :
    follow charSigned s (samples ++ [state]) =
      (keyCheckHandler charSigned (follow charSigned s samples) state).1 := by
  simp [follow]

/-- A run of low samples begins with the counter at 0. -/
theorem conut_of_start (charSigned : Bool) {before : List UInt8} (h : before.getLast? ≠ some 0) :
    (follow charSigned initial before).conut = 0 := by
  induction before using List.reverseRecOn with
  | nil => rfl
  | append_singleton before state =>
    rw [List.getLast?_concat] at h
    rw [follow_snoc]
    unfold keyCheckHandler
    rw [if_neg fun hlow => h (congrArg some hlow)]

/-- The counter counts the low samples, in a byte. -/
theorem follow_low (hstart : s.conut = 0) {n : Nat} (hn : 0 < n) :
    follow charSigned s (List.replicate n 0) = ⟨0, UInt8.ofNat n⟩ := by
  induction n with
  | zero => cases hn
  | succ n ih =>
    rw [List.replicate_succ', follow_snoc]
    by_cases hzero : n = 0
    · subst hzero
      simp [follow, keyCheckHandler, hstart]
    · rw [ih (Nat.pos_of_ne_zero hzero)]
      simp [keyCheckHandler, UInt8.ofNat_add]

theorem conut_low (hstart : s.conut = 0) (n : Nat) :
    (follow charSigned s (List.replicate n 0)).conut = UInt8.ofNat n := by
  by_cases hzero : n = 0
  · subst hzero
    exact hstart
  · rw [follow_low hstart (Nat.pos_of_ne_zero hzero)]

theorem charValue_ofNat (n : Nat) : charValue charSigned (UInt8.ofNat n) =
    if charSigned = true ∧ 128 ≤ n % 256 then ((n % 256 : Nat) : Int) - 256
    else ((n % 256 : Nat) : Int) := by
  unfold charValue
  rw [UInt8.toNat_ofNat']
  simp only [Bool.and_eq_true, decide_eq_true_eq]

theorem charValue_eq_long_iff (n : Nat) :
    charValue charSigned (UInt8.ofNat n) = keyLongVal ↔ n % 256 = 50 := by
  rw [charValue_ofNat]
  unfold keyLongVal
  split <;> omega

/-- The long key comes back every 256 samples. -/
theorem messages_low (hstart : s.conut = 0) (n : Nat) :
    (messages charSigned s (List.replicate n 0)).flatten =
      List.replicate ((n + 205) / 256) (.devKey key1Long) := by
  induction n with
  | zero => rfl
  | succ n ih =>
    rw [List.replicate_succ', messages_append, List.flatten_append, ih]
    have hlast : (messages charSigned (follow charSigned s (List.replicate n 0)) [0]).flatten =
        if n % 256 = 50 then [.devKey key1Long] else [] := by
      simp only [messages, keyCheckHandler, if_true, conut_low hstart, charValue_eq_long_iff]
      simp
    rw [hlast]
    split
    · rename_i hlong
      rw [← List.replicate_succ', show (n + 1 + 205) / 256 = (n + 205) / 256 + 1 by omega]
    · rename_i hlong
      rw [List.append_nil, show (n + 1 + 205) / 256 = (n + 205) / 256 by omega]

/-! ### One press among the samples -/

/-- The end of the press finds the counter below the limit. -/
def CountsShort (charSigned : Bool) (n : Nat) : Prop :=
  charValue charSigned (UInt8.ofNat n) < keyLongVal

instance (charSigned : Bool) (n : Nat) : Decidable (CountsShort charSigned n) :=
  inferInstanceAs (Decidable (_ < _))

theorem pressMessages_eq {before after : List UInt8} {n : Nat} {high : UInt8} (hn : 0 < n)
    (hhigh : high ≠ 0) (hbefore : before.getLast? ≠ some 0) :
    pressMessages charSigned (before ++ List.replicate n 0 ++ high :: after) before n =
      (List.replicate ((n + 205) / 256) (.devKey key1Long),
        if CountsShort charSigned n then [.devKey keyKey1] else []) := by
  have hstart := conut_of_start charSigned hbefore
  unfold pressMessages
  rw [List.append_assoc, messages_append, ← length_messages charSigned initial before,
    List.drop_left, messages_append]
  generalize follow charSigned initial before = s at hstart
  have hlength : (messages charSigned s (List.replicate n 0)).length = n := by
    rw [length_messages, List.length_replicate]
  dsimp only
  rw [List.take_left' hlength, messages_low hstart, follow_low hstart hn,
    List.getD_append_right _ _ _ _ hlength.le, hlength, Nat.sub_self]
  simp only [messages, keyCheckHandler, if_neg hhigh, List.getD_cons_zero, true_and]
  rfl

/-- The lengths that are reported as they should: the counter is compared with `<` where
`KEY_LONG_VAL` itself is still short, and beyond the range of a `char` it starts over. -/
def Countable (charSigned : Bool) (n : Nat) : Prop :=
  n ≠ 50 ∧ (n ≤ (if charSigned then 127 else 255) ∨ n = 306)

instance (charSigned : Bool) (n : Nat) : Decidable (Countable charSigned n) :=
  inferInstanceAs (Decidable (_ ∧ _))

theorem countsShort_iff (charSigned : Bool) (n : Nat) :
    CountsShort charSigned n ↔ n % 256 < 50 ∨ (charSigned = true ∧ 128 ≤ n % 256) := by
  unfold CountsShort
  rw [charValue_ofNat]
  unfold keyLongVal
  by_cases hwrapped : charSigned = true ∧ 128 ≤ n % 256
  · rw [if_pos hwrapped]
    exact iff_of_true (by omega) (.inr hwrapped)
  · rw [if_neg hwrapped, or_iff_left hwrapped]
    omega

theorem keyPress_iff (charSigned : Bool) (before after : List UInt8) (n : Nat) (high : UInt8)
    (hn : 0 < n) (hhigh : high ≠ 0) (hbefore : before.getLast? ≠ some 0) :
    pressMessages charSigned (before ++ List.replicate n 0 ++ high :: after) before n =
        recognized n ↔ Countable charSigned n := by
  rw [pressMessages_eq hn hhigh hbefore]
  have hshort := countsShort_iff charSigned n
  by_cases hle : n ≤ 50
  · have hnone : (n + 205) / 256 = 0 := by omega
    have hexpected : recognized n = ([], [.devKey keyKey1]) := if_pos (by unfold keyLongVal; omega)
    rw [hnone, hexpected]
    by_cases hcounts : CountsShort charSigned n
    · have hne : n ≠ 50 := by
        rintro rfl
        exact absurd (hshort.mp hcounts) (by simp)
      rw [if_pos hcounts]
      refine iff_of_true rfl ⟨hne, .inl ?_⟩
      split <;> omega
    · rw [if_neg hcounts]
      refine iff_of_false (by simp) ?_
      rintro ⟨hne, -⟩
      exact hcounts (hshort.mpr (.inl (by omega)))
  · have hexpected : recognized n = ([.devKey key1Long], []) :=
      if_neg (by unfold keyLongVal; omega)
    have hlong : List.replicate ((n + 205) / 256) (Message.devKey key1Long) =
        [.devKey key1Long] ↔ n ≤ 306 := by
      constructor
      · intro heq
        have hcount := congrArg List.length heq
        rw [List.length_replicate, List.length_singleton] at hcount
        omega
      · intro hle
        rw [show (n + 205) / 256 = 1 by omega]
        rfl
    have hsilent : (if CountsShort charSigned n then [Message.devKey keyKey1] else []) = [] ↔
        ¬ CountsShort charSigned n := by
      split <;> simp_all
    rw [hexpected, Prod.mk.injEq, hlong, hsilent, hshort]
    unfold Countable
    cases charSigned <;> simp <;> omega

theorem keyPress_iff_short :
    pressMessages true ([1, 0, 1] ++ List.replicate 3 0 ++ 1 :: [0]) [1, 0, 1] 3 = recognized 3 ↔
      Countable true 3 :=
  keyPress_iff true [1, 0, 1] [0] 3 1 (by decide) (by decide) (by decide)

/-- A press of exactly 50 samples is neither short nor long. -/
theorem keyPress_lost : ¬ ∀ charSigned before after n high, 0 < n → high ≠ 0 →
    before.getLast? ≠ some 0 →
      pressMessages charSigned (before ++ List.replicate n 0 ++ high :: after) before n =
        recognized n := by
  intro h
  exact absurd (h true [] [] 50 1 (by decide) (by decide) (by decide)) (by decide)

end Sv6x66.Colink.KeyCheck
