import Sv6x66.Colink.TimerText

/-! The cron line of a `repeat` timer. The first loop of `mytime_str_repeat` assigns a field
at each space in front of the first star and jumps four characters there, so the line has to
have two such spaces and the four characters. -/
namespace Sv6x66.Colink.CronText
open Sv6x66.Lib.CString
open Sv6x66.Colink.MinTime
open Sv6x66.Colink.TimerText

def beforeStar (cronstr : Bytes) : Bytes := cronstr.takeWhile fun byte => byte.toNat ≠ 42

/-- The cursor never passes the NUL: without a star it stops there, and behind the first
star it finds the four characters it jumps. -/
def Reads (cronstr : Bytes) : Prop :=
  (beforeStar cronstr).length = cronstr.length ∨ (beforeStar cronstr).length + 4 ≤ cronstr.length

instance (cronstr : Bytes) : Decidable (Reads cronstr) := inferInstanceAs (Decidable (_ ∨ _))

/-- `min` and `hour` are assigned, at a space each. -/
def Assigns (cronstr : Bytes) : Prop := 2 ≤ (beforeStar cronstr).count 32

/-- The text of the second loop. -/
def dayText (cronstr : Bytes) : Bytes := cronstr.drop ((beforeStar cronstr).length + 4)

/-- Where the second loop reads a day: at the beginning, and behind every comma. -/
def dayStarts : Bytes → List Bytes
  | [] => []
  | byte :: rest => if byte.toNat = 44 then rest :: dayStarts rest else dayStarts rest

/-- A shift by the day is defined. -/
def IsShift (day : Int) : Prop := 0 ≤ day ∧ day < 32

instance (day : Int) : Decidable (IsShift day) := inferInstanceAs (Decidable (_ ∧ _))

section

variable [AtoiBeyond]

def Days (cronstr : Bytes) : Prop :=
  ∀ item ∈ dayText cronstr :: dayStarts (dayText cronstr), IsShift (atoiInt item)

/-! ### The first loop -/

/-- Nothing happens at a byte that is neither a space nor a star. -/
theorem cronHead_word {word : Bytes} (hword : ∀ byte ∈ word, byte.toNat ≠ 0x20 ∧ byte.toNat ≠ 42)
    (rest p1 : Bytes) (atStart : Bool) (cron : CronHead) :
    cronHead (word ++ rest) p1 atStart cron = cronHead rest p1 atStart cron := by
  induction word with
  | nil => rfl
  | cons byte word ih =>
    obtain ⟨hspace, hstar⟩ := hword byte List.mem_cons_self
    rw [List.cons_append, cronHead, if_neg hspace, if_neg hstar]
    exact ih fun other hother => hword other (List.mem_cons_of_mem byte hother)

theorem cronHead_space (rest p1 : Bytes) (atStart : Bool) (cron : CronHead) :
    cronHead (32 :: rest) p1 atStart cron = cronHead rest rest false
      (if atStart then { cron with min := some (UInt8.ofInt (atoiInt p1)) }
        else { cron with hour := some (UInt8.ofInt (atoiInt p1)) }) := rfl

theorem cronHead_star (rest p1 : Bytes) (atStart : Bool) (cron : CronHead) :
    cronHead (42 :: rest) p1 atStart cron = (textAt (42 :: rest) 4).map (·, cron) := rfl

/-- The spaces that `hour` still needs. -/
def spacesLeft (atStart : Bool) : Nat := if atStart then 2 else 1

/-- What the loop has assigned in front of a star. -/
theorem cronHead_before {before : Bytes} (hbefore : ∀ byte ∈ before, byte.toNat ≠ 42)
    (rest p1 : Bytes) (atStart : Bool) (cron : CronHead) :
    ∃ p1' atStart' cron', cronHead (before ++ rest) p1 atStart cron =
        cronHead rest p1' atStart' cron' ∧
      (cron'.hour.isSome ↔ cron.hour.isSome ∨ spacesLeft atStart ≤ before.count 32) ∧
      (cron'.min.isSome ↔ cron.min.isSome ∨ atStart ∧ 1 ≤ before.count 32) := by
  induction before generalizing p1 atStart cron with
  | nil => exact ⟨p1, atStart, cron, rfl, by cases atStart <;> simp [spacesLeft], by simp⟩
  | cons byte before ih =>
    have hrest := ih fun other hother => hbefore other (List.mem_cons_of_mem byte hother)
    by_cases hspace : byte = 32
    · subst hspace
      rw [List.cons_append, cronHead_space]
      obtain ⟨p1', atStart', cron', heq, hhour, hmin⟩ := hrest (before ++ rest) false _
      refine ⟨p1', atStart', cron', heq, hhour.trans ?_, hmin.trans ?_⟩
      · cases atStart <;> simp [spacesLeft]
      · cases atStart <;> simp
    · have hbyte : byte.toNat ≠ 0x20 := fun h => hspace (UInt8.toNat_inj.mp h)
      obtain ⟨p1', atStart', cron', heq, hhour, hmin⟩ := hrest p1 atStart cron
      refine ⟨p1', atStart', cron', ?_, ?_, ?_⟩
      · rw [List.cons_append, cronHead, if_neg hbyte, if_neg (hbefore byte List.mem_cons_self), heq]
      · rw [hhour, List.count_cons_of_ne hspace]
      · rw [hmin, List.count_cons_of_ne hspace]

omit [AtoiBeyond] in
theorem beforeStar_ne (cronstr : Bytes) : ∀ byte ∈ beforeStar cronstr, byte.toNat ≠ 42 := by
  intro byte hbyte
  have hpos := List.mem_takeWhile_imp hbyte
  exact of_decide_eq_true hpos

omit [AtoiBeyond] in
/-- A line without a star, or the line at its first star. -/
theorem eq_beforeStar (cronstr : Bytes) :
    cronstr = beforeStar cronstr ∨ ∃ rest, cronstr = beforeStar cronstr ++ 42 :: rest := by
  have hsplit : beforeStar cronstr ++ cronstr.dropWhile (fun byte => byte.toNat ≠ 42) = cronstr :=
    List.takeWhile_append_dropWhile
  cases hrest : cronstr.dropWhile fun byte => byte.toNat ≠ 42 with
  | nil =>
    rw [hrest, List.append_nil] at hsplit
    exact .inl hsplit.symm
  | cons star rest =>
    have hne : cronstr.dropWhile (fun byte : UInt8 => decide (byte.toNat ≠ 42)) ≠ [] := by
      rw [hrest]
      exact List.cons_ne_nil _ _
    have hhead := List.head_dropWhile_not _ hne
    simp only [hrest, List.head_cons, decide_eq_false_iff_not, not_not] at hhead
    have hstar : star = 42 := UInt8.toNat_inj.mp hhead
    rw [hrest, hstar] at hsplit
    exact .inr ⟨rest, hsplit.symm⟩

/-- The first loop as a whole. -/
theorem cronHead_eq (cronstr : Bytes) :
    ∃ cron : CronHead, (cron.hour.isSome ↔ Assigns cronstr) ∧
      (cron.min.isSome ↔ 1 ≤ (beforeStar cronstr).count 32) ∧
      cronHead cronstr cronstr true ⟨none, none⟩ =
        if Reads cronstr then some (dayText cronstr, cron) else none := by
  rcases eq_beforeStar cronstr with hall | ⟨rest, hstar⟩
  · obtain ⟨p1, atStart, cron, heq, hhour, hmin⟩ :=
      cronHead_before (beforeStar_ne cronstr) [] cronstr true ⟨none, none⟩
    refine ⟨cron, by simpa [spacesLeft, Assigns] using hhour, by simpa using hmin, ?_⟩
    rw [List.append_nil, ← hall] at heq
    have hdays : dayText cronstr = [] := by
      rw [dayText, ← hall]
      exact List.drop_eq_nil_of_le (Nat.le_add_right _ _)
    rw [heq, if_pos (.inl (congrArg List.length hall.symm)), hdays]
    rfl
  · obtain ⟨p1, atStart, cron, heq, hhour, hmin⟩ :=
      cronHead_before (beforeStar_ne cronstr) (42 :: rest) cronstr true ⟨none, none⟩
    refine ⟨cron, by simpa [spacesLeft, Assigns] using hhour, by simpa using hmin, ?_⟩
    rw [← hstar] at heq
    have hlength : cronstr.length = (beforeStar cronstr).length + (rest.length + 1) := by
      conv_lhs => rw [hstar]
      rw [List.length_append, List.length_cons]
    have hreads : Reads cronstr ↔ 4 ≤ (42 :: rest : Bytes).length := by
      unfold Reads
      rw [List.length_cons]
      omega
    have hdays : dayText cronstr = (42 :: rest : Bytes).drop 4 := by
      have hdrop : (beforeStar cronstr ++ 42 :: rest).drop ((beforeStar cronstr).length + 4) =
          (42 :: rest : Bytes).drop 4 := List.drop_length_add_append 4
      rwa [← hstar] at hdrop
    rw [heq, cronHead_star, textAt, hdays]
    simp only [hreads]
    split <;> rfl

/-! ### The second loop -/

theorem weekBit_isSome (p1 : Bytes) : (weekBit p1).isSome ↔ IsShift (atoiInt p1) := by
  unfold weekBit IsShift
  dsimp only
  split <;> simp_all

theorem weekBits_isSome (p p1 : Bytes) (bits : UInt8) :
    (weekBits p p1 bits).isSome ↔ ∀ item ∈ p1 :: dayStarts p, IsShift (atoiInt item) := by
  induction p generalizing p1 bits with
  | nil => simp [weekBits, dayStarts, weekBit_isSome]
  | cons byte rest ih =>
    by_cases hcomma : byte.toNat = 44
    · rw [weekBits, if_pos hcomma, dayStarts, if_pos hcomma, List.forall_mem_cons,
        ← weekBit_isSome]
      cases hbit : weekBit p1 with
      | none => simp
      | some bit => simp [ih]
    · rw [weekBits, if_neg hcomma, dayStarts, if_neg hcomma, ih]

/-! ### The record -/

/-- The parser reads no character behind the NUL and leaves neither `min` nor `hour`
unassigned. -/
def Safe (cronstr : Bytes) : Prop :=
  ∃ p cron, cronHead cronstr cronstr true ⟨none, none⟩ = some (p, cron) ∧
    cron.min.isSome ∧ cron.hour.isSome

theorem mytimeStrRepeat_isSome (cronstr : Bytes) :
    (mytimeStrRepeat cronstr).isSome ↔ Safe cronstr ∧ Days cronstr := by
  obtain ⟨cron, -, -, heq⟩ := cronHead_eq cronstr
  have hbits := weekBits_isSome (dayText cronstr) (dayText cronstr) 0
  unfold mytimeStrRepeat Safe Days
  rw [heq, ← hbits]
  split
  · obtain ⟨min, hour⟩ := cron
    simp only [Option.bind_eq_bind, Option.bind_some]
    generalize weekBits (dayText cronstr) (dayText cronstr) 0 = bits
    cases bits <;> cases min <;> cases hour <;> simp
  · simp

/-- The parser stays in the line and assigns the fields exactly if two spaces stand in
front of the first star and four characters from it on. All of `week_bit` has a value
exactly if, besides, every day is a number of a bit. -/
theorem cron_safe_iff (cronstr : Bytes) :
    (Safe cronstr ↔ Reads cronstr ∧ Assigns cronstr) ∧
      ((mytimeStrRepeat cronstr).isSome ↔
        Reads cronstr ∧ Assigns cronstr ∧ Days cronstr) := by
  have hsafe : Safe cronstr ↔ Reads cronstr ∧ Assigns cronstr := by
    obtain ⟨cron, hhour, hmin, heq⟩ := cronHead_eq cronstr
    unfold Safe
    rw [heq]
    constructor
    · rintro ⟨p, cron', hsome, -, hassigned⟩
      split at hsome
      · cases hsome
        exact ⟨‹_›, hhour.mp hassigned⟩
      · cases hsome
    · rintro ⟨hreads, hassigns⟩
      exact ⟨_, cron, if_pos hreads, hmin.mpr (Nat.le_of_succ_le hassigns), hhour.mpr hassigns⟩
  exact ⟨hsafe, by rw [mytimeStrRepeat_isSome, hsafe, and_assoc]⟩

end

section

local instance : AtoiBeyond := saturating

/-- A line that ends at its star is read on behind the NUL. -/
theorem star_at_end_unsafe : ¬ ∀ cronstr : Bytes, 0 ∉ cronstr → Safe cronstr := by
  intro hall
  obtain ⟨p, cron, hhead, -⟩ := hall (ofString "59 8 *") (by decide)
  have hnone : cronHead (ofString "59 8 *") (ofString "59 8 *") true ⟨none, none⟩ = none := by
    decide
  rw [hnone] at hhead
  cases hhead

end

/-! ### Minute, hour and weekdays -/

/-- A number without leading zeros. -/
def numberText (n : Nat) : Bytes := if n = 0 then [digitByte 0] else decimal n

def dayList (day : Fin 7) : List (Fin 7) → Bytes
  | [] => [digitByte day]
  | next :: days => digitByte day :: 44 :: dayList next days

/-- `M H * * d1,..,dn`. -/
def cronLine (min : Fin 60) (hour : Fin 24) (day : Fin 7) (days : List (Fin 7)) : Bytes :=
  numberText min ++ 32 :: (numberText hour ++ 32 :: (ofString "* * " ++ dayList day days))

theorem numberText_digits (n : Nat) : ∃ digit digits, (∀ d ∈ digit :: digits, d < 10) ∧
    numberText n = (digit :: digits).map digitByte ∧
    Nat.ofDigits 10 (digit :: digits).reverse = n := by
  unfold numberText
  split
  · exact ⟨0, [], by decide, rfl, by simp [*]⟩
  · rename_i hn
    have hne : (Nat.digits 10 n).reverse ≠ [] :=
      List.reverse_ne_nil_iff.mpr (Nat.digits_ne_nil_iff_ne_zero.mpr hn)
    obtain ⟨digit, digits, hdigits⟩ := List.exists_cons_of_ne_nil hne
    refine ⟨digit, digits, ?_, ?_, ?_⟩
    · rw [← hdigits]
      exact fun _ => digits_reverse_lt
    · rw [← hdigits, decimal, List.map_reverse]
    · rw [← hdigits, List.reverse_reverse, Nat.ofDigits_digits]

theorem atoi_numberText (n : Nat) {rest : Bytes} (hrest : ∀ byte ∈ rest.head?, isDigit byte = false) :
    atoi (numberText n ++ rest) = n := by
  obtain ⟨digit, digits, hlt, htext, hvalue⟩ := numberText_digits n
  rw [htext, atoi_append hlt hrest, hvalue]

theorem mem_numberText {n : Nat} {byte : UInt8} (h : byte ∈ numberText n) :
    byte.toNat ≠ 0x20 ∧ byte.toNat ≠ 42 := by
  obtain ⟨digit, digits, hlt, htext, -⟩ := numberText_digits n
  rw [htext] at h
  obtain ⟨d, hd, rfl⟩ := List.mem_map.mp h
  rw [toNat_digitByte (hlt d hd)]
  omega

theorem not_comma (day : Fin 7) : ¬ (digitByte day).toNat = 44 := by
  rw [toNat_digitByte (by omega)]
  omega

variable [AtoiBeyond]

/-- The first loop over a line of this form. -/
theorem cronHead_cronLine (min : Fin 60) (hour : Fin 24) (day : Fin 7) (days : List (Fin 7)) :
    cronHead (cronLine min hour day days) (cronLine min hour day days) true ⟨none, none⟩ =
      some (dayList day days, ⟨some (UInt8.ofNat min), some (UInt8.ofNat hour)⟩) := by
  unfold cronLine
  have hspace : ∀ byte ∈ (32 :: (numberText hour ++ 32 :: (ofString "* * " ++ dayList day days)) :
      Bytes).head?, isDigit byte = false := by simp [isDigit]
  have hspace' : ∀ byte ∈ (32 :: (ofString "* * " ++ dayList day days) : Bytes).head?,
      isDigit byte = false := by simp [isDigit]
  have hmin := atoiInt_eq (atoi_numberText min hspace) (by omega)
  have hhour := atoiInt_eq (atoi_numberText hour hspace') (by omega)
  rw [cronHead_word (fun _ => mem_numberText), cronHead_space, if_pos rfl,
    cronHead_word (fun _ => mem_numberText), cronHead_space, hmin, hhour]
  have hstar : ofString "* * " ++ dayList day days = 42 :: 32 :: 42 :: 32 :: dayList day days := by
    rfl
  rw [hstar, cronHead_star, textAt_of_le (Nat.le_add_left _ _)]
  simp [uint8_ofInt]

theorem weekBit_day (day : Fin 7) {rest : Bytes} (hrest : ∀ byte ∈ rest.head?, isDigit byte = false) :
    weekBit (digitByte day :: rest) = some (1 <<< UInt8.ofNat day.val) := by
  have hatoi : atoi (digitByte day :: rest) = (day : Nat) := by
    have hdigits : ∀ d ∈ [(day : Nat)], d < 10 := by
      intro d hd
      rw [List.mem_singleton.mp hd]
      omega
    have h := atoi_append hdigits hrest
    rwa [List.reverse_singleton, Nat.ofDigits_singleton] at h
  unfold weekBit
  rw [atoiInt_eq hatoi (by omega)]
  clear hatoi hrest
  revert day
  decide

/-- `week_bit |= 1 << day`. -/
def addDay (bits : UInt8) (day : Fin 7) : UInt8 := bits ||| 1 <<< UInt8.ofNat day.val

theorem weekBits_dayList (day : Fin 7) (days : List (Fin 7)) (bits : UInt8) :
    weekBits (dayList day days) (dayList day days) bits =
      some ((day :: days).foldl addDay bits) := by
  induction days generalizing day bits with
  | nil =>
    rw [dayList, weekBits, if_neg (not_comma day), weekBits, weekBit_day day (by simp)]
    rfl
  | cons next days ih =>
    rw [dayList, weekBits, if_neg (not_comma day), weekBits, if_pos (by decide),
      weekBit_day day (by simp [isDigit])]
    exact ih next _

/-- The line of a minute, an hour and a list of weekdays is read as these. -/
theorem mytimeStrRepeat_cronLine (min : Fin 60) (hour : Fin 24) (day : Fin 7)
    (days : List (Fin 7)) :
    mytimeStrRepeat (cronLine min hour day days) = some {
      hour := UInt8.ofNat hour, min := UInt8.ofNat min, sec := 0
      weekBit := (day :: days).foldl addDay 0 } := by
  unfold mytimeStrRepeat
  rw [cronHead_cronLine]
  simp [weekBits_dayList]

end Sv6x66.Colink.CronText
