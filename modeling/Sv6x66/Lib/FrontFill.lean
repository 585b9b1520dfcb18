import Mathlib.Tactic

/-! A loop that reads entries one by one into the slots of a block. Each entry
is written at the write pointer, which moves on only behind an entry that is
kept. What is not kept is written over, or stays behind the kept ones. -/
namespace Sv6x66.Lib.FrontFill

variable {ι α : Type*} (read : ι → Option α) (kept : α → Bool)

/-- `slots` is the block from the write pointer on. A write behind the block, or
into no block at all, has no result; what is not kept needs no slot. -/
def fill : List ι → List α → Option (List α)
  | [], slots => some slots
  | entry :: entries, slots => do
    let value ← read entry
    if kept value then
      match slots with
      | [] => none
      | _ :: rest => return value :: (← fill entries rest)
    else fill entries (slots.set 0 value)

variable {read kept}

theorem fill_cons_kept {entry : ι} {value slot : α} (hread : read entry = some value)
    (hkept : kept value = true) (entries : List ι) (rest : List α) :
    fill read kept (entry :: entries) (slot :: rest) =
      (fill read kept entries rest).map (value :: ·) := by
  rw [fill, hread]
  simp only [Option.bind_eq_bind, Option.bind_some, if_pos hkept]
  cases fill read kept entries rest <;> rfl

theorem fill_cons_other {entry : ι} {value : α} (hread : read entry = some value)
    (hkept : kept value = false) (entries : List ι) (slots : List α) :
    fill read kept (entry :: entries) slots = fill read kept entries (slots.set 0 value) := by
  rw [fill, hread]
  simp only [Option.bind_eq_bind, Option.bind_some, hkept, Bool.false_eq_true, if_false]

/-- What is kept takes the slot at the write pointer. -/
theorem fill_kept_eq_some {entry : ι} {entries : List ι} {value : α} {slots result : List α}
    (hread : read entry = some value) (hkept : kept value = true)
    (h : fill read kept (entry :: entries) slots = some result) :
    ∃ slot rest tail, slots = slot :: rest ∧ fill read kept entries rest = some tail ∧
      result = value :: tail := by
  cases slots with
  | nil =>
    rw [fill, hread] at h
    simp [hkept] at h
  | cons slot rest =>
    rw [fill_cons_kept hread hkept] at h
    obtain ⟨tail, htail, rfl⟩ := Option.map_eq_some_iff.mp h
    exact ⟨slot, rest, tail, rfl, htail, rfl⟩

/-- A block with a slot for every entry is never left. -/
theorem fill_isSome {entries : List ι} {slots : List α}
    (hread : ∀ entry ∈ entries, (read entry).isSome) (hslots : entries.length ≤ slots.length) :
    (fill read kept entries slots).isSome := by
  induction entries generalizing slots with
  | nil => rfl
  | cons entry entries ih =>
    obtain ⟨value, hvalue⟩ := Option.isSome_iff_exists.mp (hread entry List.mem_cons_self)
    have hrest : ∀ other ∈ entries, (read other).isSome := fun other hother =>
      hread other (List.mem_cons_of_mem entry hother)
    rw [List.length_cons] at hslots
    cases hkept : kept value with
    | false =>
      rw [fill_cons_other hvalue hkept]
      apply ih hrest
      rw [List.length_set]
      omega
    | true =>
      cases slots with
      | nil =>
        rw [List.length_nil] at hslots
        omega
      | cons slot rest =>
        rw [fill_cons_kept hvalue hkept, Option.isSome_map]
        apply ih hrest
        rw [List.length_cons] at hslots
        omega

/-- With a slot for every entry the loop gets through exactly if every entry can be read. -/
theorem fill_isSome_iff {entries : List ι} {slots : List α}
    (hslots : entries.length ≤ slots.length) :
    (fill read kept entries slots).isSome ↔ ∀ entry ∈ entries, (read entry).isSome := by
  refine ⟨?_, fun hread => fill_isSome hread hslots⟩
  intro h
  induction entries generalizing slots with
  | nil => simp
  | cons entry entries ih =>
    rw [List.length_cons] at hslots
    cases hvalue : read entry with
    | none =>
      rw [fill, hvalue] at h
      cases h
    | some value =>
      rw [List.forall_mem_cons, hvalue]
      refine ⟨rfl, ?_⟩
      cases hkept : kept value with
      | false =>
        rw [fill_cons_other hvalue hkept] at h
        refine ih ?_ h
        rw [List.length_set]
        omega
      | true =>
        cases slots with
        | nil => cases hslots
        | cons slot rest =>
          rw [fill_cons_kept hvalue hkept, Option.isSome_map] at h
          refine ih ?_ h
          rw [List.length_cons] at hslots
          omega

/-- Without a block every entry must be one that is not kept. -/
theorem fill_nil_isSome_iff {entries : List ι} :
    (fill read kept entries []).isSome ↔
      ∀ entry ∈ entries, ∃ value, read entry = some value ∧ kept value = false := by
  induction entries with
  | nil => simp [fill]
  | cons entry entries ih =>
    rw [List.forall_mem_cons]
    cases hvalue : read entry with
    | none => simp [fill, hvalue]
    | some value =>
      cases hkept : kept value with
      | false =>
        rw [fill_cons_other hvalue hkept, List.set_nil, ih]
        simp [hkept]
      | true => simp [fill, hvalue, hkept]

/-- A reader with more results fills the slots no differently. -/
theorem fill_mono {read' : ι → Option α}
    (hread : ∀ entry value, read entry = some value → read' entry = some value)
    {entries : List ι} {slots result : List α}
    (h : fill read kept entries slots = some result) :
    fill read' kept entries slots = some result := by
  induction entries generalizing slots result with
  | nil => exact h
  | cons entry entries ih =>
    cases hvalue : read entry with
    | none =>
      rw [fill, hvalue] at h
      cases h
    | some value =>
      have hvalue' := hread entry value hvalue
      cases hkept : kept value with
      | false =>
        rw [fill_cons_other hvalue hkept] at h
        rw [fill_cons_other hvalue' hkept]
        exact ih h
      | true =>
        obtain ⟨slot, rest, tail, rfl, htail, rfl⟩ := fill_kept_eq_some hvalue hkept h
        rw [fill_cons_kept hvalue' hkept, ih htail]
        rfl

theorem length_fill {entries : List ι} {slots result : List α}
    (h : fill read kept entries slots = some result) : result.length = slots.length := by
  induction entries generalizing slots result with
  | nil =>
    cases h
    rfl
  | cons entry entries ih =>
    cases hvalue : read entry with
    | none =>
      rw [fill, hvalue] at h
      cases h
    | some value =>
      cases hkept : kept value with
      | false =>
        rw [fill_cons_other hvalue hkept] at h
        rw [ih h, List.length_set]
      | true =>
        obtain ⟨slot, rest, tail, rfl, htail, rfl⟩ := fill_kept_eq_some hvalue hkept h
        rw [List.length_cons, List.length_cons, ih htail]

theorem mapM_cons_eq_some {entry : ι} {entries : List ι} {values : List α}
    (h : (entry :: entries).mapM read = some values) :
    ∃ value others, read entry = some value ∧ entries.mapM read = some others ∧
      values = value :: others := by
  rw [List.mapM_cons] at h
  obtain ⟨value, hvalue, hrest⟩ := Option.bind_eq_some_iff.mp h
  obtain ⟨others, hothers, hvalues⟩ := Option.bind_eq_some_iff.mp hrest
  cases hvalues
  exact ⟨value, others, hvalue, hothers, rfl⟩

/-- The loop gets through only if it can read every entry. -/
theorem mapM_of_fill {entries : List ι} {slots result : List α}
    (h : fill read kept entries slots = some result) : ∃ values, entries.mapM read = some values := by
  induction entries generalizing slots result with
  | nil => exact ⟨[], rfl⟩
  | cons entry entries ih =>
    obtain ⟨value, hvalue, h⟩ := Option.bind_eq_some_iff.mp h
    have hrest : ∃ values, entries.mapM read = some values := by
      split at h
      · split at h
        · cases h
        · obtain ⟨tail, htail, -⟩ := Option.bind_eq_some_iff.mp h
          exact ih htail
      · exact ih h
    obtain ⟨values, hvalues⟩ := hrest
    exact ⟨value :: values, by rw [List.mapM_cons, hvalue, hvalues]; rfl⟩

/-- Where every entry is kept the block holds just the entries, in order. -/
theorem fill_of_all_kept {entries : List ι} {values slots result : List α}
    (hread : entries.mapM read = some values) (hkept : ∀ value ∈ values, kept value = true)
    (hslots : slots.length = entries.length) (h : fill read kept entries slots = some result) :
    result = values := by
  induction entries generalizing slots values result with
  | nil =>
    cases h
    cases hread
    exact List.length_eq_zero_iff.mp hslots
  | cons entry entries ih =>
    obtain ⟨value, others, hvalue, hothers, rfl⟩ := mapM_cons_eq_some hread
    obtain ⟨slot, rest, tail, rfl, htail, rfl⟩ :=
      fill_kept_eq_some hvalue (hkept value List.mem_cons_self) h
    have hrest := ih hothers (fun other hother => hkept other (List.mem_cons_of_mem value hother))
      (Nat.succ.inj hslots) htail
    rw [hrest]

/-- In a block that held nothing to keep, the entries that are kept are exactly
what the loop wrote and moved on from. -/
theorem filter_fill {entries : List ι} {values slots result : List α}
    (hread : entries.mapM read = some values) (hslots : ∀ slot ∈ slots, kept slot = false)
    (h : fill read kept entries slots = some result) :
    result.filter kept = values.filter kept := by
  induction entries generalizing slots values result with
  | nil =>
    cases h
    cases hread
    apply List.filter_eq_nil_iff.mpr
    intro slot hslot
    simp [hslots slot hslot]
  | cons entry entries ih =>
    obtain ⟨value, others, hvalue, hothers, rfl⟩ := mapM_cons_eq_some hread
    cases hkept : kept value with
    | false =>
      rw [fill_cons_other hvalue hkept] at h
      rw [List.filter_cons_of_neg (by simp [hkept])]
      apply ih hothers _ h
      intro slot hslot
      rcases List.mem_or_eq_of_mem_set hslot with hold | rfl
      · exact hslots slot hold
      · exact hkept
    | true =>
      obtain ⟨slot, rest, tail, rfl, htail, rfl⟩ := fill_kept_eq_some hvalue hkept h
      rw [List.filter_cons_of_pos hkept, List.filter_cons_of_pos hkept,
        ih hothers (fun other hother => hslots other (List.mem_cons_of_mem slot hother)) htail]

/-- Without a block the loop gets through exactly when nothing is kept. -/
theorem fill_no_block {entries : List ι} {values : List α}
    (hread : entries.mapM read = some values) :
    fill read kept entries [] = if values.filter kept = [] then some [] else none := by
  induction entries generalizing values with
  | nil =>
    cases hread
    rfl
  | cons entry entries ih =>
    obtain ⟨value, others, hvalue, hothers, rfl⟩ := mapM_cons_eq_some hread
    cases hkept : kept value with
    | false =>
      rw [fill_cons_other hvalue hkept, List.set_nil, ih hothers,
        List.filter_cons_of_neg (by simp [hkept])]
    | true =>
      rw [fill, hvalue, List.filter_cons_of_pos hkept]
      simp [hkept]

/-- How many slots are written, by which entries are kept: one for each entry that is,
and one more for the last. -/
def touched : List Bool → Nat
  | [] => 0
  | [_] => 1
  | keep :: next :: flags => touched (next :: flags) + if keep then 1 else 0

theorem touched_kept (flags : List Bool) : touched (true :: flags) = touched flags + 1 := by
  cases flags <;> rfl

theorem touched_pos (flag : Bool) (flags : List Bool) : 0 < touched (flag :: flags) := by
  induction flags generalizing flag with
  | nil => exact Nat.one_pos
  | cons next flags ih =>
    rw [touched]
    exact Nat.add_pos_left (ih next) _

/-- Of the slots written, each holds a value of its entry or one that is not kept, and
the others hold what they held. -/
theorem forall_mem_fill {P : α → Prop} (hother : ∀ value, kept value = false → P value)
    {entries : List ι} {values slots result : List α} (hread : entries.mapM read = some values)
    (h : fill read kept entries slots = some result) :
    (∀ slot ∈ result, P slot) ↔
      (∀ value ∈ values, P value) ∧ ∀ slot ∈ slots.drop (touched (values.map kept)), P slot := by
  induction entries generalizing slots values result with
  | nil =>
    cases h
    cases hread
    simp [touched]
  | cons entry entries ih =>
    obtain ⟨value, others, hvalue, hothers, rfl⟩ := mapM_cons_eq_some hread
    rw [List.forall_mem_cons, List.map_cons]
    cases hkept : kept value with
    | true =>
      obtain ⟨slot, rest, tail, rfl, htail, rfl⟩ := fill_kept_eq_some hvalue hkept h
      rw [List.forall_mem_cons, ih hothers htail, touched_kept, List.drop_succ_cons, and_assoc]
    | false =>
      rw [fill_cons_other hvalue hkept] at h
      rw [ih hothers h, and_iff_right (hother value hkept)]
      apply and_congr_right
      intro _
      cases others with
      | nil =>
        -- The last value stays in the slot at the write pointer.
        cases slots with
        | nil => simp [touched]
        | cons slot rest => simp [touched, hother value hkept]
      | cons next others =>
        -- The next entry is written over it.
        obtain ⟨n, hn⟩ := Nat.exists_eq_add_one.mpr
          (touched_pos (kept next) (others.map kept))
        rw [← List.map_cons] at hn
        have hsame : touched (false :: (next :: others).map kept) = n + 1 := hn
        rw [hsame, hn]
        cases slots <;> rfl

end Sv6x66.Lib.FrontFill
