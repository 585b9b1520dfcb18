import Sv6x66.Lib.ByteFile
import Sv6x66.Lib.CString
import Sv6x66.Lib.Run

/-! The startup section of `al_persist.c`: an array that every write appends to. -/
namespace Sv6x66.Ayla.Persist
open Sv6x66.Lib
open Sv6x66.Lib.ByteFile
open Sv6x66.Lib.CString

structure StartupCfg where
  name : Bytes
  cfg : Bytes
  len : Nat
  deriving DecidableEq

/-- An entry cleared by `memset`. -/
def noCfg : StartupCfg := ⟨List.replicate 32 0, List.replicate 64 0, 0⟩

/-- `start_cfg` and `idx`. -/
structure Store where
  startCfg : Vector StartupCfg 8
  idx : Nat
  deriving DecidableEq

/-- What a caller may write: the name fits with its NUL, and so do the data. -/
structure Item where
  name : Bytes
  data : Bytes
  terminated : 0 ∉ name
  shortName : name.length < 32
  shortData : data.length ≤ 64

/-- There is no result for a write behind the array. -/
def alPersistDataWrite (s : Store) (item : Item) : Option Store :=
  if h : s.idx < 8 then
    let entry := s.startCfg[s.idx]
    some
      { startCfg := s.startCfg.set s.idx
          ⟨overlay entry.name (item.name ++ [0]), overlay entry.cfg item.data, item.data.length⟩
        idx := s.idx + 1 }
  else none

/-- The loop of `al_persist_data_read` over the first `idx` entries. The length is that of the
entry at `idx`, and a look behind the array has no result. -/
def readLoop (s : Store) (name : Bytes) (len : Nat) :
    List StartupCfg → Nat → Bytes → Option (Nat × Bytes)
  | [], readLen, buf => some (readLen, buf)
  | entry :: rest, readLen, buf =>
    if name = cstr entry.name then
      match s.startCfg[s.idx]? with
      | none => none
      | some slot =>
        let readLen := min slot.len len
        readLoop s name len rest readLen (overlay buf (entry.cfg.take readLen))
    else readLoop s name len rest readLen buf

/-- The returned length and `buf`, for the section `AL_PERSIST_STARTUP`. -/
def alPersistDataRead (s : Store) (name : Option Bytes) (buf : Bytes) (len : Nat) :
    Option (Nat × Bytes) :=
  match name with
  | none => some (0, buf)
  | some name => readLoop s name len (s.startCfg.toList.take s.idx) 0 buf

def alPersistDataErase (s : Store) : Store := { s with startCfg := Vector.replicate 8 noCfg }

inductive Event where
  | write (item : Item)
  | erase

def step (s : Store) : Event → Option Store
  | .write item => alPersistDataWrite s item
  | .erase => some (alPersistDataErase s)

def start : Store := ⟨Vector.replicate 8 noCfg, 0⟩

/-! ### What it is for -/

/-- The values by their names. -/
abbrev Values := Bytes → Bytes

def store (values : Values) : Event → Values
  | .write item => Function.update values item.name item.data
  | .erase => fun _ => []

/-- The value last written under each name since the last erase. -/
def valuesAfter (events : List Event) : Values := events.foldl store fun _ => []

/-- The events are all possible, and a read behind them gets what was written. -/
def ReadsBack (events : List Event) (name : Bytes) (len : Nat) : Prop :=
  ∃ s, Run step anyStep start events s ∧ ∀ buf,
    alPersistDataRead s (some name) buf len =
      some (min len (valuesAfter events name).length,
        overlay buf ((valuesAfter events name).take len))

/-! ### The entries in use -/

def isWrite : Event → Bool
  | .write _ => true
  | .erase => false

def writes (events : List Event) : Nat := events.countP isWrite

def entryNames (names : List Bytes) : Event → List Bytes
  | .write item => names ++ [item.name]
  | .erase => names.map fun _ => []

/-- The names in the entries: an erase leaves empty ones. -/
def namesAfter (events : List Event) : List Bytes := events.foldl entryNames []

/-- What a store holds behind the events: nothing is behind `idx`. -/
structure Inv (events : List Event) (s : Store) : Prop where
  idx : s.idx = writes events
  names : (s.startCfg.toList.take s.idx).map (fun entry => cstr entry.name) = namesAfter events
  clear : ∀ entry ∈ s.startCfg.toList.drop s.idx, entry = noCfg

theorem startCfg_set_take (s : Store) (h : s.idx < 8) (entry : StartupCfg) :
    (s.startCfg.set s.idx entry).toList.take (s.idx + 1) =
      s.startCfg.toList.take s.idx ++ [entry] := by
  have hlt : s.idx < (s.startCfg.toList.set s.idx entry).length := by
    rw [List.length_set, Vector.length_toList]
    exact h
  rw [Vector.toList_set, List.take_succ_eq_append_getElem hlt, List.getElem_set_self,
    List.take_set_of_le (Nat.le_refl _)]

theorem cstr_overlay_name {name : Bytes} (h : 0 ∉ name) (field : Bytes) :
    cstr (overlay field (name ++ [0])) = name := by
  have hend (rest : Bytes) : cstr (0 :: rest) = [] := List.takeWhile_cons_of_neg (by decide)
  rw [overlay, List.append_assoc, cstr_append h, List.singleton_append, hend, List.append_nil]

theorem inv_start : Inv [] start where
  idx := rfl
  names := rfl
  clear := fun _ hentry => Vector.eq_of_mem_replicate (Vector.mem_toList_iff.mp hentry)

theorem inv_write {events : List Event} {s t : Store} {item : Item} (h : Inv events s)
    (hwrite : alPersistDataWrite s item = some t) : Inv (events ++ [.write item]) t := by
  rw [alPersistDataWrite] at hwrite
  split at hwrite
  · rename_i hlt
    cases hwrite
    refine ⟨?_, ?_, ?_⟩
    · simp [h.idx, writes, isWrite]
    · have hnames : namesAfter (events ++ [.write item]) = namesAfter events ++ [item.name] := by
        rw [namesAfter, List.foldl_append]
        rfl
      rw [startCfg_set_take s hlt, List.map_append, h.names, hnames, List.map_singleton,
        cstr_overlay_name item.terminated]
    · intro entry hentry
      rw [Vector.toList_set, List.drop_set_of_lt (Nat.lt_succ_self _)] at hentry
      refine h.clear entry (List.mem_of_mem_drop (i := 1) ?_)
      rwa [List.drop_drop]
  · cases hwrite

theorem inv_erase {events : List Event} {s : Store} (h : Inv events s) :
    Inv (events ++ [.erase]) (alPersistDataErase s) := by
  have hcleared (entry : StartupCfg) :
      entry ∈ (Vector.replicate 8 noCfg).toList → entry = noCfg :=
    fun hentry => Vector.eq_of_mem_replicate (Vector.mem_toList_iff.mp hentry)
  refine ⟨?_, ?_, fun entry hentry => hcleared entry (List.mem_of_mem_drop hentry)⟩
  · simp [alPersistDataErase, h.idx, writes, isWrite]
  · have hnames : namesAfter (events ++ [.erase]) = (namesAfter events).map fun _ => [] := by
      rw [namesAfter, List.foldl_append]
      rfl
    have hempty : cstr noCfg.name = [] := by decide
    rw [hnames, ← h.names, alPersistDataErase, Vector.toList_replicate, List.take_replicate,
      List.map_replicate, hempty, List.map_map]
    refine Eq.trans ?_ List.map_const'.symm
    rw [List.length_take, Vector.length_toList]

/-- The stores behind the events, and how many there can be. -/
theorem inv_run {events : List Event} {s : Store} (hrun : Run step anyStep start events s) :
    Inv events s := by
  induction hrun with
  | nil => exact inv_start
  | @snoc events s event t _ _ hstep ih =>
    cases event with
    | write item => exact inv_write ih hstep
    | erase =>
      cases hstep
      exact inv_erase ih

theorem exists_run_iff (events : List Event) :
    (∃ s, Run step anyStep start events s) ↔ writes events ≤ 8 := by
  induction events using List.reverseRecOn with
  | nil => exact iff_of_true ⟨start, .nil⟩ (Nat.zero_le 8)
  | append_singleton events event ih =>
    cases event with
    | write item =>
      have hcount : writes (events ++ [.write item]) = writes events + 1 := by
        simp [writes, isWrite]
      rw [hcount]
      constructor
      · rintro ⟨t, hrun⟩
        obtain ⟨s, hrun, -, hstep⟩ := Run.snoc_iff.mp hrun
        have hidx := (inv_run hrun).idx
        have hwrite : alPersistDataWrite s item = some t := hstep
        rw [alPersistDataWrite] at hwrite
        split at hwrite
        · omega
        · cases hwrite
      · intro hlt
        obtain ⟨s, hrun⟩ := ih.mpr (by omega)
        have hidx := (inv_run hrun).idx
        have hwrite : alPersistDataWrite s item = some _ := dif_pos (by omega)
        exact ⟨_, hrun.snoc trivial hwrite⟩
    | erase =>
      have hcount : writes (events ++ [.erase]) = writes events := by
        simp [writes, isWrite]
      rw [hcount, ← ih]
      constructor
      · rintro ⟨t, hrun⟩
        obtain ⟨s, hrun, -, -⟩ := Run.snoc_iff.mp hrun
        exact ⟨s, hrun⟩
      · rintro ⟨s, hrun⟩
        exact ⟨_, hrun.snoc trivial rfl⟩

/-! ### Every read -/

section

variable {s : Store} {name buf : Bytes} {len : Nat}

/-- The entry at `idx` has never been written, so its length is 0. -/
theorem readLoop_of_free (hslot : s.startCfg[s.idx]? = some noCfg) (entries : List StartupCfg) :
    readLoop s name len entries 0 buf = some (0, buf) := by
  have hlen : min noCfg.len len = 0 := Nat.zero_min len
  induction entries with
  | nil => rfl
  | cons entry rest ih =>
    rw [readLoop, hslot]
    dsimp only
    rw [hlen, List.take_zero, overlay_nil, ih, ite_self]

/-- With the array full the look at that entry leaves it. -/
theorem readLoop_of_full (hslot : s.startCfg[s.idx]? = none) (entries : List StartupCfg)
    (readLen : Nat) :
    readLoop s name len entries readLen buf =
      if name ∈ entries.map fun entry => cstr entry.name then none else some (readLen, buf) := by
  induction entries with
  | nil => rfl
  | cons entry rest ih =>
    rw [readLoop, hslot, List.map_cons]
    by_cases hname : name = cstr entry.name
    · rw [if_pos hname, if_pos (hname ▸ List.mem_cons_self)]
    · rw [if_neg hname, ih]
      simp [List.mem_cons, hname]

theorem alPersistDataRead_eq (name buf : Bytes) (len : Nat) {events : List Event}
    (h : Inv events s) (hidx : s.idx ≤ 8) :
    alPersistDataRead s (some name) buf len =
      if writes events = 8 ∧ name ∈ namesAfter events then none else some (0, buf) := by
  rw [alPersistDataRead]
  rcases Nat.lt_or_eq_of_le hidx with hlt | hfull
  · have hslot : s.startCfg[s.idx]? = some noCfg := by
      rw [Vector.getElem?_eq_getElem hlt]
      refine congrArg some (h.clear _ ?_)
      rw [List.mem_iff_getElem?]
      refine ⟨0, ?_⟩
      rw [List.getElem?_drop, Nat.add_zero, List.getElem?_eq_getElem (by simpa using hlt),
        Vector.getElem_toList]
    have hidx' := h.idx
    rw [readLoop_of_free hslot, if_neg (by omega)]
  · have hslot : s.startCfg[s.idx]? = none := Vector.getElem?_eq_none (by omega)
    have hfull' : writes events = 8 := h.idx.symm.trans hfull
    rw [readLoop_of_full hslot, h.names]
    simp only [hfull', true_and]

end

/-- A read is right if there is nothing to read, the array has not been written past, and a
full one holds nothing under the name. -/
theorem readsBack_iff (events : List Event) (name : Bytes) (len : Nat) :
    ReadsBack events name len ↔
      writes events ≤ 8 ∧ (valuesAfter events name).take len = [] ∧
        (writes events = 8 → name ∉ namesAfter events) := by
  rw [← exists_run_iff events]
  constructor
  · rintro ⟨s, hrun, hread⟩
    have hinv := inv_run hrun
    have hwrites := (exists_run_iff events).mp ⟨s, hrun⟩
    have hresult := (alPersistDataRead_eq name [] len hinv
      (hinv.idx.trans_le hwrites)).symm.trans (hread [])
    split at hresult
    · cases hresult
    · rename_i hfree
      have hzero := (Prod.mk.inj (Option.some.inj hresult)).1
      refine ⟨⟨s, hrun⟩, List.length_eq_zero_iff.mp ?_, fun hfull hmem => hfree ⟨hfull, hmem⟩⟩
      rw [List.length_take]
      exact hzero.symm
  · rintro ⟨⟨s, hrun⟩, hempty, hfree⟩
    have hinv := inv_run hrun
    have hwrites := (exists_run_iff events).mp ⟨s, hrun⟩
    have hzero : min len (valuesAfter events name).length = 0 := by
      rw [← List.length_take, hempty, List.length_nil]
    refine ⟨s, hrun, fun buf => ?_⟩
    rw [alPersistDataRead_eq _ _ _ hinv (hinv.idx.trans_le hwrites), hzero, hempty, overlay_nil]
    exact if_neg fun h => hfree h.1 h.2

/-- The byte 1 under the name `a`. -/
def itemA : Item := ⟨ofString "a", [1], by decide, by decide, by decide⟩

/-- The value is never read back, and nine writes of it leave the array. -/
theorem itemA_lost : ¬ ReadsBack [.write itemA] (ofString "a") 1 ∧
    alPersistDataRead ((alPersistDataWrite start itemA).getD start) (some (ofString "a")) [0] 1 =
      some (0, [0]) ∧
    ¬ ∃ s, Run step anyStep start (List.replicate 9 (.write itemA)) s := by
  refine ⟨?_, by decide, ?_⟩
  · rintro ⟨s, hrun, hread⟩
    have hinv := inv_run hrun
    have hresult := (alPersistDataRead_eq (ofString "a") [] 1 hinv
      (hinv.idx.trans_le (by decide))).symm.trans (hread [])
    exact absurd hresult (by decide)
  · rw [exists_run_iff]
    decide

end Sv6x66.Ayla.Persist
