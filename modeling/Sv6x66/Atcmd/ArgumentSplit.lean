import Mathlib.Data.List.GetD
import Sv6x66.Lib.Fields
import Sv6x66.Atcmd.CommandLine

/-! `parseBuff2Param` as a split of the line on commas. The commas are overwritten in
place, so every argument ends where the next one begins. -/
namespace Sv6x66.Atcmd.ArgumentSplit
open Sv6x66.Lib
open Sv6x66.Lib.CString
open Sv6x66.Lib.Fields
open Sv6x66.Atcmd.CommandLine

/-- The function on the `stParam` it is given, with its result. The 25th argument would
go behind `argv`, over `argc`. -/
def parseBuff2ParamInto (pParam : Param) (bufCmd : Bytes) (maxargu : UInt8) :
    Option (Int × Param) :=
  if (cstr bufCmd).length = 0 then some (errorInvalidParameter, pParam)
  else
    let parsed := parseBuff2Param bufCmd maxargu
    if parsed.argc ≤ maxArgument then some (0, parsed) else none

/-- The arguments allowed; 0 stands for the size of `argv`. -/
def limitOf (maxargu : UInt8) : Nat := if maxargu = 0 then maxArgument else maxargu.toNat

/-- The texts at `argv`. -/
def texts (p : Param) : List Bytes := p.argv.map fun start => cstr (p.memory.drop start)

theorem length_texts (p : Param) : (texts p).length = p.argc := List.length_map _

/-! ### The loop -/

/-- What is behind `done` belongs to the last argument alone. -/
theorem texts_append {done : Bytes} {argv : List Nat} (hargv : ∀ start ∈ argv, 0 ∈ done.drop start)
    (rest : Bytes) :
    texts ⟨done ++ rest, argv ++ [done.length]⟩ =
      (argv.map fun start => cstr (done.drop start)) ++ [cstr rest] := by
  unfold texts
  rw [List.map_append, List.map_singleton, List.drop_left]
  congr 1
  exact List.map_congr_left fun start hstart => cstr_of_ended (hargv start hstart) rest

theorem nextComma_append {done : Bytes} {i : Nat} (hi : i ≤ done.length)
    (hdone : comma ∉ done.drop i) (rest : Bytes) :
    nextComma (done ++ rest) i = done.length + (rest.takeWhile (· ≠ comma)).length := by
  unfold nextComma
  rw [List.drop_append_of_le_length hi, List.takeWhile_append_of_pos, List.length_append,
    List.length_drop]
  · omega
  · intro byte hbyte
    simpa using ne_of_mem_of_not_mem hbyte hdone

theorem takeWhile_comma {field : Bytes} (h : comma ∉ field) (rest : Bytes) :
    (field ++ comma :: rest).takeWhile (· ≠ comma) = field := by
  rw [List.takeWhile_append_of_pos]
  · simp
  · intro byte hbyte
    simpa using ne_of_mem_of_not_mem hbyte h

/-- The arguments found are done with; the last one so far begins at `rest`. The search
goes on from the comma in front of it, which is overwritten. -/
theorem texts_splitLoop {limit : Nat} (done : Bytes) {rest : Bytes} (i : Nat) (argv : List Nat)
    (hi : i ≤ done.length) (hdone : comma ∉ done.drop i) (hzero : 0 ∉ rest) (hne : rest ≠ [])
    (hargv : ∀ start ∈ argv, 0 ∈ done.drop start) :
    texts (splitLoop limit (done ++ rest) i (argv ++ [done.length])) =
      (argv.map fun start => cstr (done.drop start)) ++ fields comma (limit + 1) rest := by
  induction limit generalizing done rest i argv with
  | zero =>
    rw [fields_one hne]
    unfold splitLoop
    rw [texts_append hargv, cstr_of_not_mem hzero]
  | succ limit ih =>
    unfold splitLoop
    dsimp only
    rw [nextComma_append hi hdone]
    by_cases hcomma : comma ∈ rest
    · obtain ⟨field, tail, rfl, hfield⟩ := List.eq_append_cons_of_mem hcomma
      have hfieldZero : 0 ∉ field := fun hmem => hzero (List.mem_append_left _ hmem)
      have htailZero : 0 ∉ tail := fun hmem =>
        hzero (List.mem_append_right _ (List.mem_cons_of_mem _ hmem))
      have hmemory : (done ++ (field ++ comma :: tail)).set (done.length + field.length) 0 =
          (done ++ field ++ [0]) ++ tail := by
        rw [← List.append_assoc, ← List.length_append, List.set_append_right _ _ (le_refl _),
          Nat.sub_self]
        simp
      have hlength : (done ++ field ++ [0]).length = done.length + field.length + 1 := by
        simp only [List.length_append, List.length_singleton]
      have hhead : ((done ++ field ++ [0]) ++ tail).getD (done.length + field.length + 1) 0 =
          tail.headD 0 := by
        rw [← hlength, List.getD_append_right _ _ _ _ (le_refl _), Nat.sub_self]
        cases tail <;> rfl
      rw [takeWhile_comma hfield, if_neg (by simp), hmemory, hhead, fields_append_cons hfield]
      -- What was the last argument ends at the overwritten comma.
      have hlast : 0 ∈ (done ++ field ++ [0]).drop done.length := by
        rw [List.append_assoc, List.drop_left]
        simp
      have hended : ∀ start ∈ argv ++ [done.length], 0 ∈ (done ++ field ++ [0]).drop start := by
        intro start hstart
        rcases List.mem_append.mp hstart with hstart | hstart
        · rw [List.append_assoc, drop_append_of_ended (hargv start hstart)]
          exact List.mem_append_left _ (hargv start hstart)
        · rwa [List.mem_singleton.mp hstart]
      have hearlier : (argv.map fun start => cstr ((done ++ field ++ [0]).drop start)) =
          argv.map fun start => cstr (done.drop start) := by
        apply List.map_congr_left
        intro start hstart
        rw [List.append_assoc, cstr_of_ended (hargv start hstart)]
      have hlastText : cstr ((done ++ field ++ [0]).drop done.length) = field := by
        rw [List.append_assoc, List.drop_left, cstr_append hfieldZero]
        simp [cstr]
      cases tail with
      | nil =>
        rw [if_neg (by simp), List.append_nil, List.append_assoc, texts_append hargv,
          cstr_append hfieldZero]
        simp [cstr]
      | cons byte tail =>
        have hbyte : byte ≠ 0 := fun h => htailZero (h ▸ List.mem_cons_self ..)
        have hstep := ih (done ++ field ++ [0]) (done.length + field.length)
          (argv ++ [done.length]) (by omega) (by simp [comma]) htailZero (List.cons_ne_nil _ _)
          hended
        rw [if_pos (by simpa using hbyte), ← hlength, hstep, List.map_append, hearlier,
          List.map_singleton, hlastText, List.append_assoc, List.singleton_append]
    · have hall : rest.takeWhile (· ≠ comma) = rest := by
        rw [List.takeWhile_eq_self_iff]
        intro byte hbyte
        simpa using ne_of_mem_of_not_mem hbyte hcomma
      rw [fields_of_not_mem hcomma hne, hall, if_pos (by simp), texts_append hargv,
        cstr_of_not_mem hzero]

/-! ### The arguments of a line -/

theorem exists_limitOf (maxargu : UInt8) : ∃ limit, limitOf maxargu = limit + 1 := by
  apply Nat.exists_eq_succ_of_ne_zero
  unfold limitOf
  split
  · decide
  · rename_i hne
    exact fun h => hne (UInt8.toNat_inj.mp h)

theorem texts_parseBuff2Param (bufCmd : Bytes) (maxargu : UInt8) :
    texts (parseBuff2Param bufCmd maxargu) = fields comma (limitOf maxargu) (cstr bufCmd) := by
  obtain ⟨limit, hlimit⟩ := exists_limitOf maxargu
  have hzero := zero_not_mem_cstr bufCmd
  unfold parseBuff2Param
  dsimp only
  rw [show (if maxargu = 0 then maxArgument else maxargu.toNat) = limitOf maxargu from rfl, hlimit]
  split
  · rename_i hempty
    rw [List.length_eq_zero_iff.mp hempty, fields_nil]
    rfl
  · rename_i hne
    exact texts_splitLoop [] 0 [] (Nat.zero_le _) List.not_mem_nil hzero
      (fun h => hne (List.length_eq_zero_iff.mpr h)) (by simp)

/-- What the commands make of a line: `memset` comes before. -/
def Splits (bufCmd : Bytes) (maxargu : UInt8) : Prop :=
  ∃ nRet parsed, parseBuff2ParamInto .zero bufCmd maxargu = some (nRet, parsed) ∧
    texts parsed = fields comma (limitOf maxargu) (cstr bufCmd) ∧
    ([comma].intercalate (texts parsed) = cstr bufCmd ∨
      [comma].intercalate (texts parsed) ++ [comma] = cstr bufCmd) ∧
    parsed.argc ≤ limitOf maxargu ∧ parsed.argc ≤ maxArgument

theorem parseBuff2ParamInto_eq {bufCmd : Bytes} {maxargu : UInt8}
    (h : (fields comma (limitOf maxargu) (cstr bufCmd)).length ≤ maxArgument) :
    ∃ nRet, parseBuff2ParamInto .zero bufCmd maxargu =
      some (nRet, parseBuff2Param bufCmd maxargu) := by
  unfold parseBuff2ParamInto
  split
  · rename_i hempty
    refine ⟨errorInvalidParameter, ?_⟩
    unfold parseBuff2Param
    dsimp only
    rw [if_pos hempty]
  · rw [← texts_parseBuff2Param, length_texts] at h
    dsimp only
    rw [if_pos h]
    exact ⟨0, rfl⟩

/-- No table has a limit above the size of `argv`. -/
theorem parseBuff2Param_splits (bufCmd : Bytes) (maxargu : UInt8)
    (h : maxargu.toNat ≤ maxArgument ∨
      (fields comma (limitOf maxargu) (cstr bufCmd)).length ≤ maxArgument) :
    Splits bufCmd maxargu := by
  obtain ⟨limit, hlimit⟩ := exists_limitOf maxargu
  have hle := length_fields_le comma limit (cstr bufCmd)
  rw [← hlimit] at hle
  have hfits : (fields comma (limitOf maxargu) (cstr bufCmd)).length ≤ maxArgument := by
    rcases h with h | h
    · apply hle.trans
      unfold limitOf
      split
      · exact le_refl _
      · exact h
    · exact h
  obtain ⟨nRet, hparsed⟩ := parseBuff2ParamInto_eq hfits
  have htexts := texts_parseBuff2Param bufCmd maxargu
  have hargc : (parseBuff2Param bufCmd maxargu).argc =
      (fields comma (limitOf maxargu) (cstr bufCmd)).length := by
    rw [← length_texts, htexts]
  refine ⟨nRet, _, hparsed, htexts, ?_, hargc ▸ hle, hargc ▸ hfits⟩
  rw [htexts, hlimit]
  exact intercalate_fields comma limit (cstr bufCmd)

theorem parseBuff2Param_splits_two : Splits (ofString "a,,b,c,") 3 :=
  parseBuff2Param_splits (ofString "a,,b,c,") 3 (.inl (by decide))

example : fields comma 3 (ofString "a,,b,c,") =
    [ofString "a", [], ofString "b,c,"] := by decide

/-- Under a limit of 25 the 25th field does not fit into `argv`. -/
theorem tooManyArguments : ¬ ∀ bufCmd maxargu, Splits bufCmd maxargu := by
  intro h
  obtain ⟨nRet, parsed, hparsed, -⟩ := h ((List.replicate 24 [48, comma]).flatten ++ [48]) 25
  have hnone : parseBuff2ParamInto .zero ((List.replicate 24 [48, comma]).flatten ++ [48]) 25 =
      none := by decide
  rw [hnone] at hparsed
  cases hparsed

end Sv6x66.Atcmd.ArgumentSplit
