import Sv6x66.Lib.CString
import Sv6x66.Lib.Words

/-! How `Cli_Start` cuts a line into arguments. The space behind a word is overwritten, and
afterwards the byte in front of the end becomes a space again if no word ends there. -/
namespace Sv6x66.Cli.Tokenizer
open Sv6x66.Lib
open Sv6x66.Lib.CString
open Sv6x66.Lib.Words

def cliArgSize : Nat := 6
def space : UInt8 := 32

/-- The bytes in front of `pch` and those from it on, and the variables of the loop. -/
structure Tokens where
  before : Bytes
  rest : Bytes
  sgArgV : List Nat
  sgArgC : Nat
  ch : Bool

/-- The loop over the line, from `rest` on. `sgArgV` is as long as it has been filled. -/
def tokenLoop : (rest before : Bytes) → (sgArgV : List Nat) → (sgArgC : Nat) → (ch : Bool) →
    Tokens
  | [], before, sgArgV, sgArgC, ch => ⟨before, [], sgArgV, sgArgC, ch⟩
  | c :: rest, before, sgArgV, sgArgC, ch =>
    if sgArgC < cliArgSize then
      let starts := ch = false ∧ c ≠ space
      let sgArgV := if starts then sgArgV ++ [before.length] else sgArgV
      let ch := if starts then true else ch
      if ch = true ∧ c = space then tokenLoop rest (before ++ [0]) sgArgV (sgArgC + 1) false
      else tokenLoop rest (before ++ [c]) sgArgV sgArgC ch
    else ⟨before, c :: rest, sgArgV, sgArgC, ch⟩

/-- What is done after the loop. -/
def endLine (t : Tokens) : Tokens :=
  if t.ch = true then { t with sgArgC := t.sgArgC + 1 }
  else if t.sgArgC > 0 then { t with before := t.before.set (t.before.length - 1) space }
  else t

/-- The texts behind the pointers. -/
def texts (memory : Bytes) (sgArgV : List Nat) : List Bytes :=
  sgArgV.map fun start => cstr (memory.drop start)

/-- The arguments that a command handler is given. -/
def arguments (t : Tokens) : List Bytes :=
  texts (t.before ++ t.rest ++ [0]) (t.sgArgV.take t.sgArgC)

def cliStart (line : Bytes) : List Bytes := arguments (endLine (tokenLoop line [] [] 0 false))

/-- The place of the handler that is called; `strcmp` compares the first argument. -/
def dispatch (gCliCmdTable : List Bytes) (args : List Bytes) : Option Nat :=
  args.head?.bind fun first => gCliCmdTable.findIdx? fun cmd => first == cmd

def isBlank (c : UInt8) : Bool := c == space

/-- The arguments are the first words of the line, and the command is the first word. -/
structure Tokenizes (gCliCmdTable : List Bytes) (line : Bytes) : Prop where
  args : cliStart line = (words isBlank line).take cliArgSize
  command : dispatch gCliCmdTable (cliStart line) =
    (words isBlank line).head?.bind fun word => gCliCmdTable.findIdx? fun cmd => word == cmd

def EndsInOneSpace (line : Bytes) : Prop :=
  ∃ front c, line = front ++ [c, space] ∧ c ≠ space

/-- At most `slots` words, nothing behind the word in the last slot, and no single space at
the end. -/
structure Unspoiled (slots : Nat) (line : Bytes) : Prop where
  fits : (words isBlank line).length ≤ slots
  full : (words isBlank line).length = slots → line.getLast? ≠ some space
  trailing : ¬ EndsInOneSpace line

/-! ### One word -/

section

variable {before : Bytes} {sgArgV : List Nat} {sgArgC : Nat}

theorem tokenLoop_nil (ch : Bool) :
    tokenLoop [] before sgArgV sgArgC ch = ⟨before, [], sgArgV, sgArgC, ch⟩ := rfl

theorem tokenLoop_full (rest : Bytes) (h : cliArgSize ≤ sgArgC) (ch : Bool) :
    tokenLoop rest before sgArgV sgArgC ch = ⟨before, rest, sgArgV, sgArgC, ch⟩ := by
  cases rest with
  | nil => rfl
  | cons c rest => rw [tokenLoop, if_neg (Nat.not_lt.mpr h)]

theorem tokenLoop_space (rest : Bytes) (h : sgArgC < cliArgSize) :
    tokenLoop (space :: rest) before sgArgV sgArgC false =
      tokenLoop rest (before ++ [space]) sgArgV sgArgC false := by
  rw [tokenLoop, if_pos h]
  simp

/-- Inside a word its bytes are passed over. -/
theorem tokenLoop_inside {word : Bytes} (hword : space ∉ word) (tail : Bytes)
    (h : sgArgC < cliArgSize) :
    tokenLoop (word ++ tail) before sgArgV sgArgC true =
      tokenLoop tail (before ++ word) sgArgV sgArgC true := by
  induction word generalizing before with
  | nil => rw [List.nil_append, List.append_nil]
  | cons c word ih =>
    obtain ⟨hc, hrest⟩ := List.ne_and_not_mem_of_not_mem_cons hword
    rw [List.cons_append, tokenLoop, if_pos h]
    simp only [Bool.true_eq_false, false_and, if_false, hc.symm, and_false]
    rw [ih hrest, List.append_assoc, List.singleton_append]

theorem tokenLoop_word {word : Bytes} (hne : word ≠ []) (hword : space ∉ word) (tail : Bytes)
    (h : sgArgC < cliArgSize) :
    tokenLoop (word ++ tail) before sgArgV sgArgC false =
      tokenLoop tail (before ++ word) (sgArgV ++ [before.length]) sgArgC true := by
  cases word with
  | nil => exact absurd rfl hne
  | cons c word =>
    obtain ⟨hc, hrest⟩ := List.ne_and_not_mem_of_not_mem_cons hword
    rw [List.cons_append, tokenLoop, if_pos h]
    simp only [ne_eq, hc.symm, not_false_eq_true, and_self, if_true, and_false, if_false]
    rw [tokenLoop_inside hrest tail h, List.append_assoc, List.singleton_append]

theorem tokenLoop_end (rest : Bytes) (h : sgArgC < cliArgSize) :
    tokenLoop (space :: rest) before sgArgV sgArgC true =
      tokenLoop rest (before ++ [0]) sgArgV (sgArgC + 1) false := by
  rw [tokenLoop, if_pos h]
  simp

end

/-! ### The condition -/

theorem isBlank_space : isBlank space = true := rfl

theorem not_isBlank {word : Bytes} (hword : space ∉ word) : ∀ c ∈ word, isBlank c = false :=
  fun _ hc => beq_eq_false_iff_ne.mpr (ne_of_mem_of_not_mem hc hword)

theorem endsInOneSpace_cons (a : UInt8) (rest : Bytes) :
    EndsInOneSpace (a :: rest) ↔ EndsInOneSpace rest ∨ rest = [space] ∧ a ≠ space := by
  constructor
  · rintro ⟨front, c, heq, hc⟩
    cases front with
    | nil =>
      cases heq
      exact .inr ⟨rfl, hc⟩
    | cons b front =>
      cases heq
      exact .inl ⟨front, c, rfl, hc⟩
  · rintro (⟨front, c, rfl, hc⟩ | ⟨rfl, ha⟩)
    · exact ⟨a :: front, c, rfl, hc⟩
    · exact ⟨[], a, rfl, ha⟩

theorem not_endsInOneSpace_nil : ¬ EndsInOneSpace [] := by
  rintro ⟨front, c, heq, -⟩
  have hlength := congrArg List.length heq
  rw [List.length_append] at hlength
  cases hlength

theorem endsInOneSpace_space (rest : Bytes) :
    EndsInOneSpace (space :: rest) ↔ EndsInOneSpace rest := by
  rw [endsInOneSpace_cons]
  exact or_iff_left fun h => h.2 rfl

theorem endsInOneSpace_append (front : Bytes) {rest : Bytes} (h : 2 ≤ rest.length) :
    EndsInOneSpace (front ++ rest) ↔ EndsInOneSpace rest := by
  induction front with
  | nil => rfl
  | cons a front ih =>
    rw [List.cons_append, endsInOneSpace_cons, ih]
    refine or_iff_left fun hone => ?_
    have hlength := congrArg List.length hone.1
    rw [List.length_append, List.length_singleton] at hlength
    omega

theorem unspoiled_nil {slots : Nat} (h : 0 < slots) : Unspoiled slots [] where
  fits := Nat.zero_le _
  full hfull := absurd hfull h.ne
  trailing := not_endsInOneSpace_nil

theorem unspoiled_space {slots : Nat} (h : 0 < slots) (rest : Bytes) :
    Unspoiled slots (space :: rest) ↔ Unspoiled slots rest := by
  have hwords := words_cons_sep isBlank_space rest
  have hlast : (words isBlank rest).length = slots →
      (space :: rest).getLast? = rest.getLast? := by
    intro hfull
    cases rest with
    | nil => exact absurd hfull h.ne
    | cons a rest => exact List.getLast?_cons_cons
  constructor
  · rintro ⟨hfits, hfull, htrailing⟩
    rw [hwords] at hfits hfull
    exact ⟨hfits, fun hslots => hlast hslots ▸ hfull hslots,
      (endsInOneSpace_space rest).not.mp htrailing⟩
  · rintro ⟨hfits, hfull, htrailing⟩
    refine ⟨hwords ▸ hfits, fun hslots => ?_, (endsInOneSpace_space rest).not.mpr htrailing⟩
    rw [hwords] at hslots
    rw [hlast hslots]
    exact hfull hslots

section

variable {word : Bytes} (hne : word ≠ []) (hword : space ∉ word)
include hne hword

theorem unspoiled_word {slots : Nat} (h : 0 < slots) : Unspoiled slots word := by
  have hwords := words_of_word hne (not_isBlank hword)
  refine ⟨hwords ▸ h, fun _ hlast => hword (List.mem_of_getLast? hlast), ?_⟩
  rintro ⟨front, c, rfl, -⟩
  exact hword (by simp)

/-- A single space behind the last word. -/
theorem not_unspoiled_end (slots : Nat) : ¬ Unspoiled slots (word ++ [space]) := by
  intro h
  apply h.trailing
  obtain ⟨front, c, rfl⟩ : ∃ front c, word = front ++ [c] :=
    ⟨_, _, (List.dropLast_append_getLast hne).symm⟩
  refine ⟨front, c, by rw [List.append_assoc]; rfl, ?_⟩
  rintro rfl
  exact hword (by simp)

/-- There is no slot left for what is behind the word. -/
theorem not_unspoiled_one (rest : Bytes) : ¬ Unspoiled 1 (word ++ space :: rest) := by
  rintro ⟨hfits, hfull, -⟩
  rw [words_word_cons hne (not_isBlank hword) isBlank_space, List.length_cons] at hfits hfull
  have hnone : words isBlank rest = [] := List.length_eq_zero_iff.mp (by omega)
  have hblank := sep_of_words_eq_nil hnone
  rw [hnone] at hfull
  refine hfull rfl ?_
  rw [List.getLast?_append_cons, List.getLast?_cons]
  cases hlast : rest.getLast? with
  | none => rfl
  | some c =>
    have hc := hblank c (List.mem_of_getLast? hlast)
    exact congrArg some (beq_iff_eq.mp hc)

theorem unspoiled_word_space {slots : Nat} {rest : Bytes} (hrest : rest ≠ []) :
    Unspoiled (slots + 1) (word ++ space :: rest) ↔ Unspoiled slots rest := by
  have hwords := words_word_cons hne (not_isBlank hword) isBlank_space rest
  have hlength : 2 ≤ (space :: rest).length :=
    Nat.succ_le_succ (List.length_pos_iff.mpr hrest)
  have htrailing : EndsInOneSpace (word ++ space :: rest) ↔ EndsInOneSpace rest :=
    (endsInOneSpace_append word hlength).trans (endsInOneSpace_space rest)
  have hlast : (word ++ space :: rest).getLast? = rest.getLast? := by
    obtain ⟨a, tail, rfl⟩ := List.exists_cons_of_ne_nil hrest
    rw [List.getLast?_append_cons, List.getLast?_cons_cons]
  constructor
  · rintro ⟨hfits, hfull, hspaced⟩
    rw [hwords, List.length_cons] at hfits hfull
    rw [hlast] at hfull
    exact ⟨Nat.le_of_succ_le_succ hfits, fun h => hfull (congrArg (· + 1) h),
      htrailing.not.mp hspaced⟩
  · rintro ⟨hfits, hfull, hspaced⟩
    refine ⟨?_, ?_, htrailing.not.mpr hspaced⟩
    · rw [hwords, List.length_cons]
      exact Nat.succ_le_succ hfits
    · rw [hwords, List.length_cons, hlast]
      exact fun h => hfull (Nat.succ.inj h)

end

/-! ### Every line -/

/-- Every argument that has been cut off keeps its end, whatever is stored behind it. -/
def Ended (before : Bytes) (sgArgV : List Nat) : Prop :=
  ∀ start ∈ sgArgV, 0 ∈ before.drop start

theorem Ended.append {before : Bytes} {sgArgV : List Nat} (h : Ended before sgArgV)
    (more : Bytes) : Ended (before ++ more) sgArgV := by
  intro start hstart
  rw [drop_append_of_ended (h start hstart)]
  exact List.mem_append_left _ (h start hstart)

theorem Ended.concat {before : Bytes} {sgArgV : List Nat} (h : Ended before sgArgV)
    (word : Bytes) : Ended (before ++ word ++ [0]) (sgArgV ++ [before.length]) := by
  intro start hstart
  rw [List.append_assoc]
  rcases List.mem_append.mp hstart with hstart | hstart
  · exact h.append (word ++ [0]) start hstart
  · rw [List.mem_singleton.mp hstart, List.drop_left]
    exact List.mem_append_right _ List.mem_cons_self

theorem texts_append {before : Bytes} {sgArgV : List Nat} (h : Ended before sgArgV)
    (more : Bytes) : texts (before ++ more) sgArgV = texts before sgArgV :=
  List.map_congr_left fun start hstart => cstr_of_ended (h start hstart) more

/-- The argument that begins behind the others. -/
theorem texts_concat {before : Bytes} {sgArgV : List Nat} (h : Ended before sgArgV)
    {word : Bytes} (hword : 0 ∉ word) (more : Bytes) :
    texts (before ++ (word ++ 0 :: more)) (sgArgV ++ [before.length]) =
      texts before sgArgV ++ [word] := by
  have hothers := texts_append h (word ++ 0 :: more)
  have hlast : cstr (word ++ 0 :: more) = word := by
    rw [cstr_append hword]
    simp [cstr]
  rw [texts] at hothers ⊢
  rw [List.map_append, hothers, List.map_singleton, List.drop_left, hlast]

section

variable {before : Bytes} {sgArgV : List Nat} {sgArgC : Nat} (hcount : sgArgV.length = sgArgC)
  (hargs : Ended before sgArgV)
include hcount hargs

/-- The line ends inside a word. -/
theorem arguments_inside {word : Bytes} (hword : 0 ∉ word) :
    arguments (endLine ⟨before ++ word, [], sgArgV ++ [before.length], sgArgC, true⟩) =
      texts before sgArgV ++ [word] := by
  rw [endLine, if_pos rfl, arguments]
  dsimp only
  rw [List.append_nil, List.append_assoc, List.take_of_length_le (by simp [hcount])]
  exact texts_concat hargs hword []

/-- The line ends behind a space that was not overwritten. -/
theorem arguments_clean (hclean : sgArgC = 0 ∨ ∃ front, before = front ++ [space]) :
    arguments (endLine ⟨before, [], sgArgV, sgArgC, false⟩) = texts before sgArgV := by
  have hend : endLine ⟨before, [], sgArgV, sgArgC, false⟩ =
      ⟨before, [], sgArgV, sgArgC, false⟩ := by
    rw [endLine, if_neg Bool.false_ne_true]
    rcases hclean with hzero | ⟨front, hfront⟩
    · exact if_neg (by simp [hzero])
    · split
      · rw [hfront]
        simp
      · rfl
  rw [hend, arguments]
  dsimp only
  rw [List.append_nil, List.take_of_length_le hcount.le]
  exact texts_append hargs [0]

/-- The line ends, or the slots are full, right behind a word: it loses its end. -/
theorem arguments_spoiled {word : Bytes} (hword : 0 ∉ word) {rest : Bytes} (hrest : 0 ∉ rest) :
    arguments (endLine ⟨before ++ word ++ [0], rest, sgArgV ++ [before.length], sgArgC + 1,
      false⟩) = texts before sgArgV ++ [word ++ space :: rest] := by
  have hset : (before ++ word ++ [0]).set ((before ++ word ++ [0]).length - 1) space =
      before ++ word ++ [space] := by
    have hlast : (before ++ word ++ [0]).length - 1 = (before ++ word).length := by simp
    rw [hlast, List.set_append_right _ _ (le_refl _), Nat.sub_self]
    rfl
  have hzero : 0 ∉ word ++ space :: rest := by
    rw [List.mem_append, List.mem_cons, not_or, not_or]
    exact ⟨hword, by decide, hrest⟩
  rw [endLine, if_neg Bool.false_ne_true, if_pos (Nat.succ_pos _), arguments]
  dsimp only
  rw [hset, List.take_of_length_le (by simp [hcount])]
  have hmemory : before ++ word ++ [space] ++ rest ++ [0] =
      before ++ ((word ++ space :: rest) ++ 0 :: []) := by simp
  rw [hmemory]
  exact texts_concat hargs hzero []

/-- What it holds then is not the word. -/
theorem arguments_ne_of_spoiled {word : Bytes} (hword : 0 ∉ word) {rest : Bytes}
    (hrest : 0 ∉ rest) (others : List Bytes) :
    arguments (endLine ⟨before ++ word ++ [0], rest, sgArgV ++ [before.length], sgArgC + 1,
      false⟩) ≠ texts before sgArgV ++ word :: others := by
  rw [arguments_spoiled hcount hargs hword hrest]
  intro heq
  have hsame := (List.cons.inj (List.append_cancel_left heq)).1
  have hlonger := congrArg List.length hsame
  rw [List.length_append, List.length_cons] at hlonger
  omega

end

/-- A line that begins with a word. -/
theorem exists_word {c : UInt8} (hc : c ≠ space) (line : Bytes) :
    ∃ word tail, c :: line = word ++ tail ∧ word ≠ [] ∧ space ∉ word ∧
      (tail = [] ∨ ∃ rest, tail = space :: rest) := by
  by_cases hspace : space ∈ c :: line
  · obtain ⟨word, rest, heq, hword⟩ := List.eq_append_cons_of_mem hspace
    refine ⟨word, space :: rest, heq, ?_, hword, .inr ⟨rest, rfl⟩⟩
    rintro rfl
    exact hc (List.cons.inj heq).1
  · exact ⟨c :: line, [], (List.append_nil _).symm, List.cons_ne_nil _ _, hspace, .inl rfl⟩

/-- From a place in front of a word or behind a space that stays. -/
theorem arguments_iff (line : Bytes) {before : Bytes} {sgArgV : List Nat} {sgArgC : Nat}
    (hcount : sgArgV.length = sgArgC) (hslots : sgArgC < cliArgSize)
    (hargs : Ended before sgArgV) (hzero : 0 ∉ line)
    (hclean : line = [] → sgArgC = 0 ∨ ∃ front, before = front ++ [space]) :
    arguments (endLine (tokenLoop line before sgArgV sgArgC false)) =
        texts before sgArgV ++ (words isBlank line).take (cliArgSize - sgArgC) ↔
      Unspoiled (cliArgSize - sgArgC) line := by
  induction hlength : line.length using Nat.strong_induction_on
    generalizing line before sgArgV sgArgC with
  | _ size ih =>
    have hfree : 0 < cliArgSize - sgArgC := Nat.sub_pos_of_lt hslots
    cases line with
    | nil =>
      rw [tokenLoop_nil, arguments_clean hcount hargs (hclean rfl), words_nil, List.take_nil,
        List.append_nil]
      exact iff_of_true rfl (unspoiled_nil hfree)
    | cons c line =>
      by_cases hc : c = space
      · subst hc
        have hnext := ih line.length (hlength ▸ Nat.lt_succ_self _) line hcount hslots
          (hargs.append [space]) (fun hmem => hzero (List.mem_cons_of_mem _ hmem))
          (fun _ => .inr ⟨before, rfl⟩) rfl
        rw [texts_append hargs] at hnext
        rw [tokenLoop_space line hslots, words_cons_sep isBlank_space, hnext,
          unspoiled_space hfree]
      · obtain ⟨word, tail, hline, hne, hword, htail⟩ := exists_word hc line
        rw [hline] at hzero ⊢
        have hwordZero : 0 ∉ word := fun hmem => hzero (List.mem_append_left _ hmem)
        rw [tokenLoop_word hne hword tail hslots]
        rcases htail with rfl | ⟨rest, rfl⟩
        · rw [tokenLoop_nil, arguments_inside hcount hargs hwordZero, List.append_nil,
            words_of_word hne (not_isBlank hword), List.take_of_length_le hfree]
          exact iff_of_true rfl (unspoiled_word hne hword hfree)
        · have hrestZero : 0 ∉ rest := fun hmem =>
            hzero (List.mem_append_right _ (List.mem_cons_of_mem _ hmem))
          have hwords := words_word_cons hne (not_isBlank hword) isBlank_space rest
          obtain ⟨slots, hslot⟩ : ∃ slots, cliArgSize - sgArgC = slots + 1 :=
            ⟨_, (Nat.succ_pred_eq_of_pos hfree).symm⟩
          rw [tokenLoop_end rest hslots, hwords, hslot, List.take_succ_cons]
          have hspoiled := arguments_ne_of_spoiled hcount hargs hwordZero hrestZero
            ((words isBlank rest).take slots)
          by_cases hfull : slots = 0
          · subst hfull
            rw [tokenLoop_full rest (by omega)]
            exact iff_of_false hspoiled (not_unspoiled_one hne hword rest)
          by_cases hrest : rest = []
          · subst hrest
            rw [tokenLoop_nil]
            exact iff_of_false hspoiled (not_unspoiled_end hne hword _)
          · have hshorter : rest.length < size := by
              rw [← hlength, hline, List.length_append, List.length_cons]
              omega
            have hmore : (sgArgV ++ [before.length]).length = sgArgC + 1 := by simp [hcount]
            have hnext := ih rest.length hshorter rest hmore (by omega) (hargs.concat word)
              hrestZero (fun hnil => absurd hnil hrest) rfl
            have htexts := texts_concat hargs hwordZero []
            rw [← List.append_assoc] at htexts
            rw [htexts, show cliArgSize - (sgArgC + 1) = slots by omega,
              List.append_assoc (texts before sgArgV), List.singleton_append] at hnext
            rw [hnext, unspoiled_word_space hne hword hrest]

/-- In every line, `gCliCmdTable` being any list of commands. -/
theorem tokenizes_iff (gCliCmdTable : List Bytes) (sgCmdBuffer : Bytes) :
    Tokenizes gCliCmdTable (cstr sgCmdBuffer) ↔ Unspoiled cliArgSize (cstr sgCmdBuffer) := by
  have hsplit : cliStart (cstr sgCmdBuffer) = (words isBlank (cstr sgCmdBuffer)).take cliArgSize ↔
      Unspoiled cliArgSize (cstr sgCmdBuffer) :=
    arguments_iff (cstr sgCmdBuffer) rfl (by decide) (fun _ h => absurd h List.not_mem_nil)
      (zero_not_mem_cstr sgCmdBuffer) fun _ => .inl rfl
  rw [← hsplit]
  refine ⟨Tokenizes.args, fun hargs => ⟨hargs, ?_⟩⟩
  rw [hargs, dispatch]
  cases words isBlank (cstr sgCmdBuffer) <;> rfl

/-- `help` with a space behind it is no command. -/
theorem help_not_found :
    cliStart (ofString "help ") = [ofString "help "] ∧
      dispatch [ofString "help"] (cliStart (ofString "help ")) = none ∧
      ¬ Tokenizes [ofString "help"] (ofString "help ") := by
  have hargs : cliStart (ofString "help ") = [ofString "help "] := by decide
  have hnone : dispatch [ofString "help"] (cliStart (ofString "help ")) = none := by decide
  refine ⟨hargs, hnone, fun h => ?_⟩
  have hsame := hargs.symm.trans h.args
  exact absurd hsame (by decide)

end Sv6x66.Cli.Tokenizer
