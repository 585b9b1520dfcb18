import Sv6x66.Lib.CString

/-! `At_Parser` and `parseBuff2Param` of `atcmd.c`, for any command table. The
command word is copied into an array on the stack, whose content before the call
is a parameter. -/
namespace Sv6x66.Atcmd.CommandLine
open Sv6x66.Lib.CString

def maxCmdLen : Nat := 32
def maxArgument : Nat := 24

def errorMemoryFailed : Int := -11
def errorUdpConnection : Int := -9
def errorTcpConnection : Int := -8
def errorWifiConnection : Int := -4
def errorUnknownCommand : Int := -3
def errorNotImplement : Int := -2
def errorInvalidParameter : Int := -1
def errorSuccess : Int := 0
def errorSuccessNoRsp : Int := 1

/-! ### The arguments -/

/-- `stParam`: the arguments are texts in the line, given by where they start. -/
structure Param where
  memory : Bytes
  argv : List Nat
deriving DecidableEq

namespace Param

/-- After `memset`. -/
def zero : Param := ⟨[], []⟩

def argc (p : Param) : Nat := p.argv.length

/-- The text `argv[i]` points to; from `argc` on the pointer is NULL. -/
def deref (p : Param) (i : Nat) : Option Bytes :=
  p.argv[i]?.map fun start => cstr (p.memory.drop start)

theorem deref_isSome (p : Param) (i : Nat) : (p.deref i).isSome ↔ i < p.argc := by
  simp [deref, argc]

end Param

def comma : UInt8 := 44

/-- `for(; i < buflen; i++)` up to a comma. -/
def nextComma (buf : Bytes) (i : Nat) : Nat := i + ((buf.drop i).takeWhile (· ≠ comma)).length

/-- `while(argc < maxargu)`, with the arguments still allowed. The comma found is
overwritten, so the next search leaves it behind. -/
def splitLoop : (allowed : Nat) → (buf : Bytes) → (i : Nat) → (argv : List Nat) → Param
  | 0, buf, _, argv => ⟨buf, argv⟩
  | allowed + 1, buf, i, argv =>
    let i := nextComma buf i
    if i = buf.length then ⟨buf, argv⟩
    else
      let buf := buf.set i 0
      if buf.getD (i + 1) 0 ≠ 0 then splitLoop allowed buf i (argv ++ [i + 1]) else ⟨buf, argv⟩

def parseBuff2Param (bufCmd : Bytes) (maxargu : UInt8) : Param :=
  let text := cstr bufCmd
  if text.length = 0 then .zero
  else
    let maxargu := if maxargu = 0 then maxArgument else maxargu.toNat
    splitLoop (maxargu - 1) text 0 [0]

/-! ### The command word -/

def equalSign : UInt8 := 61
def space : UInt8 := 32
def carriageReturn : UInt8 := 13
def lineFeed : UInt8 := 10

def isDelimiter (byte : UInt8) : Bool := byte = 0 || byte = equalSign || byte = space

/-- `buff[i]`; the line is terminated at `buff[len]`. -/
def charAt (line : Bytes) (i : Nat) : UInt8 := line.getD i 0

/-- Where the loop that looks for the end of the command word stops. -/
def findDelimiter (line : Bytes) : Option Nat :=
  (List.range maxCmdLen).find? fun i => isDelimiter (charAt line i)

/-- The memory from `cmd` on, after the loop. -/
def cmdMemory (stack line : Bytes) : Bytes :=
  match findDelimiter line with
  | some i => line.take i ++ 0 :: stack.drop (i + 1)
  | none => stack

def operat (line : Bytes) : UInt8 :=
  match findDelimiter line with
  | some i => charAt line i
  | none => 0

/-! ### The command table -/

/-- `at_cmd_info`. -/
structure AtCmdInfo (η : Type) where
  atCmd : Bytes
  pfHandle : η
  maxargu : UInt8

inductive Response where
  | ok (cmd : Bytes)
  | error (nRet : Int)
deriving DecidableEq

/-- What the line led to. -/
structure Outcome (η : Type) where
  ran : Option (η × Param)
  nRet : Int
  response : Option Response
deriving DecidableEq

/-- `exit_rsp`. -/
def respond (cmd : Bytes) (nRet : Int) : Option Response :=
  if errorSuccess > nRet then some (.error nRet)
  else if errorSuccess = nRet then some (.ok cmd)
  else none

/-- A handler that reads through a NULL argument has no result. -/
def atParser {η : Type} (table : List (AtCmdInfo η)) (call : η → Param → Option Int)
    (stack line : Bytes) : Option (Outcome η) :=
  let len := line.length + 1
  if 1 = len ∧ (charAt line 0 = carriageReturn ∨ charAt line 0 = lineFeed) then
    some ⟨none, errorSuccess, none⟩
  else if 0 = len then some ⟨none, errorInvalidParameter, some (.error errorInvalidParameter)⟩
  else
    let cmd := cstr (cmdMemory stack line)
    match table.find? fun entry => entry.atCmd = cmd with
    | some entry =>
      let param :=
        if operat line ≠ 0 then
          parseBuff2Param (line.drop (entry.atCmd.length + 1)) entry.maxargu
        else .zero
      (call entry.pfHandle param).map fun nRet =>
        ⟨some (entry.pfHandle, param), nRet, respond cmd nRet⟩
    | none => some ⟨none, errorUnknownCommand, respond cmd errorUnknownCommand⟩

/-! ### The command word and its handler -/

/-- The text up to the first `=`, space or end of the line. -/
def word (line : Bytes) : Bytes := line.takeWhile fun byte => !isDelimiter byte

/-- The arguments behind an `=` or a space. -/
def argumentsOf (line : Bytes) (maxargu : UInt8) : Param :=
  match line.drop (word line).length with
  | [] => .zero
  | delimiter :: rest => if delimiter ≠ 0 then parseBuff2Param rest maxargu else .zero

/-- The handler of the first entry with the name given, or the error. -/
def dispatch {η : Type} (table : List (AtCmdInfo η)) (call : η → Param → Option Int)
    (line : Bytes) : Option (Outcome η) :=
  match table.find? fun entry => entry.atCmd = word line with
  | some entry =>
    let param := argumentsOf line entry.maxargu
    (call entry.pfHandle param).map fun nRet =>
      ⟨some (entry.pfHandle, param), nRet, respond (word line) nRet⟩
  | none => some ⟨none, errorUnknownCommand, some (.error errorUnknownCommand)⟩

/-- The word fits into `cmd`. -/
def WordFits (line : Bytes) : Prop := ∃ i < maxCmdLen, isDelimiter (charAt line i)

theorem isDelimiter_charAt_word (line : Bytes) :
    isDelimiter (charAt line (word line).length) = true := by
  induction line with
  | nil => rfl
  | cons byte rest ih =>
    unfold word
    by_cases hbyte : isDelimiter byte = true
    · rw [List.takeWhile_cons_of_neg (by simp [hbyte])]
      exact hbyte
    · rw [List.takeWhile_cons_of_pos (by simp [hbyte])]
      exact ih

theorem not_isDelimiter_charAt {line : Bytes} {i : Nat} (h : i < (word line).length) :
    isDelimiter (charAt line i) = false := by
  induction line generalizing i with
  | nil => cases h
  | cons byte rest ih =>
    unfold word at h
    by_cases hbyte : isDelimiter byte = true
    · rw [List.takeWhile_cons_of_neg (by simp [hbyte])] at h
      cases h
    · rw [List.takeWhile_cons_of_pos (by simp [hbyte])] at h
      cases i with
      | zero => exact eq_false_of_ne_true hbyte
      | succ i => exact ih (Nat.lt_of_succ_lt_succ h)

theorem take_word (line : Bytes) : line.take (word line).length = word line :=
  (List.prefix_iff_eq_take.mp (List.takeWhile_prefix _)).symm

/-- The loop stops at the end of the word, if that is within its bound. -/
theorem findDelimiter_eq (line : Bytes) :
    findDelimiter line =
      if (word line).length < maxCmdLen then some (word line).length else none := by
  unfold findDelimiter
  split
  · rename_i hlt
    rw [List.find?_range_eq_some]
    refine ⟨isDelimiter_charAt_word line, List.mem_range.mpr hlt, fun j hj => ?_⟩
    simp [not_isDelimiter_charAt hj]
  · rename_i hlt
    rw [List.find?_range_eq_none]
    intro i hi
    simp [not_isDelimiter_charAt (hi.trans_le (not_lt.mp hlt))]

theorem wordFits_iff (line : Bytes) : WordFits line ↔ (word line).length < maxCmdLen := by
  constructor
  · rintro ⟨i, hi, hdelimiter⟩
    by_contra hlong
    rw [not_isDelimiter_charAt (hi.trans_le (not_lt.mp hlong))] at hdelimiter
    cases hdelimiter
  · intro hlt
    exact ⟨(word line).length, hlt, isDelimiter_charAt_word line⟩

theorem zero_not_mem_word (line : Bytes) : 0 ∉ word line := by
  intro hmem
  exact absurd (List.mem_takeWhile_imp hmem) (by decide)

/-- A word that fits is the text at `cmd`, whatever the stack held. -/
theorem cstr_cmdMemory {line : Bytes} (h : WordFits line) (stack : Bytes) :
    cstr (cmdMemory stack line) = word line := by
  rw [wordFits_iff] at h
  unfold cmdMemory
  rw [findDelimiter_eq, if_pos h]
  dsimp only
  rw [take_word, cstr_append (zero_not_mem_word line)]
  simp [cstr]

/-- A word that does not fit is not copied. -/
theorem cmdMemory_of_not_fits {line : Bytes} (h : ¬ WordFits line) (stack : Bytes) :
    cmdMemory stack line = stack := by
  rw [wordFits_iff] at h
  unfold cmdMemory
  rw [findDelimiter_eq, if_neg h]

theorem argumentsOf_eq {line : Bytes} (h : WordFits line) (maxargu : UInt8) :
    argumentsOf line maxargu =
      if operat line ≠ 0 then parseBuff2Param (line.drop ((word line).length + 1)) maxargu
      else .zero := by
  have hoperat : operat line = ((line.drop (word line).length).head?).getD 0 := by
    rw [wordFits_iff] at h
    unfold operat
    rw [findDelimiter_eq, if_pos h, List.head?_drop]
    rfl
  unfold argumentsOf
  cases hdrop : line.drop (word line).length with
  | nil =>
    rw [hdrop] at hoperat
    simp [hoperat]
  | cons delimiter rest =>
    rw [hdrop] at hoperat
    have hrest : line.drop ((word line).length + 1) = rest := by
      rw [← List.tail_drop, hdrop, List.tail_cons]
    simp only [hoperat, hrest, List.head?_cons, Option.getD_some]

/-- The early exits are never taken: an empty line starts with its terminator. -/
theorem atParser_eq {η : Type} (table : List (AtCmdInfo η)) (call : η → Param → Option Int)
    (stack line : Bytes) :
    atParser table call stack line =
      match table.find? fun entry => entry.atCmd = cstr (cmdMemory stack line) with
      | some entry =>
        let param :=
          if operat line ≠ 0 then
            parseBuff2Param (line.drop (entry.atCmd.length + 1)) entry.maxargu
          else .zero
        (call entry.pfHandle param).map fun nRet =>
          ⟨some (entry.pfHandle, param), nRet, respond (cstr (cmdMemory stack line)) nRet⟩
      | none => some ⟨none, errorUnknownCommand, some (.error errorUnknownCommand)⟩ := by
  unfold atParser
  have hempty : ¬ (1 = line.length + 1 ∧
      (charAt line 0 = carriageReturn ∨ charAt line 0 = lineFeed)) := by
    rintro ⟨hlength, hchar⟩
    have hnil : line = [] := List.eq_nil_of_length_eq_zero (by omega)
    subst hnil
    rcases hchar with hchar | hchar <;> cases hchar
  simp only [if_neg hempty]
  rfl

/-- The handler run and its arguments. -/
def selected {η : Type} (table : List (AtCmdInfo η)) (stack line : Bytes) : Option (η × Param) :=
  (table.find? fun entry => entry.atCmd = cstr (cmdMemory stack line)).map fun entry =>
    (entry.pfHandle,
      if operat line ≠ 0 then
        parseBuff2Param (line.drop (entry.atCmd.length + 1)) entry.maxargu
      else .zero)

theorem atParser_isSome_iff {η : Type} (table : List (AtCmdInfo η))
    (call : η → Param → Option Int) (stack line : Bytes) :
    (atParser table call stack line).isSome ↔
      ∀ run ∈ selected table stack line, (call run.1 run.2).isSome := by
  rw [atParser_eq]
  unfold selected
  cases table.find? fun entry => entry.atCmd = cstr (cmdMemory stack line) with
  | none => simp
  | some entry => simp

variable {η : Type} {table : List (AtCmdInfo η)} {call : η → Param → Option Int} {line : Bytes}

theorem atParser_of_fits (h : WordFits line) (stack : Bytes) :
    atParser table call stack line = dispatch table call line := by
  rw [atParser_eq, cstr_cmdMemory h]
  unfold dispatch
  cases hentry : table.find? fun entry => entry.atCmd = word line with
  | none => rfl
  | some entry =>
    have hname : entry.atCmd = word line := by simpa using List.find?_some hentry
    dsimp only
    rw [hname, argumentsOf_eq h]

/-- A word that does not fit is no name, but the handler of whatever name the
stack held is run. -/
theorem dispatch_of_not_fits (hshort : ∀ entry ∈ table, entry.atCmd.length < maxCmdLen)
    (h : ¬ WordFits line) :
    dispatch table call line = some ⟨none, errorUnknownCommand, some (.error errorUnknownCommand)⟩ := by
  unfold dispatch
  have hnone : table.find? (fun entry => entry.atCmd = word line) = none := by
    rw [List.find?_eq_none]
    intro entry hentry hname
    apply h
    rw [wordFits_iff]
    have hword : entry.atCmd = word line := by simpa using hname
    rw [← hword]
    exact hshort entry hentry
  rw [hnone]

theorem atParser_leftover {first : AtCmdInfo η} {rest : List (AtCmdInfo η)}
    (hname : 0 ∉ first.atCmd) (h : ¬ WordFits line) :
    atParser (first :: rest) call (first.atCmd ++ [0]) line =
      (call first.pfHandle .zero).map fun nRet =>
        ⟨some (first.pfHandle, .zero), nRet, respond first.atCmd nRet⟩ := by
  have hcmd : cstr (first.atCmd ++ [0]) = first.atCmd := by
    rw [cstr_append hname]
    simp [cstr]
  have hoperat : operat line = 0 := by
    rw [wordFits_iff] at h
    unfold operat
    rw [findDelimiter_eq, if_neg h]
  rw [atParser_eq, cmdMemory_of_not_fits h, hcmd, List.find?_cons_of_pos (by simp), hoperat]
  rfl

end Sv6x66.Atcmd.CommandLine
