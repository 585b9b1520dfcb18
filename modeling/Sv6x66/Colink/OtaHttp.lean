import Sv6x66.Lib.CString

/-! The HTTP texts the firmware download looks for in a reply, and the replies
it understands. -/
namespace Sv6x66.Colink.OtaHttp

open Sv6x66.Lib.CString

def http206Return : Bytes := ofString "HTTP/1.1 206 Partial Content"
def http206Ranges : Bytes := ofString "Content-Range: bytes "
def crlf : Bytes := ofString "\r\n"
def headerEnd : Bytes := ofString "\r\n\r\n"
def slash : Bytes := ofString "/"

/-- `(int32_t)value`, undefined where the value does not fit. -/
def toInt32 (value : Int) : Option Int :=
  if -2 ^ 31 ≤ value ∧ value < 2 ^ 31 then some value else none

/-- `none` is undefined behaviour: a number of 12 characters or more runs over
`bin_length_str`, one beyond 31 bits over `int`. -/
def getUserBinLength (pdata : Bytes) : Option Int :=
  match strstr pdata http206Ranges with
  | none => some 0
  | some found =>
    let t1 := found + http206Ranges.length
    match strstr (pdata.drop t1) slash with
    | none => some 0
    | some t2 =>
      match strstr (pdata.drop (t1 + t2 + 1)) crlf with
      | none => some 0
      | some len =>
        if len < 12 then toInt32 (atoi ((pdata.drop (t1 + t2 + 1)).take len)) else none

/-- The header of a reply with status 206 for an image of this size. -/
structure IsHeader (size : Nat) (header : Bytes) : Prop where
  status : http206Return <+: header
  noNul : 0 ∉ header
  total : ∃ before range rest,
    header = before ++ (http206Ranges ++ (range ++ (slash ++ (decimal size ++ (crlf ++ rest))))) ∧
    find http206Ranges header = some before.length ∧ 47 ∉ range
  ends : find headerEnd header = some (header.length - 4)

theorem IsHeader.four_le {size : Nat} {header : Bytes} (h : IsHeader size header) :
    4 ≤ header.length :=
  Nat.le_trans (by decide) h.status.length_le

theorem strstr_headerEnd {size : Nat} {header : Bytes} (h : IsHeader size header)
    (memory : Bytes) : strstr (header ++ memory) headerEnd = some (header.length - 4) :=
  strstr_append h.noNul h.ends memory

/-- The number after the first `/` of `Content-Range` is the total, whatever
follows the header in the buffer. -/
theorem getUserBinLength_header {size : Nat} {header : Bytes} (h : IsHeader size header)
    (memory : Bytes) :
    getUserBinLength (header ++ memory) = if size < 2 ^ 31 then some (size : Int) else none := by
  obtain ⟨before, range, rest, hheader, hranges, hslash⟩ := h.total
  have hnul := h.noNul
  rw [hheader] at hnul
  simp only [List.mem_append, not_or] at hnul
  obtain ⟨-, -, hnulRange, hnulSlash, hnulDecimal, hnulCrlf, hnulRest⟩ := hnul
  have hfirst : strstr (header ++ memory) http206Ranges = some before.length :=
    strstr_append h.noNul hranges memory
  have hafterRanges : (header ++ memory).drop (before.length + http206Ranges.length) =
      (range ++ (slash ++ (decimal size ++ (crlf ++ rest)))) ++ memory := by
    rw [hheader, ← List.append_assoc before, List.append_assoc, ← List.length_append]
    exact List.drop_left
  have hsecond : strstr ((range ++ (slash ++ (decimal size ++ (crlf ++ rest)))) ++ memory) slash =
      some range.length := by
    apply strstr_append
    · simp only [List.mem_append, not_or]
      exact ⟨hnulRange, hnulSlash, hnulDecimal, hnulCrlf, hnulRest⟩
    · exact find_of_head_not_mem hslash _
  have hafterSlash :
      (header ++ memory).drop (before.length + http206Ranges.length + range.length + 1) =
        (decimal size ++ (crlf ++ rest)) ++ memory := by
    rw [Nat.add_assoc (before.length + _), ← List.drop_drop, hafterRanges,
      ← List.append_assoc range, List.append_assoc (range ++ slash)]
    exact List.drop_left' (by simp [slash, ofString])
  have hthird : strstr ((decimal size ++ (crlf ++ rest)) ++ memory) crlf =
      some (decimal size).length := by
    apply strstr_append
    · simp only [List.mem_append, not_or]
      exact ⟨hnulDecimal, hnulCrlf, hnulRest⟩
    · exact find_of_head_not_mem (not_mem_decimal (by decide) size) _
  unfold getUserBinLength
  simp only [hfirst, hafterRanges, hsecond, hafterSlash, hthird]
  rw [List.append_assoc, List.take_left, atoi_decimal]
  unfold toInt32
  by_cases hsize : size < 2 ^ 31
  · have hlength : (decimal size).length ≤ 10 := length_decimal_le (by omega)
    rw [if_pos (by omega), if_pos (by omega), if_pos hsize]
  · rw [if_neg hsize, if_neg (c := -2 ^ 31 ≤ (size : Int) ∧ _) (by omega), ite_self]

end Sv6x66.Colink.OtaHttp
