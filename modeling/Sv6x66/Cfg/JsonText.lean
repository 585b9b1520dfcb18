import Sv6x66.Lib.CString

/-! `cJSON_Print` and `cJSON_Parse` on objects whose values are texts, which is what the
configuration in the flash is made of. -/
namespace Sv6x66.Cfg.JsonText
open Sv6x66.Lib.CString

def quote : UInt8 := 34
def comma : UInt8 := 44
def colon : UInt8 := 58
def backslash : UInt8 := 92
def letterU : UInt8 := 117
def openBrace : UInt8 := 123
def closeBrace : UInt8 := 125
def tab : UInt8 := 9
def newline : UInt8 := 10

/-- A name and the text it stands for. -/
abbrev Member := Bytes × Bytes

/-! ### Printing -/

/-- A digit of `"%04x"`. -/
def lowerHex (digit : Nat) : UInt8 := UInt8.ofNat (if digit < 10 then 48 + digit else 87 + digit)

/-- A byte of a text as `print_string_ptr` writes it. -/
def escape (byte : UInt8) : Bytes :=
  if byte > 31 ∧ byte ≠ quote ∧ byte ≠ backslash then [byte]
  else if byte = backslash then [backslash, backslash]
  else if byte = quote then [backslash, quote]
  else if byte = 8 then [backslash, 98]
  else if byte = 12 then [backslash, 102]
  else if byte = 10 then [backslash, 110]
  else if byte = 13 then [backslash, 114]
  else if byte = 9 then [backslash, 116]
  else [backslash, letterU, 48, 48, lowerHex (byte.toNat / 16), lowerHex (byte.toNat % 16)]

def printStringPtr (input : Bytes) : Bytes := quote :: input.flatMap escape ++ [quote]

/-- One round of the loop of `print_object`, with `format` set and a depth of 1. -/
def printMember (member : Member) (last : Bool) : Bytes :=
  tab :: printStringPtr member.1 ++ [colon, tab] ++ printStringPtr member.2 ++
    (if last then [newline] else [comma, newline])

def printMembers : List Member → Bytes
  | [] => []
  | member :: rest => printMember member rest.isEmpty ++ printMembers rest

def printObject (members : List Member) : Bytes :=
  [openBrace, newline] ++ printMembers members ++ [closeBrace]

/-! ### Parsing -/

def skipWhitespace (text : Bytes) : Bytes := text.dropWhile (· ≤ 32)

/-- The first loop of `parse_string`: what is in front of the closing quote, and what is
behind it. -/
def rawString : Bytes → Option (Bytes × Bytes)
  | [] => none
  | c :: rest =>
    if c = quote then some ([], rest)
    else if c = backslash then
      match rest with
      | [] => none
      | d :: rest => (rawString rest).map fun found => (c :: d :: found.1, found.2)
    else (rawString rest).map fun found => (c :: found.1, found.2)

/-- `parse_hex4`, which is 0 for anything else than four digits. -/
def parseHex4 (a b c d : UInt8) : Nat :=
  (do some (4096 * (← hexDigit a) + 256 * (← hexDigit b) + 16 * (← hexDigit c) +
    (← hexDigit d))).getD 0
where hexDigit (c : UInt8) : Option Nat := (digitOf c).filter (· < 16)

/-- The bytes of a codepoint below `0x110000`. -/
def utf8 (codepoint : Nat) : Bytes :=
  if codepoint < 0x80 then [UInt8.ofNat codepoint]
  else if codepoint < 0x800 then
    [UInt8.ofNat (0xC0 + codepoint / 64), UInt8.ofNat (0x80 + codepoint % 64)]
  else if codepoint < 0x10000 then
    [UInt8.ofNat (0xE0 + codepoint / 4096), UInt8.ofNat (0x80 + codepoint / 64 % 64),
      UInt8.ofNat (0x80 + codepoint % 64)]
  else
    [UInt8.ofNat (0xF0 + codepoint / 262144), UInt8.ofNat (0x80 + codepoint / 4096 % 64),
      UInt8.ofNat (0x80 + codepoint / 64 % 64), UInt8.ofNat (0x80 + codepoint % 64)]

/-- `utf16_literal_to_utf8` on the text behind `\u`, with the number of bytes it takes. -/
def utf16Literal : Bytes → Option (Bytes × Nat)
  | a :: b :: c :: d :: rest =>
    let first := parseHex4 a b c d
    if 0xDC00 ≤ first ∧ first ≤ 0xDFFF then none
    else if 0xD800 ≤ first ∧ first ≤ 0xDBFF then
      match rest with
      | slash :: u :: a :: b :: c :: d :: _ =>
        let second := parseHex4 a b c d
        if slash ≠ backslash ∨ u ≠ letterU ∨ second < 0xDC00 ∨ 0xDFFF < second then none
        else some (utf8 (0x10000 + (first % 1024 * 1024 + second % 1024)), 10)
      | _ => none
    else some (utf8 first, 4)
  | _ => none

/-- The escape sequences of two characters. -/
def unescape (c : UInt8) : Option UInt8 :=
  if c = 98 then some 8
  else if c = 102 then some 12
  else if c = 110 then some 10
  else if c = 114 then some 13
  else if c = 116 then some 9
  else if c = quote ∨ c = backslash ∨ c = 47 then some c
  else none

/-- The second loop of `parse_string`. -/
def decode (raw : Bytes) : Option Bytes :=
  match raw with
  | [] => some []
  | c :: rest =>
    if c ≠ backslash then (decode rest).map (c :: ·)
    else
      match rest with
      | [] => none
      | d :: rest =>
        if d = letterU then do
          let (bytes, taken) ← utf16Literal rest
          (decode (rest.drop taken)).map (bytes ++ ·)
        else do
          let byte ← unescape d
          (decode rest).map (byte :: ·)
termination_by raw.length
decreasing_by
  all_goals simp only [List.length_cons, List.length_drop]
  all_goals omega

def parseString : Bytes → Option (Bytes × Bytes)
  | c :: rest =>
    if c = quote then do
      let (raw, rest) ← rawString rest
      some (cstr (← decode raw), rest)
    else none
  | [] => none

/-- One round of the loop of `parse_object`, for a value that is a text. -/
def parseMember (text : Bytes) : Option (Member × Bytes) := do
  let (name, rest) ← parseString (skipWhitespace text)
  match skipWhitespace rest with
  | c :: rest =>
    if c = colon then do
      let (value, rest) ← parseString (skipWhitespace rest)
      some ((name, value), skipWhitespace rest)
    else none
  | [] => none

theorem length_skipWhitespace_le (text : Bytes) : (skipWhitespace text).length ≤ text.length :=
  List.length_dropWhile_le _ _

theorem rawString_quote (rest : Bytes) : rawString (quote :: rest) = some ([], rest) := by
  rw [rawString.eq_def]
  exact if_pos rfl

theorem rawString_escaped (d : UInt8) (rest : Bytes) :
    rawString (backslash :: d :: rest) =
      (rawString rest).map fun found => (backslash :: d :: found.1, found.2) := rfl

theorem rawString_plain {c : UInt8} (hquote : c ≠ quote) (hslash : c ≠ backslash)
    (rest : Bytes) :
    rawString (c :: rest) = (rawString rest).map fun found => (c :: found.1, found.2) := by
  rw [rawString.eq_def]
  exact (if_neg hquote).trans (if_neg hslash)

theorem length_rawString {text raw rest : Bytes} (h : rawString text = some (raw, rest)) :
    rest.length < text.length := by
  induction text using rawString.induct generalizing raw with
  | case1 => cases h
  | case2 rest' =>
    rw [rawString_quote] at h
    cases h
    exact Nat.lt_succ_self _
  | case3 => cases h
  | case4 d rest' _ ih =>
    rw [rawString_escaped] at h
    obtain ⟨found, hfound, heq⟩ := Option.map_eq_some_iff.mp h
    cases heq
    have hlt := ih hfound
    rw [List.length_cons, List.length_cons]
    omega
  | case5 c rest' hquote hslash ih =>
    rw [rawString_plain hquote hslash] at h
    obtain ⟨found, hfound, heq⟩ := Option.map_eq_some_iff.mp h
    cases heq
    have hlt := ih hfound
    rw [List.length_cons]
    omega

theorem length_parseString {text value rest : Bytes}
    (h : parseString text = some (value, rest)) : rest.length < text.length := by
  cases text with
  | nil => cases h
  | cons c tail =>
    rw [parseString] at h
    split at h
    · obtain ⟨⟨raw, rest'⟩, hraw, h⟩ := Option.bind_eq_some_iff.mp h
      obtain ⟨bytes, -, heq⟩ := Option.bind_eq_some_iff.mp h
      cases heq
      exact (length_rawString hraw).trans (Nat.lt_succ_self _)
    · cases h

theorem length_parseMember {text rest : Bytes} {member : Member}
    (h : parseMember text = some (member, rest)) : rest.length < text.length := by
  obtain ⟨⟨name, afterName⟩, hname, h⟩ := Option.bind_eq_some_iff.mp h
  have hfirst := length_parseString hname
  have hskip := length_skipWhitespace_le text
  dsimp only at h
  split at h
  · rename_i c tail hcolon
    have hafter := length_skipWhitespace_le afterName
    rw [hcolon, List.length_cons] at hafter
    split at h
    · obtain ⟨⟨value, afterValue⟩, hvalue, heq⟩ := Option.bind_eq_some_iff.mp h
      cases heq
      have hsecond := length_parseString hvalue
      have htail := length_skipWhitespace_le tail
      have hend := length_skipWhitespace_le afterValue
      change (skipWhitespace afterValue).length < text.length
      omega
    · cases h
  · cases h

/-- The loop of `parse_object`. -/
def parseMembers (text : Bytes) : Option (List Member) :=
  match _ : parseMember text with
  | none => none
  | some (_, []) => none
  | some (member, c :: rest) =>
    if c = comma then (parseMembers rest).map (member :: ·)
    else if c = closeBrace then some [member]
    else none
termination_by text.length
decreasing_by
  have hlt := length_parseMember ‹_›
  rw [List.length_cons] at hlt
  omega

/-- `cJSON_Parse` on a text that is an object of texts. What follows the object is not
looked at. -/
def parseObject (text : Bytes) : Option (List Member) :=
  match skipWhitespace text with
  | [] => none
  | c :: rest =>
    if c = openBrace then
      if (skipWhitespace rest).head? = some closeBrace then some [] else parseMembers rest
    else none

/-! ### Reading what is printed -/

/-- The three ways a byte is printed. -/
theorem escape_cases (byte : UInt8) :
    (byte ≠ quote ∧ byte ≠ backslash ∧ escape byte = [byte]) ∨
    (∃ d, escape byte = [backslash, d] ∧ d ≠ letterU ∧ unescape d = some byte) ∨
    (escape byte =
        [backslash, letterU, 48, 48, lowerHex (byte.toNat / 16), lowerHex (byte.toNat % 16)] ∧
      byte.toNat < 32) := by
  by_cases hplain : byte > 31 ∧ byte ≠ quote ∧ byte ≠ backslash
  · exact .inl ⟨hplain.2.1, hplain.2.2, if_pos hplain⟩
  · right
    unfold escape
    rw [if_neg hplain]
    split
    · exact .inl ⟨backslash, rfl, by decide, by rw [‹byte = backslash›]; decide⟩
    split
    · exact .inl ⟨quote, rfl, by decide, by rw [‹byte = quote›]; decide⟩
    split
    · exact .inl ⟨98, rfl, by decide, by rw [‹byte = 8›]; decide⟩
    split
    · exact .inl ⟨102, rfl, by decide, by rw [‹byte = 12›]; decide⟩
    split
    · exact .inl ⟨110, rfl, by decide, by rw [‹byte = 10›]; decide⟩
    split
    · exact .inl ⟨114, rfl, by decide, by rw [‹byte = 13›]; decide⟩
    split
    · exact .inl ⟨116, rfl, by decide, by rw [‹byte = 9›]; decide⟩
    · refine .inr ⟨rfl, ?_⟩
      by_contra hge
      apply hplain
      refine ⟨?_, ‹_›, ‹_›⟩
      rw [gt_iff_lt, UInt8.lt_iff_toNat_lt]
      exact Nat.lt_of_lt_of_le (by decide) (not_lt.mp hge)

theorem lowerHex_plain {digit : Nat} (h : digit < 16) :
    lowerHex digit ≠ quote ∧ lowerHex digit ≠ backslash := by
  interval_cases digit <;> decide

theorem parseHex4_lowerHex {n : Nat} (h : n < 32) :
    parseHex4 48 48 (lowerHex (n / 16)) (lowerHex (n % 16)) = n := by
  interval_cases n <;> decide

theorem rawString_escape (byte : UInt8) (rest : Bytes) :
    rawString (escape byte ++ rest) =
      (rawString rest).map fun found => (escape byte ++ found.1, found.2) := by
  rcases escape_cases byte with ⟨hquote, hslash, heq⟩ | ⟨d, heq, -, -⟩ | ⟨heq, hlow⟩
  · rw [heq]
    exact rawString_plain hquote hslash rest
  · rw [heq]
    exact rawString_escaped d rest
  · have hhigh := lowerHex_plain (show byte.toNat / 16 < 16 by omega)
    have hrest := lowerHex_plain (show byte.toNat % 16 < 16 by omega)
    rw [heq]
    simp only [List.cons_append, List.nil_append]
    rw [rawString_escaped, rawString_plain (by decide) (by decide),
      rawString_plain (by decide) (by decide), rawString_plain hhigh.1 hhigh.2,
      rawString_plain hrest.1 hrest.2]
    simp only [Option.map_map]
    rfl

theorem rawString_printed (text rest : Bytes) :
    rawString (text.flatMap escape ++ quote :: rest) = some (text.flatMap escape, rest) := by
  induction text with
  | nil => exact rawString_quote rest
  | cons byte text ih =>
    rw [List.flatMap_cons, List.append_assoc, rawString_escape, ih, Option.map_some]

theorem decode_plain {c : UInt8} (hc : c ≠ backslash) (rest : Bytes) :
    decode (c :: rest) = (decode rest).map (c :: ·) := by
  rw [decode.eq_def]
  exact if_pos hc

theorem decode_short {d : UInt8} (hd : d ≠ letterU) (rest : Bytes) :
    decode (backslash :: d :: rest) =
      (unescape d).bind fun byte => (decode rest).map (byte :: ·) := by
  rw [decode.eq_def]
  exact if_neg hd

theorem decode_unicode (rest : Bytes) :
    decode (backslash :: letterU :: rest) = (utf16Literal rest).bind fun found =>
      (decode (rest.drop found.2)).map (found.1 ++ ·) := by
  rw [decode.eq_def]
  rfl

theorem decode_escape (byte : UInt8) (rest : Bytes) :
    decode (escape byte ++ rest) = (decode rest).map (byte :: ·) := by
  rcases escape_cases byte with ⟨-, hslash, heq⟩ | ⟨d, heq, hd, hbyte⟩ | ⟨heq, hlow⟩
  · rw [heq]
    exact decode_plain hslash rest
  · rw [heq]
    simp only [List.cons_append, List.nil_append]
    rw [decode_short hd, hbyte, Option.bind_some]
  · have hliteral : utf16Literal (48 :: 48 :: lowerHex (byte.toNat / 16) ::
        lowerHex (byte.toNat % 16) :: rest) = some ([byte], 4) := by
      rw [utf16Literal.eq_def]
      simp only [parseHex4_lowerHex hlow]
      rw [if_neg (by omega), if_neg (by omega), utf8, if_pos (by omega), UInt8.ofNat_toNat]
    rw [heq]
    simp only [List.cons_append, List.nil_append]
    rw [decode_unicode, hliteral, Option.bind_some]
    rfl

theorem decode_printed (text : Bytes) : decode (text.flatMap escape) = some text := by
  induction text with
  | nil => rw [List.flatMap_nil, decode]
  | cons byte text ih => rw [List.flatMap_cons, decode_escape, ih, Option.map_some]

theorem parseString_printStringPtr {text : Bytes} (htext : 0 ∉ text) (rest : Bytes) :
    parseString (printStringPtr text ++ rest) = some (text, rest) := by
  have hprinted : printStringPtr text ++ rest =
      quote :: (text.flatMap escape ++ quote :: rest) := by simp [printStringPtr]
  rw [hprinted, parseString, if_pos rfl, rawString_printed]
  simp only [Option.bind_eq_bind, Option.bind_some, decode_printed, cstr_of_not_mem htext]

theorem skipWhitespace_space {c : UInt8} (hc : c ≤ 32) (rest : Bytes) :
    skipWhitespace (c :: rest) = skipWhitespace rest :=
  List.dropWhile_cons_of_pos (by simpa using hc)

theorem skipWhitespace_other {c : UInt8} (hc : ¬ c ≤ 32) (rest : Bytes) :
    skipWhitespace (c :: rest) = c :: rest :=
  List.dropWhile_cons_of_neg (by simpa using hc)

theorem skipWhitespace_printStringPtr (text rest : Bytes) :
    skipWhitespace (printStringPtr text ++ rest) = printStringPtr text ++ rest :=
  skipWhitespace_other (by decide) _

/-- The texts of a member are terminated where they end. -/
def Terminated (member : Member) : Prop := 0 ∉ member.1 ∧ 0 ∉ member.2

instance (member : Member) : Decidable (Terminated member) := by
  unfold Terminated
  infer_instance

theorem parseMember_printed {member : Member} (h : Terminated member) (rest : Bytes) :
    parseMember (newline :: tab :: printStringPtr member.1 ++ ([colon, tab] ++
      (printStringPtr member.2 ++ rest))) = some (member, skipWhitespace rest) := by
  have hname := parseString_printStringPtr h.1 ([colon, tab] ++ (printStringPtr member.2 ++ rest))
  have hvalue := parseString_printStringPtr h.2 rest
  rw [parseMember, List.cons_append, List.cons_append, skipWhitespace_space (by decide),
    skipWhitespace_space (by decide), skipWhitespace_printStringPtr, hname, Option.bind_eq_bind,
    Option.bind_some]
  dsimp only [List.cons_append, List.nil_append]
  rw [skipWhitespace_other (by decide)]
  dsimp only
  rw [if_pos rfl, skipWhitespace_space (by decide), skipWhitespace_printStringPtr, hvalue,
    Option.bind_some]

theorem printMember_eq (member : Member) (last : Bool) (rest : Bytes) :
    newline :: (printMember member last ++ rest) =
      newline :: tab :: printStringPtr member.1 ++ ([colon, tab] ++ (printStringPtr member.2 ++
        ((if last then [newline] else [comma, newline]) ++ rest))) := by
  simp [printMember]

theorem parseMembers_last {text rest : Bytes} {member : Member}
    (h : parseMember text = some (member, closeBrace :: rest)) :
    parseMembers text = some [member] := by
  rw [parseMembers.eq_def]
  split
  · rename_i hnone
    rw [hnone] at h
    cases h
  · rename_i hend
    rw [hend] at h
    cases h
  · rename_i hmember
    rw [hmember] at h
    cases h
    rfl

theorem parseMembers_more {text rest : Bytes} {member : Member}
    (h : parseMember text = some (member, comma :: rest)) :
    parseMembers text = (parseMembers rest).map (member :: ·) := by
  rw [parseMembers.eq_def]
  split
  · rename_i hnone
    rw [hnone] at h
    cases h
  · rename_i hend
    rw [hend] at h
    cases h
  · rename_i hmember
    rw [hmember] at h
    cases h
    rfl

theorem parseMembers_printed {members : List Member} (hne : members ≠ [])
    (h : ∀ member ∈ members, Terminated member) (rest : Bytes) :
    parseMembers (newline :: (printMembers members ++ closeBrace :: rest)) = some members := by
  induction members with
  | nil => exact absurd rfl hne
  | cons member members ih =>
    have hmember := parseMember_printed (h member List.mem_cons_self)
    rw [printMembers, List.append_assoc, printMember_eq]
    cases members with
    | nil =>
      have hend : skipWhitespace ([newline] ++ ([] ++ closeBrace :: rest)) =
          closeBrace :: rest :=
        (skipWhitespace_space (by decide) _).trans (skipWhitespace_other (by decide) _)
      exact parseMembers_last ((hmember _).trans (by rw [← hend]; rfl))
    | cons next members =>
      have hrest := ih (List.cons_ne_nil _ _) fun later hlater =>
        h later (List.mem_cons_of_mem _ hlater)
      have hmore := skipWhitespace_other (c := comma) (by decide)
        (newline :: (printMembers (next :: members) ++ closeBrace :: rest))
      rw [parseMembers_more ((hmember _).trans (by rw [← hmore]; rfl)), hrest, Option.map_some]

/-- An object of texts is read as it was printed. -/
theorem parseObject_printObject {members : List Member}
    (h : ∀ member ∈ members, Terminated member) :
    parseObject (printObject members) = some members := by
  have hopen : skipWhitespace (printObject members) =
      openBrace :: newline :: (printMembers members ++ [closeBrace]) := by
    rw [printObject, List.cons_append, List.cons_append]
    exact skipWhitespace_other (by decide) _
  rw [parseObject, hopen]
  simp only [if_true]
  cases members with
  | nil => rfl
  | cons member members =>
    rw [parseMembers_printed (List.cons_ne_nil _ _) h, printMembers, List.append_assoc,
      printMember_eq, List.cons_append, List.cons_append, skipWhitespace_space (by decide),
      skipWhitespace_space (by decide), skipWhitespace_printStringPtr]
    rfl

end Sv6x66.Cfg.JsonText
