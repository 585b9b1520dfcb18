import Mathlib.Data.List.DropRight
import Sv6x66.Cjson.Tree

/-! What is printed for a tree is read as that tree, by induction on the room for nesting
and, inside it, on the list of the children. -/
namespace Sv6x66.Cjson
open Sv6x66.Lib.CString Sv6x66.Cfg.JsonText

variable {D : Type} {c : Doubles D}

mutual

/-- The `valueint` of a number is derived from it, there is no raw text, and a child has a
name in an object only. -/
def Item.WellFormed (c : Doubles D) : Item D → Prop
  | .number valuedouble valueint => valueint = c.saturate valuedouble
  | .raw _ => False
  | .array child => child.WellFormed c false
  | .object child => child.WellFormed c true
  | _ => True

def Children.WellFormed (c : Doubles D) (object : Bool) : Children D → Prop
  | .nil => True
  | .cons name item next =>
    name.isSome = object ∧ item.WellFormed c ∧ next.WellFormed c object

end

mutual

/-- No number is an infinity or a NaN, for which `null` is printed. -/
def Item.Finite (c : Doubles D) : Item D → Prop
  | .number valuedouble _ => c.finite valuedouble = true
  | .array child => child.Finite c
  | .object child => child.Finite c
  | _ => True

def Children.Finite (c : Doubles D) : Children D → Prop
  | .nil => True
  | .cons _ item next => item.Finite c ∧ next.Finite c

end

/-- A number ends in front of this. -/
def Ends (rest : Bytes) : Prop := ∀ byte ∈ rest.head?, isNumberByte byte = false

/-- Nothing is skipped in front of this. -/
def Dark (text : Bytes) : Prop := ∀ byte ∈ text.head?, ¬ byte ≤ 32

theorem skipWhitespace_dark {text : Bytes} (h : Dark text) : skipWhitespace text = text := by
  cases text with
  | nil => rfl
  | cons byte rest => exact skipWhitespace_other (h byte rfl) rest

theorem skipWhitespace_blank {blank : Bytes} (h : ∀ byte ∈ blank, byte ≤ 32) (text : Bytes) :
    skipWhitespace (blank ++ text) = skipWhitespace text := by
  induction blank with
  | nil => rfl
  | cons byte blank ih =>
    rw [List.cons_append, skipWhitespace_space (h byte List.mem_cons_self)]
    exact ih fun later hlater => h later (List.mem_cons_of_mem byte hlater)

theorem blank_nil : ∀ byte ∈ ([] : Bytes), byte ≤ 32 := List.forall_mem_nil _

theorem blank_singleton {blank : UInt8} (h : blank ≤ 32) : ∀ byte ∈ [blank], byte ≤ 32 :=
  List.forall_mem_singleton.mpr h

theorem skipWhitespace_blank_dark {blank text : Bytes} (h : ∀ byte ∈ blank, byte ≤ 32)
    (hdark : Dark text) : skipWhitespace (blank ++ text) = text := by
  rw [skipWhitespace_blank h, skipWhitespace_dark hdark]

/-! ### Numbers -/

/-- The digits are those of one of the two formats, and they are read as the number. -/
theorem digits_spec (hc : c.Lawful) {d : D} (hd : c.finite d = true) :
    ∃ n ≤ 17, c.digits d = c.sprintf n d ∧ c.sscanf (c.sprintf n d) = some d := by
  rw [Doubles.digits, if_pos hd]
  dsimp only
  cases hread : c.sscanf (c.sprintf 15 d) with
  | none => exact ⟨17, le_rfl, rfl, hc.exact d hd⟩
  | some x =>
    rw [Option.any_some]
    cases hequal : c.equal x d with
    | false => exact ⟨17, le_rfl, rfl, hc.exact d hd⟩
    | true =>
      refine ⟨15, by decide, rfl, ?_⟩
      rw [hread, hc.zero d x hd hread hequal]

theorem isNumberByte_printNumber (hc : c.Lawful) {d : D} (hd : c.finite d = true) :
    ∀ byte ∈ c.printNumber d, isNumberByte byte = true := by
  obtain ⟨n, -, hdigits, -⟩ := digits_spec hc hd
  intro byte hbyte
  rw [Doubles.printNumber, hdigits] at hbyte
  obtain ⟨old, hold, rfl⟩ := List.mem_map.mp hbyte
  split
  · rfl
  · exact (hc.bytes d n hd old hold).resolve_left ‹_› |>.1

theorem printNumber_starts (hc : c.Lawful) {d : D} (hd : c.finite d = true) :
    ∃ first rest, c.printNumber d = first :: rest ∧ (first = minus ∨ isDigit first = true) := by
  obtain ⟨n, -, hdigits, -⟩ := digits_spec hc hd
  obtain ⟨first, rest, hstarts, hfirst⟩ := hc.starts d n hd
  refine ⟨first, rest.map fun byte => if byte = c.decimalPoint then point else byte, ?_,
    hfirst⟩
  rw [Doubles.printNumber, hdigits, hstarts, List.map_cons, if_neg]
  intro hpoint
  have hnumber : isNumberByte first = true := by
    rw [isNumberByte]
    rcases hfirst with rfl | hdigit
    · rfl
    · rw [hdigit]
      rfl
  have heq := hc.point_eq (hpoint ▸ hnumber)
  rcases hfirst with rfl | hdigit
  · rw [heq] at hpoint
    cases hpoint
  · rw [hpoint, heq] at hdigit
    cases hdigit

/-- `parse_number` undoes what `print_number` does with the decimal point. -/
theorem unpoint_printNumber (hc : c.Lawful) {d : D} (hd : c.finite d = true) :
    ((c.printNumber d).map fun byte => if byte = point then c.decimalPoint else byte) =
      c.digits d := by
  obtain ⟨n, -, hdigits, -⟩ := digits_spec hc hd
  rw [Doubles.printNumber, List.map_map, hdigits]
  refine (List.map_congr_left fun byte hbyte => ?_).trans (List.map_id _)
  rw [Function.comp_apply]
  by_cases hpoint : byte = c.decimalPoint
  · rw [if_pos hpoint, if_pos rfl]
    exact hpoint.symm
  · rw [if_neg hpoint, if_neg ((hc.bytes d n hd byte hbyte).resolve_left hpoint).2]
    rfl

theorem takeWhile_ends {text rest : Bytes} (h : ∀ byte ∈ text, isNumberByte byte = true)
    (hrest : Ends rest) : (text ++ rest).takeWhile isNumberByte = text := by
  rw [List.takeWhile_append_of_pos h]
  cases rest with
  | nil => exact List.append_nil text
  | cons byte rest =>
    rw [List.takeWhile_cons_of_neg (by rw [hrest byte rfl]; decide)]
    exact List.append_nil text

theorem Ends.take {rest : Bytes} (h : Ends rest) (n : Nat) : Ends (rest.take n) := by
  cases n with
  | zero => exact fun _ hnone => nomatch hnone
  | succ n =>
    cases rest with
    | nil => exact h
    | cons byte rest => exact h

theorem parseNumber_printNumber (hc : c.Lawful) {d : D} (hd : c.finite d = true) {rest : Bytes}
    (hrest : Ends rest) :
    parseNumber c (c.printNumber d ++ rest) = some (.number d (c.saturate d), rest) := by
  obtain ⟨n, hn, hdigits, hread⟩ := digits_spec hc hd
  have hlength : (c.printNumber d).length = (c.digits d).length := List.length_map _
  have hshort : (c.printNumber d).length ≤ 63 := by
    rw [hlength, hdigits]
    exact (hc.short d n hd hn).trans (by decide)
  rw [parseNumber, List.take_append, List.take_of_length_le hshort,
    takeWhile_ends (isNumberByte_printNumber hc hd) (hrest.take _)]
  dsimp only
  rw [unpoint_printNumber hc hd, hdigits, hc.whole d n d hd hread, Option.bind_eq_bind,
    Option.bind_some]
  dsimp only
  rw [← hdigits, ← hlength, List.drop_left]

/-! ### Around the values -/

/-- A byte that begins none of the three words, and no number. -/
theorem parseValueBy_first (inner : Option (Bytes → Option (Item D × Bytes)))
    {first : UInt8} (hfirst : first ≠ 110 ∧ first ≠ 102 ∧ first ≠ 116) (rest : Bytes) :
    parseValueBy c inner (first :: rest) =
      if first = quote then do
        let (value, rest) ← parseString (first :: rest)
        some (.string (.ofBytes value), rest)
      else if first = minus ∨ isDigit first = true then parseNumber c (first :: rest)
      else if first = openBracket then inner.bind fun parse => parseNested parse false rest
      else if first = openBrace then inner.bind fun parse => parseNested parse true rest
      else none := by
  have hword (word : Bytes) (byte : UInt8) (hne : first ≠ byte) :
      (byte :: word).isPrefixOf (first :: rest) = false := by
    rw [List.isPrefixOf_cons_cons, Bool.and_eq_false_imp]
    intro heq
    exact absurd (beq_iff_eq.mp heq).symm hne
  rw [parseValueBy, nullText, falseText, trueText, hword _ _ hfirst.1, hword _ _ hfirst.2.1,
    hword _ _ hfirst.2.2]
  rfl

theorem isNumberByte_first {first : UInt8} (h : first = minus ∨ isDigit first = true) :
    (first ≠ 110 ∧ first ≠ 102 ∧ first ≠ 116) ∧ first ≠ quote ∧
      ¬ first ≤ 32 ∧ first ≠ closeBracket := by
  rcases h with rfl | hdigit
  · decide
  · rw [isDigit, Bool.and_eq_true, decide_eq_true_eq, decide_eq_true_eq] at hdigit
    have habove {byte : UInt8} (hbyte : 57 < byte.toNat) : first ≠ byte := by
      rintro rfl
      omega
    have hbelow : ¬ first ≤ quote := by
      rw [UInt8.le_iff_toNat_le]
      exact Nat.not_le.mpr (Nat.lt_of_lt_of_le (by decide) hdigit.1)
    refine ⟨⟨habove (by decide), habove (by decide), habove (by decide)⟩, ?_, ?_,
      habove (by decide)⟩
    · rintro rfl
      exact hbelow (UInt8.le_refl _)
    · exact fun hle => hbelow (UInt8.le_trans hle (by decide))

/-- The text of an item begins with something that is not skipped and ends no array. -/
theorem Item.printValue_first (hc : c.Lawful) {item : Item D} (hwell : item.WellFormed c)
    (hfinite : item.Finite c) (format : Bool) (depth : Nat) :
    ∃ first later, item.printValue c format depth = first :: later ∧
      ¬ first ≤ 32 ∧ first ≠ closeBracket := by
  cases item with
  | null => exact ⟨_, _, rfl, by decide⟩
  | bool value => cases value <;> exact ⟨_, _, rfl, by decide⟩
  | number valuedouble valueint =>
    rw [Item.Finite] at hfinite
    obtain ⟨first, later, htext, hnumber⟩ := printNumber_starts hc hfinite
    exact ⟨first, later, htext, (isNumberByte_first hnumber).2.2⟩
  | string valuestring => exact ⟨_, _, rfl, by decide⟩
  | raw valuestring => cases hwell
  | array child => exact ⟨_, _, rfl, by decide⟩
  | object child => exact ⟨_, _, rfl, by decide⟩

theorem Item.printValue_dark (hc : c.Lawful) {item : Item D} (hwell : item.WellFormed c)
    (hfinite : item.Finite c) (format : Bool) (depth : Nat) (rest : Bytes) :
    Dark (item.printValue c format depth ++ rest) := by
  obtain ⟨first, later, htext, hdark, -⟩ := item.printValue_first hc hwell hfinite format depth
  intro byte hbyte
  rw [htext] at hbyte
  cases hbyte
  exact hdark

theorem blank_tabs (format : Bool) (depth : Nat) :
    ∀ byte ∈ if format then List.replicate depth tab else [], byte ≤ 32 := by
  intro byte hbyte
  cases format with
  | false => cases hbyte
  | true =>
    cases List.eq_of_mem_replicate hbyte
    decide

/-- The name in front of a value, behind white space. -/
theorem parseName_front {object : Bool} {name : Option CText} (hname : name.isSome = object)
    {blank : Bytes} (hblank : ∀ byte ∈ blank, byte ≤ 32) (format : Bool) (depth : Nat)
    {rest : Bytes} (hrest : Dark rest) :
    ∃ after, parseName object (blank ++ (front object format depth name ++ rest)) =
      some (name, after) ∧ skipWhitespace after = rest := by
  subst hname
  cases name with
  | none => exact ⟨blank ++ rest, rfl, skipWhitespace_blank_dark hblank hrest⟩
  | some name =>
    -- behind the colon is a tab or nothing
    have hcolon : ∃ gap : Bytes, (if format then [colon, tab] else [colon]) = colon :: gap ∧
        ∀ byte ∈ gap, byte ≤ 32 := by
      cases format
      · exact ⟨[], rfl, blank_nil⟩
      · exact ⟨[tab], rfl, blank_singleton (by decide)⟩
    obtain ⟨gap, hcolon, hgap⟩ := hcolon
    refine ⟨gap ++ rest, ?_, skipWhitespace_blank_dark hgap hrest⟩
    have hquoted : Dark (printStringPtr name.val ++ (colon :: gap ++ rest)) := by
      intro byte hbyte
      cases hbyte
      decide
    rw [Option.isSome_some, front, if_pos rfl, printString, hcolon, parseName, if_pos rfl,
      List.append_assoc, List.append_assoc, skipWhitespace_blank hblank,
      skipWhitespace_blank_dark (blank_tabs format depth) hquoted,
      parseString_printStringPtr name.property, Option.bind_eq_bind, Option.bind_some]
    dsimp only
    rw [List.cons_append, skipWhitespace_other (by decide)]
    dsimp only
    rw [if_pos rfl, CText.ofBytes_val]

/-- Behind a child that is not the last one stands a comma. -/
theorem skipWhitespace_back (object format : Bool) (rest : Bytes) :
    ∃ blank : Bytes, (∀ byte ∈ blank, byte ≤ 32) ∧
      skipWhitespace (back object format false ++ rest) = comma :: (blank ++ rest) := by
  cases object <;> cases format
  · exact ⟨[], blank_nil, skipWhitespace_other (by decide) _⟩
  · exact ⟨[space], blank_singleton (by decide), skipWhitespace_other (by decide) _⟩
  · exact ⟨[], blank_nil, skipWhitespace_other (by decide) _⟩
  · exact ⟨[newline], blank_singleton (by decide), skipWhitespace_other (by decide) _⟩

theorem skipWhitespace_back_last (object format : Bool) (rest : Bytes) :
    skipWhitespace (back object format true ++ rest) = skipWhitespace rest := by
  refine skipWhitespace_blank (fun byte hbyte => ?_) rest
  cases object <;> cases format
  · cases hbyte
  · cases hbyte
  · cases hbyte
  · cases List.eq_of_mem_singleton hbyte
    decide

theorem ends_back (object format last : Bool) {rest : Bytes} (h : Ends rest) :
    Ends (back object format last ++ rest) := by
  cases last with
  | false =>
    intro byte hbyte
    cases hbyte
    rfl
  | true =>
    cases object <;> cases format
    · exact h
    · exact h
    · exact h
    · intro byte hbyte
      cases hbyte
      rfl

/-! ### The trees -/

theorem Children.length_le_printChildren (c : Doubles D) (object format : Bool) (depth : Nat) :
    (child : Children D) → child.length ≤ (child.printChildren c object format depth).length + 1
  | .nil => Nat.zero_le _
  | .cons name item next => by
    have hnext := next.length_le_printChildren c object format depth
    cases next with
    | nil => exact Nat.le_add_left _ _
    | cons later item' next' =>
      have hcomma : 1 ≤ (back object format false).length := by
        cases object <;> cases format <;> decide
      rw [Children.length, Children.printChildren, Children.isNil]
      simp only [List.length_append]
      omega

/-- The loop over the children, where `parse` reads back each of them. -/
theorem parseChildren_printChildren (hc : c.Lawful) {parse : Bytes → Option (Item D × Bytes)}
    {room : Nat} (format : Bool) (depth : Nat) (object : Bool) {tail rest : Bytes}
    (hparse : ∀ item : Item D, item.WellFormed c → item.Finite c → item.height ≤ room →
      ∀ rest, Ends rest → parse (item.printValue c format depth ++ rest) = some (item, rest))
    (hends : Ends tail) (htail : skipWhitespace tail = closing object :: rest) :
    (child : Children D) → child.WellFormed c object → child.Finite c → child.height ≤ room →
      child.isNil = false → ∀ blank : Bytes, (∀ byte ∈ blank, byte ≤ 32) →
      ∀ turns, child.length ≤ turns →
      parseChildren parse object turns
        (blank ++ (child.printChildren c object format depth ++ tail)) = some (child, rest)
  | .cons name item next, hwell, hfinite, hheight, _, blank, hblank, turns, hturns => by
    obtain ⟨hname, hitem, hnext⟩ := hwell
    obtain ⟨hfirst, hlater⟩ := hfinite
    rw [Children.height, Nat.max_le] at hheight
    rw [Children.length] at hturns
    obtain ⟨turns, rfl⟩ := Nat.exists_eq_add_one.mpr (Nat.zero_lt_of_lt hturns)
    have hbehind : Ends (back object format next.isNil ++
        (next.printChildren c object format depth ++ tail)) := by
      cases next with
      | nil => exact ends_back object format true hends
      | cons _ _ _ =>
        intro byte hbyte
        cases object <;> cases format <;> cases hbyte <;> rfl
    obtain ⟨after, hafter, hskip⟩ := parseName_front hname hblank format depth
      (item.printValue_dark hc hitem hfirst format depth
        (back object format next.isNil ++ (next.printChildren c object format depth ++ tail)))
    have hvalue := hparse item hitem hfirst hheight.1 _ hbehind
    rw [Children.printChildren, List.append_assoc, List.append_assoc, List.append_assoc,
      parseChildren, hafter, Option.bind_eq_bind, Option.bind_some]
    dsimp only
    rw [hskip, hvalue, Option.bind_eq_bind, Option.bind_some]
    dsimp only
    cases hnil : next with
    | nil =>
      rw [Children.isNil, Children.printChildren, List.nil_append, skipWhitespace_back_last, htail]
      dsimp only
      have hclosing : closing object ≠ comma := by cases object <;> decide
      rw [if_neg hclosing, if_pos rfl]
    | cons name' item' next' =>
      subst hnil
      obtain ⟨gap, hgap, hback⟩ := skipWhitespace_back object format
        ((Children.cons name' item' next').printChildren c object format depth ++ tail)
      rw [Children.isNil, hback]
      dsimp only
      rw [if_pos rfl, parseChildren_printChildren hc format depth object hparse hends htail _ hnext
        hlater hheight.2 rfl gap hgap turns (Nat.le_of_succ_le_succ hturns), Option.bind_eq_bind,
        Option.bind_some]

/-- White space in front of the first child does not matter. -/
theorem parseChildren_skip (parse : Bytes → Option (Item D × Bytes)) (object : Bool)
    (turns : Nat) (text : Bytes) :
    parseChildren parse object turns (skipWhitespace text) =
      parseChildren parse object turns text := by
  have hskip : skipWhitespace (skipWhitespace text) = skipWhitespace text :=
    List.dropWhile_idempotent _ _
  cases turns with
  | zero => rfl
  | succ turns =>
    rw [parseChildren, parseChildren]
    cases object with
    | false =>
      simp only [parseName, hskip, Bool.false_eq_true, if_false, Option.bind_eq_bind,
        Option.bind_some]
    | true => simp only [parseName, hskip, if_true]

/-- The children between their brackets. -/
theorem parseNested_printChildren (hc : c.Lawful) {parse : Bytes → Option (Item D × Bytes)}
    {room : Nat} (format : Bool) (depth : Nat) (object : Bool)
    (hparse : ∀ item : Item D, item.WellFormed c → item.Finite c → item.height ≤ room →
      ∀ rest, Ends rest → parse (item.printValue c format depth ++ rest) = some (item, rest))
    {child : Children D} (hwell : child.WellFormed c object) (hfinite : child.Finite c)
    (hheight : child.height ≤ room) (blank : Bytes) (hblank : ∀ byte ∈ blank, byte ≤ 32)
    (tail : Bytes) (hends : Ends tail) {rest : Bytes}
    (htail : skipWhitespace tail = closing object :: rest) :
    parseNested parse object (blank ++ (child.printChildren c object format depth ++ tail)) =
      some (if object then .object child else .array child, rest) := by
  cases hchild : child with
  | nil =>
    rw [Children.printChildren, List.nil_append, parseNested, skipWhitespace_blank hblank, htail]
    exact if_pos rfl
  | cons name item next =>
    rw [← hchild]
    have hlength := child.length_le_printChildren c object format depth
    have hread := parseChildren_printChildren hc format depth object hparse hends htail child hwell
      hfinite hheight (by rw [hchild]; rfl) blank hblank
      ((blank ++ (child.printChildren c object format depth ++ tail)).length + 1)
      (hlength.trans (by simp only [List.length_append]; omega))
    -- the first byte that is not skipped
    have hfirst : ∃ first later,
        skipWhitespace (blank ++ (child.printChildren c object format depth ++ tail)) =
          first :: later ∧ first ≠ closing object := by
      subst hchild
      obtain ⟨hname, hitem, -⟩ := hwell
      rw [Children.printChildren, List.append_assoc, skipWhitespace_blank hblank]
      cases object with
      | false =>
        obtain ⟨first, later, htext, hdark, hclose⟩ := item.printValue_first hc hitem hfinite.1
          format depth
        rw [htext]
        exact ⟨first, _, skipWhitespace_other hdark _, hclose⟩
      | true =>
        obtain ⟨key, rfl⟩ := Option.isSome_iff_exists.mp hname
        rw [front, if_pos rfl, List.append_assoc, List.append_assoc,
          skipWhitespace_blank (blank_tabs format depth)]
        exact ⟨quote, _, skipWhitespace_other (by decide) _, by decide⟩
    obtain ⟨first, later, hskip, hclose⟩ := hfirst
    rw [← parseChildren_skip, hskip] at hread
    rw [parseNested, hskip]
    dsimp only
    rw [if_neg hclose, hread]
    rfl

/-- An item is read as it is printed, in front of anything that ends a number. -/
theorem parseValue_printValue (hc : c.Lawful) (format : Bool) (room : Nat) :
    ∀ item : Item D, item.WellFormed c → item.Finite c → item.height ≤ room →
      ∀ depth rest, Ends rest →
        parseValue c room (item.printValue c format depth ++ rest) = some (item, rest) := by
  have hleaf (inner : Option (Bytes → Option (Item D × Bytes))) (item : Item D)
      (hwell : item.WellFormed c) (hfinite : item.Finite c) (hheight : item.height = 0)
      (depth : Nat) (rest : Bytes) (hrest : Ends rest) :
      parseValueBy c inner (item.printValue c format depth ++ rest) = some (item, rest) := by
    cases item with
    | null => rfl
    | bool value => cases value <;> rfl
    | number valuedouble valueint =>
      rw [Item.Finite] at hfinite
      rw [Item.WellFormed] at hwell
      obtain ⟨first, later, htext, hnumber⟩ := printNumber_starts hc hfinite
      have hread := parseNumber_printNumber hc hfinite hrest
      rw [htext, List.cons_append] at hread
      rw [Item.printValue, htext, List.cons_append,
        parseValueBy_first inner (isNumberByte_first hnumber).1,
        if_neg (isNumberByte_first hnumber).2.1, if_pos hnumber, hread, hwell]
    | string valuestring =>
      have hread := parseString_printStringPtr valuestring.property rest
      have hquote : printStringPtr valuestring.val ++ rest =
          quote :: (valuestring.val.flatMap escape ++ [quote] ++ rest) := rfl
      rw [hquote] at hread
      rw [Item.printValue, hquote, parseValueBy_first inner (by decide), if_pos rfl, hread,
        Option.bind_eq_bind, Option.bind_some]
      dsimp only
      rw [CText.ofBytes_val]
    | raw valuestring => cases hwell
    | array child => cases hheight
    | object child => cases hheight
  induction room with
  | zero =>
    intro item hwell hfinite hheight depth rest hrest
    exact hleaf none item hwell hfinite (Nat.le_zero.mp hheight) depth rest hrest
  | succ room ih =>
    intro item hwell hfinite hheight depth rest hrest
    rw [parseValue]
    cases item with
    | array child =>
      rw [Item.printValue, List.cons_append, parseValueBy_first _ (by decide), if_neg (by decide),
        if_neg (by decide), if_pos rfl, Option.bind_some, List.append_assoc]
      refine parseNested_printChildren hc format (depth + 1) false
        (fun item hwell hfinite hheight rest hrest => ih item hwell hfinite hheight _ rest hrest)
        hwell hfinite (Nat.le_of_succ_le_succ hheight) [] blank_nil _ (fun byte hbyte => ?_)
        (skipWhitespace_other (by decide) _)
      cases hbyte
      rfl
    | object child =>
      rw [Item.printValue, List.cons_append, parseValueBy_first _ (by decide), if_neg (by decide),
        if_neg (by decide), if_neg (by decide), if_pos rfl, Option.bind_some, List.append_assoc,
        List.append_assoc]
      refine parseNested_printChildren hc format (depth + 1) true
        (fun item hwell hfinite hheight rest hrest => ih item hwell hfinite hheight _ rest hrest)
        hwell hfinite (Nat.le_of_succ_le_succ hheight) _ (fun byte hbyte => ?_) _
        (fun byte hbyte => ?_) ?_
      · cases format with
        | false => cases hbyte
        | true =>
          cases List.eq_of_mem_singleton hbyte
          decide
      · cases format with
        | false =>
          cases hbyte
          rfl
        | true =>
          cases depth <;> cases hbyte <;> rfl
      · rw [List.append_assoc, skipWhitespace_blank (blank_tabs format depth)]
        exact skipWhitespace_other (by decide) _
    | null => exact hleaf _ _ hwell hfinite rfl depth rest hrest
    | bool value => exact hleaf _ _ hwell hfinite rfl depth rest hrest
    | number valuedouble valueint => exact hleaf _ _ hwell hfinite rfl depth rest hrest
    | string valuestring => exact hleaf _ _ hwell hfinite rfl depth rest hrest
    | raw valuestring => cases hwell

/-! ### What is accepted -/

/-- An item in front of `rest`, with at most `room` arrays and objects inside each other. -/
structure Reads (c : Doubles D) (room : Nat) (text : Bytes) (item : Item D) (rest : Bytes) :
    Prop where
  wellFormed : item.WellFormed c
  height : item.height ≤ room
  shorter : rest.length < text.length

theorem length_parseName {object : Bool} {text rest : Bytes} {name : Option CText}
    (h : parseName object text = some (name, rest)) :
    name.isSome = object ∧ rest.length ≤ text.length := by
  cases object with
  | false =>
    cases h
    exact ⟨rfl, le_rfl⟩
  | true =>
    obtain ⟨⟨key, afterKey⟩, hkey, h⟩ := Option.bind_eq_some_iff.mp h
    have hshort := length_parseString hkey
    have hskip := length_skipWhitespace_le text
    have hnext := length_skipWhitespace_le afterKey
    dsimp only at h
    split at h
    · cases h
    · rename_i next later hcolon
      split at h
      · cases h
        rw [hcolon, List.length_cons] at hnext
        exact ⟨rfl, by omega⟩
      · cases h

theorem parseChildren_reads {parse : Bytes → Option (Item D × Bytes)} {room : Nat} {object : Bool}
    (hparse : ∀ text item rest, parse text = some (item, rest) → Reads c room text item rest)
    {turns : Nat} {text rest : Bytes} {child : Children D}
    (h : parseChildren parse object turns text = some (child, rest)) :
    child.WellFormed c object ∧ child.height ≤ room ∧ rest.length < text.length := by
  induction turns generalizing text child with
  | zero => cases h
  | succ turns ih =>
    obtain ⟨⟨name, afterName⟩, hname, h⟩ := Option.bind_eq_some_iff.mp h
    obtain ⟨⟨item, afterItem⟩, hitem, h⟩ := Option.bind_eq_some_iff.mp h
    obtain ⟨hsome, hle⟩ := length_parseName hname
    obtain ⟨hwell, hheight, hshorter⟩ := hparse _ _ _ hitem
    have hskip := length_skipWhitespace_le afterName
    have hbehind := length_skipWhitespace_le afterItem
    dsimp only at h hitem hshorter
    split at h
    · cases h
    rename_i next later hnext
    rw [hnext, List.length_cons] at hbehind
    split at h
    · obtain ⟨⟨more, last⟩, hmore, heq⟩ := Option.bind_eq_some_iff.mp h
      cases heq
      obtain ⟨hwells, hheights, hshorters⟩ := ih hmore
      exact ⟨⟨hsome, hwell, hwells⟩, Nat.max_le.mpr ⟨hheight, hheights⟩, by omega⟩
    · split at h
      · cases h
        exact ⟨⟨hsome, hwell, trivial⟩, Nat.max_le.mpr ⟨hheight, Nat.zero_le _⟩, by omega⟩
      · cases h

theorem parseNested_reads {parse : Bytes → Option (Item D × Bytes)} {room : Nat} {object : Bool}
    (hparse : ∀ text item rest, parse text = some (item, rest) → Reads c room text item rest)
    {text rest : Bytes} {item : Item D} (h : parseNested parse object text = some (item, rest)) :
    item.WellFormed c ∧ item.height ≤ room + 1 ∧ rest.length ≤ text.length := by
  have hskip := length_skipWhitespace_le text
  rw [parseNested] at h
  dsimp only at h
  split at h
  · cases h
  rename_i first later hfirst
  rw [hfirst] at hskip
  split at h
  · cases h
    rw [List.length_cons] at hskip
    cases object <;> exact ⟨trivial, Nat.succ_le_succ (Nat.zero_le _), by omega⟩
  · obtain ⟨⟨child, last⟩, hchild, heq⟩ := Option.bind_eq_some_iff.mp h
    cases heq
    obtain ⟨hwell, hheight, hshorter⟩ := parseChildren_reads hparse hchild
    dsimp only
    cases object <;> exact ⟨hwell, Nat.succ_le_succ hheight, by omega⟩

theorem parseNumber_reads (hc : c.Lawful) (room : Nat) {first : UInt8} {text rest : Bytes}
    {item : Item D} (h : parseNumber c (first :: text) = some (item, rest)) :
    Reads c room (first :: text) item rest := by
  obtain ⟨⟨value, taken⟩, hread, heq⟩ := Option.bind_eq_some_iff.mp h
  cases heq
  have htaken := hc.taken _ _ _ hread
  refine ⟨rfl, Nat.zero_le _, ?_⟩
  rw [List.length_drop, List.length_cons]
  omega

theorem parseValueBy_reads (hc : c.Lawful) {inner : Option (Bytes → Option (Item D × Bytes))}
    {room : Nat} (hinner : ∀ parse, inner = some parse → ∃ less, room = less + 1 ∧
      ∀ text item rest, parse text = some (item, rest) → Reads c less text item rest)
    {text rest : Bytes} {item : Item D} (h : parseValueBy c inner text = some (item, rest)) :
    Reads c room text item rest := by
  cases text with
  | nil => cases h
  | cons first later =>
  have hword (word : Bytes) (hpos : 0 < word.length)
      (hword : word.isPrefixOf (first :: later) = true) :
      ((first :: later).drop word.length).length < (first :: later).length := by
    have hle := (List.isPrefixOf_iff_prefix.mp hword).length_le
    rw [List.length_drop]
    omega
  rw [parseValueBy.eq_def] at h
  split at h
  · cases h
    exact ⟨trivial, Nat.zero_le _, hword nullText (by decide) ‹_›⟩
  split at h
  · cases h
    exact ⟨trivial, Nat.zero_le _, hword falseText (by decide) ‹_›⟩
  split at h
  · cases h
    exact ⟨trivial, Nat.zero_le _, hword trueText (by decide) ‹_›⟩
  dsimp only at h
  split at h
  · obtain ⟨⟨value, last⟩, hstring, heq⟩ := Option.bind_eq_some_iff.mp h
    cases heq
    exact ⟨trivial, Nat.zero_le _, length_parseString hstring⟩
  split at h
  · exact parseNumber_reads hc room h
  have hnested (object : Bool)
      (h : (inner.bind fun parse => parseNested parse object later) = some (item, rest)) :
      Reads c room (first :: later) item rest := by
    obtain ⟨parse, hparse, hitem⟩ := Option.bind_eq_some_iff.mp h
    obtain ⟨less, rfl, hreads⟩ := hinner parse hparse
    obtain ⟨hwell, hheight, hle⟩ := parseNested_reads hreads hitem
    exact ⟨hwell, hheight, Nat.lt_succ_of_le hle⟩
  split at h
  · exact hnested false h
  split at h
  · exact hnested true h
  · cases h

/-- What is accepted is well formed and within the nesting limit. -/
theorem parseValue_reads (hc : c.Lawful) (room : Nat) : ∀ text item rest,
    parseValue c room text = some (item, rest) → Reads c room text item rest := by
  induction room with
  | zero =>
    refine fun _ _ _ h => parseValueBy_reads hc (fun _ hnone => ?_) h
    cases hnone
  | succ room ih =>
    refine fun _ _ _ h => parseValueBy_reads hc (fun parse hparse => ⟨room, rfl, ?_⟩) h
    cases hparse
    exact ih

/-! ### Both ways -/

theorem zero_not_mem_escape (byte : UInt8) : 0 ∉ escape byte := by
  rcases escape_cases byte with ⟨-, -, heq⟩ | ⟨d, heq, -, hd⟩ | ⟨heq, hlow⟩
  · rw [heq, List.mem_singleton]
    rintro rfl
    cases heq
  · rw [heq, List.mem_cons, List.mem_singleton]
    rintro (hslash | rfl)
    · cases hslash
    · cases hd
  · have hhex : ∀ digit < 16, lowerHex digit ≠ 0 := by decide
    have hhigh := (hhex (byte.toNat / 16) (by omega)).symm
    have hrest := (hhex (byte.toNat % 16) (by omega)).symm
    rw [heq]
    simp [hhigh, hrest, backslash, letterU]

theorem zero_not_mem_printStringPtr (text : Bytes) : 0 ∉ printStringPtr text := by
  intro hzero
  rw [printStringPtr, List.cons_append, List.mem_cons, List.mem_append, List.mem_flatMap] at hzero
  obtain hquote | ⟨byte, -, hbyte⟩ | hquote := hzero
  · cases hquote
  · exact zero_not_mem_escape byte hbyte
  · cases List.eq_of_mem_singleton hquote

theorem zero_not_mem_printNumber (hc : c.Lawful) (d : D) : 0 ∉ c.printNumber d := by
  intro hzero
  by_cases hd : c.finite d = true
  · cases isNumberByte_printNumber hc hd 0 hzero
  · rw [Doubles.printNumber, Doubles.digits, if_neg hd] at hzero
    obtain ⟨byte, hbyte, heq⟩ := List.mem_map.mp hzero
    split at heq
    · cases heq
    · subst heq
      revert hbyte
      decide

theorem zero_not_mem_printString (name : Option CText) : 0 ∉ printString name := by
  cases name with
  | none => decide
  | some name => exact zero_not_mem_printStringPtr name.val

theorem zero_not_mem_front (object format : Bool) (depth : Nat) (name : Option CText) :
    0 ∉ front object format depth name := by
  have hname := zero_not_mem_printString name
  cases object <;> cases format <;> simp [front, hname, colon, tab]

theorem zero_not_mem_back (object format last : Bool) : 0 ∉ back object format last := by
  cases object <;> cases format <;> cases last <;> decide

mutual

theorem Item.zero_not_mem_printValue (hc : c.Lawful) (format : Bool) (depth : Nat) :
    (item : Item D) → 0 ∉ item.printValue c format depth
  | .null => by
    rw [Item.printValue]
    decide
  | .bool value => by
    rw [Item.printValue]
    cases value <;> decide
  | .number valuedouble _ => zero_not_mem_printNumber hc valuedouble
  | .string valuestring => zero_not_mem_printStringPtr valuestring.val
  | .raw valuestring => valuestring.property
  | .array child => by
    have hchild := child.zero_not_mem_printChildren hc false format (depth + 1)
    simp [Item.printValue, hchild, openBracket, closeBracket]
  | .object child => by
    have hchild := child.zero_not_mem_printChildren hc true format (depth + 1)
    cases format <;> simp [Item.printValue, hchild, openBrace, closeBrace, newline, tab]

theorem Children.zero_not_mem_printChildren (hc : c.Lawful) (object format : Bool) (depth : Nat) :
    (child : Children D) → 0 ∉ child.printChildren c object format depth
  | .nil => List.not_mem_nil
  | .cons name item next => by
    have hitem := item.zero_not_mem_printValue hc format depth
    have hnext := next.zero_not_mem_printChildren hc object format depth
    have hfront := zero_not_mem_front object format depth name
    have hback := zero_not_mem_back object format next.isNil
    simp [Children.printChildren, hitem, hnext, hfront, hback]

end

/-- What is printed for an item is read as that item, whatever `require_null_terminated`. -/
theorem cJSONParseWithOpts_printValue (hc : c.Lawful) {item : Item D} (hwell : item.WellFormed c)
    (hfinite : item.Finite c) (hheight : item.height ≤ cjsonNestingLimit)
    (format requireNullTerminated : Bool) :
    cJSONParseWithOpts c (item.printValue c format 0) requireNullTerminated = some item := by
  have hdark := item.printValue_dark hc hwell hfinite format 0 []
  have hread := parseValue_printValue hc format cjsonNestingLimit item hwell hfinite hheight 0 []
    (fun _ hnone => by cases hnone)
  rw [List.append_nil] at hdark hread
  rw [cJSONParseWithOpts, cstr_of_not_mem (item.zero_not_mem_printValue hc format 0),
    skipWhitespace_dark hdark, hread, Option.bind_eq_bind, Option.bind_some]
  exact if_neg fun hboth => hboth.2 rfl

theorem cJSONParseWithOpts_spec (hc : c.Lawful) {value : Bytes} {requireNullTerminated : Bool}
    {item : Item D} (h : cJSONParseWithOpts c value requireNullTerminated = some item) :
    item.WellFormed c ∧ item.height ≤ cjsonNestingLimit := by
  obtain ⟨⟨found, rest⟩, hread, h⟩ := Option.bind_eq_some_iff.mp h
  dsimp only at h
  split at h
  · cases h
  · cases h
    obtain ⟨hwell, hheight, -⟩ := parseValue_reads hc _ _ _ _ hread
    exact ⟨hwell, hheight⟩

/-- A tree whose numbers are finite, with names in its objects only and within the nesting
limit, is read back from both of its texts. -/
theorem printed_tree_read_back (hc : c.Lawful) {item : Item D} (hwell : item.WellFormed c)
    (hfinite : item.Finite c) (hheight : item.height ≤ cjsonNestingLimit)
    (requireNullTerminated : Bool) :
    cJSONParseWithOpts c (cJSONPrint c item) requireNullTerminated = some item ∧
      cJSONParseWithOpts c (cJSONPrintUnformatted c item) requireNullTerminated = some item :=
  ⟨cJSONParseWithOpts_printValue hc hwell hfinite hheight true requireNullTerminated,
    cJSONParseWithOpts_printValue hc hwell hfinite hheight false requireNullTerminated⟩

/-- The functions of the C library on the numbers with a single digit. -/
def singleDigits : Doubles (Fin 10) where
  decimalPoint := point
  finite := fun _ => true
  equal := fun a b => a = b
  atLeast := fun d n => n ≤ d.val
  atMost := fun d n => d.val ≤ n
  truncate := fun d => d.val
  sprintf := fun _ d => [digitByte d.val]
  sscanf := fun text => text.head?.bind digit
  strtod := fun text => (text.head?.bind digit).map fun d => (d, 1)
where
  digit (byte : UInt8) : Option (Fin 10) :=
    if isDigit byte then some (Fin.ofNat 10 (byte.toNat - 48)) else none

theorem singleDigits_lawful : singleDigits.Lawful where
  point_eq := fun _ => rfl
  point_ne := by decide
  short := fun _ _ _ _ => (by decide : 1 ≤ 25)
  bytes := by
    intro d _ _ byte hbyte
    cases List.eq_of_mem_singleton hbyte
    have hdigit : ∀ d : Fin 10, isNumberByte (digitByte d.val) = true ∧
        digitByte d.val ≠ point := by decide
    exact .inr (hdigit d)
  starts := by
    intro d _ _
    exact ⟨_, [], rfl, .inr (isDigit_digitByte d.isLt)⟩
  taken := by
    intro text x taken h
    obtain ⟨d, -, heq⟩ := Option.map_eq_some_iff.mp h
    cases heq
    exact Nat.one_pos
  whole := by
    intro d digits x _ h
    change (singleDigits.sscanf (singleDigits.sprintf digits d)).map (fun d => (d, 1)) = some (x, 1)
    rw [h, Option.map_some]
  exact := by
    intro d _
    revert d
    decide
  zero := fun _ _ _ _ h => of_decide_eq_true h

/-- `{"power": [1, null, {}]}` -/
def powerTree : Item (Fin 10) :=
  .object (.cons (some (.ofBytes (ofString "power")))
    (.array (.cons none (.number 1 1) (.cons none .null (.cons none (.object .nil) .nil)))) .nil)

theorem powerTree_wellFormed : powerTree.WellFormed singleDigits := by
  have hnumber : (1 : Int) = singleDigits.saturate 1 := by decide
  exact ⟨rfl, ⟨rfl, hnumber, rfl, trivial, rfl, trivial, trivial⟩, trivial⟩

theorem powerTree_finite : powerTree.Finite singleDigits :=
  ⟨⟨rfl, trivial, trivial, trivial⟩, trivial⟩

theorem printed_tree_read_back_power :
    cJSONParseWithOpts singleDigits (cJSONPrint singleDigits powerTree) true = some powerTree ∧
      cJSONParseWithOpts singleDigits (cJSONPrintUnformatted singleDigits powerTree) true =
        some powerTree :=
  printed_tree_read_back singleDigits_lawful powerTree_wellFormed powerTree_finite (by decide)
    true

/-- A text that is accepted may be replaced by what is printed for the tree read from it. -/
theorem accepted_text_reprinted (hc : c.Lawful) {value : Bytes} {requireNullTerminated : Bool}
    {item : Item D} (h : cJSONParseWithOpts c value requireNullTerminated = some item)
    (hfinite : item.Finite c) :
    item.height ≤ cjsonNestingLimit ∧ ∀ again,
      cJSONParseWithOpts c (cJSONPrint c item) again = some item ∧
        cJSONParseWithOpts c (cJSONPrintUnformatted c item) again = some item := by
  obtain ⟨hwell, hheight⟩ := cJSONParseWithOpts_spec hc h
  refine ⟨hheight, fun again => ⟨?_, ?_⟩⟩
  · exact cJSONParseWithOpts_printValue hc hwell hfinite hheight true again
  · exact cJSONParseWithOpts_printValue hc hwell hfinite hheight false again

theorem accepted_text_reprinted_power :
    cJSONParseWithOpts singleDigits (cJSONPrint singleDigits powerTree) true = some powerTree ∧
      cJSONParseWithOpts singleDigits (cJSONPrintUnformatted singleDigits powerTree) true =
        some powerTree := by
  have hread : cJSONParseWithOpts singleDigits (cJSONPrintUnformatted singleDigits powerTree)
      false = some powerTree :=
    cJSONParseWithOpts_printValue singleDigits_lawful powerTree_wellFormed powerTree_finite
      (by decide) false false
  exact (accepted_text_reprinted singleDigits_lawful hread powerTree_finite).2 true

/-! ### Objects of texts -/

def Children.ofTexts : List (CText × CText) → Children D
  | [] => .nil
  | (name, value) :: rest => .cons (some name) (.string value) (.ofTexts rest)

theorem Children.isNil_ofTexts (members : List (CText × CText)) :
    (Children.ofTexts members : Children D).isNil = members.isEmpty := by
  cases members <;> rfl

/-- The configuration in the flash is printed as any other tree. -/
theorem cJSONPrint_ofTexts (c : Doubles D) (members : List (CText × CText)) :
    cJSONPrint c (.object (.ofTexts members)) =
      printObject (members.map fun member => (member.1.val, member.2.val)) := by
  have hmembers : (Children.ofTexts members).printChildren c true true 1 =
      printMembers (members.map fun member => (member.1.val, member.2.val)) := by
    induction members with
    | nil => rfl
    | cons member members ih =>
      rw [Children.ofTexts, Children.printChildren, ih, Children.isNil_ofTexts, List.map_cons,
        printMembers, List.isEmpty_map]
      cases members <;> simp [printMember, front, back, printString, Item.printValue]
  rw [cJSONPrint, Item.printValue, hmembers, printObject]
  rfl

end Sv6x66.Cjson
