import Sv6x66.Cfg.JsonText

/-! The trees of `cJSON`, the characters that stand for one, and `cJSON_Parse` with all kinds
of values. -/
namespace Sv6x66.Cjson
open Sv6x66.Lib.CString Sv6x66.Cfg.JsonText

def openBracket : UInt8 := 91
def closeBracket : UInt8 := 93
def space : UInt8 := 32
def minus : UInt8 := 45
def point : UInt8 := 46

def nullText : Bytes := [110, 117, 108, 108]
def falseText : Bytes := [102, 97, 108, 115, 101]
def trueText : Bytes := [116, 114, 117, 101]

def cjsonNestingLimit : Nat := 1000

/-- A text of C: it ends at its first NUL. -/
abbrev CText := { text : Bytes // 0 ∉ text }

def CText.ofBytes (memory : Bytes) : CText := ⟨cstr memory, zero_not_mem_cstr memory⟩

theorem CText.ofBytes_val (text : CText) : CText.ofBytes text.val = text :=
  Subtype.ext (cstr_of_not_mem text.property)

/-! ### Numbers -/

/-- `double` with the functions of the C library that read and write it. -/
structure Doubles (D : Type) where
  /-- `decimal_point[0]` of `localeconv`. -/
  decimalPoint : UInt8
  /-- Neither an infinity nor a NaN. -/
  finite : D → Bool
  /-- The `==` of C, for which the two zeros are equal. -/
  equal : D → D → Bool
  atLeast : D → Int → Bool
  atMost : D → Int → Bool
  /-- The cast to `int` of a number in its range. -/
  truncate : D → Int
  /-- `"%1.15g"` and `"%1.17g"`, by the number of digits. -/
  sprintf : Nat → D → Bytes
  /-- `"%lg"`. -/
  sscanf : Bytes → Option D
  /-- The number, and how many characters it takes; `none` where there is no number. -/
  strtod : Bytes → Option (D × Nat)

variable {D : Type}

/-- The bytes that `parse_number` copies. -/
def isNumberByte (byte : UInt8) : Bool :=
  isDigit byte || byte = 43 || byte = minus || byte = 101 || byte = 69 || byte = point

/-- What the standard says of these functions. -/
structure Doubles.Lawful (c : Doubles D) : Prop where
  point_eq : isNumberByte c.decimalPoint = true → c.decimalPoint = point
  point_ne : c.decimalPoint ≠ 0
  short : ∀ d digits, c.finite d = true → digits ≤ 17 → (c.sprintf digits d).length ≤ 25
  bytes : ∀ d digits, c.finite d = true → ∀ byte ∈ c.sprintf digits d,
    byte = c.decimalPoint ∨ isNumberByte byte = true ∧ byte ≠ point
  starts : ∀ d digits, c.finite d = true →
    ∃ first rest, c.sprintf digits d = first :: rest ∧ (first = minus ∨ isDigit first = true)
  taken : ∀ text x taken, c.strtod text = some (x, taken) → 0 < taken
  /-- A printed number is read to its end, by both functions in the same way. -/
  whole : ∀ d digits x, c.finite d = true → c.sscanf (c.sprintf digits d) = some x →
    c.strtod (c.sprintf digits d) = some (x, (c.sprintf digits d).length)
  /-- 17 digits determine the number. -/
  exact : ∀ d, c.finite d = true → c.sscanf (c.sprintf 17 d) = some d
  /-- The sign of a zero is printed too. -/
  zero : ∀ d x, c.finite d = true → c.sscanf (c.sprintf 15 d) = some x → c.equal x d = true →
    x = d

def intMax : Int := 2147483647
def intMin : Int := -2147483648

/-- `valueint`, with saturation in case of overflow. -/
def Doubles.saturate (c : Doubles D) (d : D) : Int :=
  if c.atLeast d intMax then intMax
  else if c.atMost d intMin then intMin
  else c.truncate d

/-- What `print_number` has before it replaces the decimal point. -/
def Doubles.digits (c : Doubles D) (d : D) : Bytes :=
  if c.finite d then
    let short := c.sprintf 15 d
    if (c.sscanf short).any (c.equal · d) then short else c.sprintf 17 d
  else nullText

def Doubles.printNumber (c : Doubles D) (d : D) : Bytes :=
  (c.digits d).map fun byte => if byte = c.decimalPoint then point else byte

/-! ### Trees -/

mutual

/-- An item, by the kind it has. The memory and the flags of references are left out. -/
inductive Item (D : Type) where
  | null
  | bool (value : Bool)
  | number (valuedouble : D) (valueint : Int)
  | string (valuestring : CText)
  | raw (valuestring : CText)
  | array (child : Children D)
  | object (child : Children D)

/-- The items of a list, each with the name it has in an object. -/
inductive Children (D : Type) where
  | nil
  | cons (string : Option CText) (item : Item D) (next : Children D)

end

def Children.isNil : Children D → Bool
  | .nil => true
  | .cons .. => false

def Children.length : Children D → Nat
  | .nil => 0
  | .cons _ _ next => next.length + 1

/-- `print_string_ptr`, for `NULL` too. -/
def printString : Option CText → Bytes
  | none => [quote, quote]
  | some name => printStringPtr name.val

/-- What stands in front of a child. -/
def front (object format : Bool) (depth : Nat) (name : Option CText) : Bytes :=
  if object then
    (if format then List.replicate depth tab else []) ++ printString name ++
      (if format then [colon, tab] else [colon])
  else []

/-- What stands behind a child. -/
def back (object format last : Bool) : Bytes :=
  (if last then [] else [comma]) ++
    (if format then if object then [newline] else if last then [] else [space] else [])

mutual

/-- `print_value` on an item in `depth` arrays and objects, with a buffer that is long
enough. -/
def Item.printValue (c : Doubles D) (format : Bool) (depth : Nat) : Item D → Bytes
  | .null => nullText
  | .bool value => if value then trueText else falseText
  | .number valuedouble _ => c.printNumber valuedouble
  | .string valuestring => printStringPtr valuestring.val
  | .raw valuestring => valuestring.val
  | .array child =>
    openBracket :: (child.printChildren c false format (depth + 1) ++ [closeBracket])
  | .object child =>
    openBrace :: ((if format then [newline] else []) ++
      (child.printChildren c true format (depth + 1) ++
        ((if format then List.replicate depth tab else []) ++ [closeBrace])))

def Children.printChildren (c : Doubles D) (object format : Bool) (depth : Nat) : Children D → Bytes
  | .nil => []
  | .cons name item next =>
    front object format depth name ++ (item.printValue c format depth ++
      (back object format next.isNil ++ next.printChildren c object format depth))

end

def cJSONPrint (c : Doubles D) (item : Item D) : Bytes := item.printValue c true 0

def cJSONPrintUnformatted (c : Doubles D) (item : Item D) : Bytes := item.printValue c false 0

mutual

/-- How many arrays and objects are inside each other. -/
def Item.height : Item D → Nat
  | .array child | .object child => child.height + 1
  | _ => 0

def Children.height : Children D → Nat
  | .nil => 0
  | .cons _ item next => max item.height next.height

end

/-! ### `cJSON_Parse` -/

/-- What is in front of the end is at most 63 bytes for the buffer on the stack. -/
def parseNumber (c : Doubles D) (text : Bytes) : Option (Item D × Bytes) := do
  let number := ((text.take 63).takeWhile isNumberByte).map fun byte =>
    if byte = point then c.decimalPoint else byte
  let (value, taken) ← c.strtod number
  some (.number value (c.saturate value), text.drop taken)

/-- The name of a member with its colon, and nothing in an array. -/
def parseName (object : Bool) (text : Bytes) : Option (Option CText × Bytes) :=
  if object then do
    let (name, rest) ← parseString (skipWhitespace text)
    match skipWhitespace rest with
    | [] => none
    | next :: rest => if next = colon then some (some (.ofBytes name), rest) else none
  else some (none, text)

def closing (object : Bool) : UInt8 := if object then closeBrace else closeBracket

/-- The loop of `parse_array` and of `parse_object`, with `parse` for `parse_value`. -/
def parseChildren (parse : Bytes → Option (Item D × Bytes)) (object : Bool) :
    Nat → Bytes → Option (Children D × Bytes)
  | 0, _ => none
  | turns + 1, text => do
    let (name, rest) ← parseName object text
    let (item, rest) ← parse (skipWhitespace rest)
    match skipWhitespace rest with
    | [] => none
    | next :: rest =>
      if next = comma then do
        let (more, rest) ← parseChildren parse object turns rest
        some (.cons name item more, rest)
      else if next = closing object then some (.cons name item .nil, rest)
      else none

/-- `parse_array` and `parse_object` behind the opening bracket. -/
def parseNested (parse : Bytes → Option (Item D × Bytes)) (object : Bool) (text : Bytes) :
    Option (Item D × Bytes) :=
  let item (child : Children D) : Item D := if object then .object child else .array child
  match skipWhitespace text with
  | [] => none
  | first :: rest =>
    if first = closing object then some (item .nil, rest)
    else do
      let (child, rest) ← parseChildren parse object (text.length + 1) (first :: rest)
      some (item child, rest)

/-- `parse_value`. The values inside are read with `inner`, which is `none` at the nesting
limit. -/
def parseValueBy (c : Doubles D) (inner : Option (Bytes → Option (Item D × Bytes)))
    (text : Bytes) : Option (Item D × Bytes) :=
  if nullText.isPrefixOf text then some (.null, text.drop 4)
  else if falseText.isPrefixOf text then some (.bool false, text.drop 5)
  else if trueText.isPrefixOf text then some (.bool true, text.drop 4)
  else
    match text with
    | [] => none
    | first :: rest =>
      if first = quote then do
        let (value, rest) ← parseString text
        some (.string (.ofBytes value), rest)
      else if first = minus ∨ isDigit first = true then parseNumber c text
      else if first = openBracket then inner.bind fun parse => parseNested parse false rest
      else if first = openBrace then inner.bind fun parse => parseNested parse true rest
      else none

/-- With `room` for further arrays and objects inside each other. -/
def parseValue (c : Doubles D) : Nat → Bytes → Option (Item D × Bytes)
  | 0 => parseValueBy c none
  | room + 1 => parseValueBy c (some (parseValue c room))

def cJSONParseWithOpts (c : Doubles D) (value : Bytes) (requireNullTerminated : Bool) :
    Option (Item D) := do
  let (item, rest) ← parseValue c cjsonNestingLimit (skipWhitespace (cstr value))
  if requireNullTerminated ∧ skipWhitespace rest ≠ [] then none else some item

def cJSONParse (c : Doubles D) (value : Bytes) : Option (Item D) :=
  cJSONParseWithOpts c value false

end Sv6x66.Cjson
