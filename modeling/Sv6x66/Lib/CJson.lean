import Sv6x66.Lib.CString

/-! The items of a parsed JSON text as the C library `cJSON` shows them: a
child list with names, and the members `valuestring` and `valueint` that hold
a value for some kinds of item only. A missing item is `none`, for `NULL`. -/
namespace Sv6x66.Lib
open Sv6x66.Lib.CString

/-- Texts and names end before their NUL. -/
inductive CJson where
  | null
  | bool (value : Bool)
  | number (valueint : Int)
  | string (text : Bytes)
  | array (items : List CJson)
  | object (members : List (Bytes × CJson))

namespace CJson

def valuestring : CJson → Option Bytes
  | .string text => some text
  | _ => none

def valueint : CJson → Int
  | .bool true => 1
  | .number value => value
  | _ => 0

/-- The child list: an array gives its children no names. -/
def children : CJson → List (Option Bytes × CJson)
  | .array items => items.map fun item => (none, item)
  | .object members => members.map fun member => (some member.1, member.2)
  | _ => []

def tolower (byte : UInt8) : UInt8 :=
  if 65 ≤ byte.toNat ∧ byte.toNat ≤ 90 then byte + 32 else byte

/-- `case_insensitive_strcmp` finds no difference. -/
def sameName (name : Bytes) (string : Option Bytes) : Bool :=
  string.any fun text => name.map tolower = text.map tolower

def getArraySize (item : CJson) : Nat := item.children.length

def getArrayItem (item : CJson) (index : Nat) : Option CJson :=
  (item.children[index]?).map Prod.snd

def getObjectItem (item : Option CJson) (name : Bytes) : Option CJson :=
  (item.bind fun object => object.children.find? fun child => sameName name child.1).map Prod.snd

/-- `strcmp` of a `valuestring` with a text finds no difference; a comparison with
`NULL` is not defined. -/
def textIs (item : CJson) (text : Bytes) : Option Bool := item.valuestring.map (· = text)

@[simp] theorem getArraySize_array (items : List CJson) : (array items).getArraySize = items.length := by
  simp [getArraySize, children]

@[simp] theorem map_snd_children (items : List CJson) :
    (array items).children.map Prod.snd = items := by
  simp [children]

/-- The items at the first indices are the first of the child list. -/
theorem map_getArrayItem {item : CJson} {k : Nat} (hk : k ≤ item.getArraySize) :
    (List.range k).map item.getArrayItem = ((item.children.map Prod.snd).take k).map some := by
  unfold getArraySize at hk
  apply List.ext_getElem
  · simp [hk]
  · intro i hleft hright
    have hi : i < k := by simpa using hleft
    have hlt : i < item.children.length := by omega
    simp [getArrayItem, hlt]

end CJson

end Sv6x66.Lib
