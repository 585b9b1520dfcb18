import Sv6x66.Lib.CJson
import Sv6x66.Lib.StreamRing
import Sv6x66.Colink.KeyLed

/-! What `dl_deviceid_task` does with the record it is sent. The fields are looked up and
copied one after the other; each may be missing, but a field that is there is taken for a
string that fits, and the result of `macaddress_conver` is not looked at. -/
namespace Sv6x66.Colink.DlAccept
open Sv6x66.Lib
open Sv6x66.Lib.CString
open Sv6x66.Lib.CJson
open Sv6x66.Lib.StreamRing
open Sv6x66.Colink.KeyLed

structure ColinkDevice where
  deviceid : Vector UInt8 11
  apikey : Vector UInt8 37
  staMac : Vector UInt8 6
  sapMac : Vector UInt8 6
  model : Vector UInt8 11
deriving DecidableEq

def sizeofColinkDevice : Nat := 11 + 37 + 6 + 6 + 11

/-- Why the record is not built: `fault` where the behaviour is not defined, `lost` at the
labels `exit1` and `exit2`. -/
inductive Stop where
  | fault
  | lost
deriving DecidableEq, Repr

/-- The loop of `macaddress_conver`, with the value of `i` behind it. -/
def macLoop : (left i : Nat) → (mac : Vector UInt8 6) → (macstr : Bytes) → Vector UInt8 6 × Nat
  | 0, i, mac, _ => (mac, i)
  | left + 1, i, mac, macstr =>
    let (value, endptr) := strtol 16 macstr
    let mac := mac.setIfInBounds i (UInt8.ofInt value)
    if endptr.head? ≠ some 58 then (mac, i) else macLoop left (i + 1) mac endptr.tail

def macaddressConver (mac : Vector UInt8 6) (macstr : Bytes) : Vector UInt8 6 × Int :=
  let (mac, i) := macLoop 6 0 mac macstr
  (mac, if i = 5 then 0 else -1)

/-- `strcpy` into an array of `n` bytes. -/
def strcpy {n : Nat} (dest : Vector UInt8 n) (text : Bytes) : Except Stop (Vector UInt8 n) :=
  if text.length < n then
    .ok (Vector.ofFn fun i => (splice dest.toList 0 (text ++ [0])).getD i 0)
  else .error .fault

/-- `json_temp_p->valuestring` of a field. -/
def fieldText (jsonRoot : CJson) (name : String) : Except Stop Bytes :=
  match getObjectItem (some jsonRoot) (ofString name) with
  | none => .error .lost
  | some jsonTemp =>
    match jsonTemp.valuestring with
    | none => .error .fault
    | some text => .ok text

/-- The part of `colink_dl_check` behind `cJSON_Parse`. `colink_deviceid_sha256` gives the 64
characters of the digest, or has no memory for it. -/
def colinkDlCheck (sha256 : Option (ColinkDevice → Vector UInt8 64)) (pdev : ColinkDevice)
    (jsonRoot : Option CJson) : Except Stop (ColinkDevice × Bytes) := do
  match jsonRoot with
  | none => throw .lost
  | some jsonRoot =>
    let text ← fieldText jsonRoot "deviceid"
    let pdev := { pdev with deviceid := ← strcpy pdev.deviceid text }
    let text ← fieldText jsonRoot "factory_apikey"
    let pdev := { pdev with apikey := ← strcpy pdev.apikey text }
    let text ← fieldText jsonRoot "sta_mac"
    let pdev := { pdev with staMac := (macaddressConver pdev.staMac text).1 }
    let text ← fieldText jsonRoot "sap_mac"
    let pdev := { pdev with sapMac := (macaddressConver pdev.sapMac text).1 }
    let text ← fieldText jsonRoot "device_model"
    let pdev := { pdev with model := ← strcpy pdev.model text }
    match sha256 with
    | none => throw .lost
    | some digest => return (pdev, (digest pdev).toList)

/-- What the task works with: the digest, the results of `FS_open` and `FS_write`, and the
device mode. -/
structure Platform where
  sha256 : Option (ColinkDevice → Vector UInt8 64)
  fd : Int
  written : Int
  mode : CoLinkDeviceMode

/-- The record in the file, if it holds one, and in memory; whether the watchdog is going to
reset the device; and what was sent. -/
structure Device where
  deviceFile : Option ColinkDevice
  colinkDev : ColinkDevice
  reset : Bool
  sent : List Bytes
deriving DecidableEq

/-- The file is truncated when it is opened. -/
def colinkSaveDeviceid (p : Platform) (d : Device) (dev : ColinkDevice) : Int × Device :=
  if p.fd ≥ 0 then
    (p.written, { d with
      deviceFile := if p.written = sizeofColinkDevice then some dev else none })
  else (-1, d)

def uartFormatStr : Bytes := ofString "\r\nERROR FORMAT:fields lost\r\nOK\r\n"

def uartIofailStr : Bytes := ofString "\r\nFLASH FAILED: IO ERROR\r\nOK\r\n"

def uartReturnOk : Bytes := ofString "OK\r\n"

/-- The end of the task, with the record that was saved if it was. -/
def finish (p : Platform) (d : Device) (dev : ColinkDevice) : Device × Option ColinkDevice :=
  let (size, d) := colinkSaveDeviceid p d dev
  if size = sizeofColinkDevice then
    if p.mode ≠ .start then ({ d with reset := true }, some dev)
    else ({ d with colinkDev := dev }, some dev)
  else ({ d with sent := d.sent ++ [uartIofailStr] }, none)

/-- `dl_deviceid_task` from the text on, with the record that was saved if one was. `dev` is
not assigned at first. -/
def dlDeviceidTask (p : Platform) (dev : ColinkDevice) (d : Device) (jsonRoot : Option CJson) :
    Option (Device × Option ColinkDevice) :=
  match colinkDlCheck p.sha256 dev jsonRoot with
  | .error .fault => none
  | .error .lost => some ({ d with sent := d.sent ++ [uartFormatStr] }, none)
  | .ok (dev, digest) =>
    some (finish p { d with sent := d.sent ++ [digest, ofString "\r\n", uartReturnOk] } dev)

/-! ### What is to be accepted -/

/-- One or two hexadecimal digits. -/
def HexOctet (group : Bytes) (octet : UInt8) : Prop :=
  ∃ digits : List Nat, group.map digitOf = digits.map some ∧ (∀ digit ∈ digits, digit < 16) ∧
    (digits.length = 1 ∨ digits.length = 2) ∧ Nat.ofDigits 16 digits.reverse = octet.toNat

/-- Six octets with colons between them. -/
def MacText (text : Bytes) (mac : Vector UInt8 6) : Prop :=
  ∃ groups, text = [58].intercalate groups ∧ List.Forall₂ HexOctet groups mac.toList

structure Values where
  deviceid : Bytes
  apikey : Bytes
  staMac : Vector UInt8 6
  sapMac : Vector UInt8 6
  model : Bytes

/-- All five fields are there, as strings of these values that fit into their arrays. -/
structure Valid (jsonRoot : CJson) (v : Values) : Prop where
  deviceid : fieldText jsonRoot "deviceid" = .ok v.deviceid ∧ v.deviceid.length < 11
  apikey : fieldText jsonRoot "factory_apikey" = .ok v.apikey ∧ v.apikey.length < 37
  staMac : ∃ text, fieldText jsonRoot "sta_mac" = .ok text ∧ MacText text v.staMac
  sapMac : ∃ text, fieldText jsonRoot "sap_mac" = .ok text ∧ MacText text v.sapMac
  model : fieldText jsonRoot "device_model" = .ok v.model ∧ v.model.length < 11

structure Holds (dev : ColinkDevice) (v : Values) : Prop where
  deviceid : v.deviceid ++ [0] <+: dev.deviceid.toList
  apikey : v.apikey ++ [0] <+: dev.apikey.toList
  staMac : dev.staMac = v.staMac
  sapMac : dev.sapMac = v.sapMac
  model : v.model ++ [0] <+: dev.model.toList

/-- A record is saved only if it is valid, with the values sent, and memory holds it or what
it held; where none is saved, memory is left alone. -/
def Accepts (p : Platform) (dev : ColinkDevice) (d : Device) (jsonRoot : Option CJson) : Prop :=
  ∃ d' saved, dlDeviceidTask p dev d jsonRoot = some (d', saved) ∧
    match saved with
    | none => d'.colinkDev = d.colinkDev
    | some record => (∃ root v, jsonRoot = some root ∧ Valid root v ∧ Holds record v) ∧
        (d'.colinkDev = d.colinkDev ∨ d'.colinkDev = record)

/-! ### The fields in order -/

/-- A field, the size of its array if its text is copied there, and where it is stored. -/
structure Field where
  name : String
  size : Option Nat
  store : ColinkDevice → Bytes → Except Stop ColinkDevice

def fields : List Field := [
  ⟨"deviceid", some 11, fun dev text => do return { dev with deviceid := ← strcpy dev.deviceid text }⟩,
  ⟨"factory_apikey", some 37, fun dev text => do return { dev with apikey := ← strcpy dev.apikey text }⟩,
  ⟨"sta_mac", none, fun dev text => .ok { dev with staMac := (macaddressConver dev.staMac text).1 }⟩,
  ⟨"sap_mac", none, fun dev text => .ok { dev with sapMac := (macaddressConver dev.sapMac text).1 }⟩,
  ⟨"device_model", some 11, fun dev text => do return { dev with model := ← strcpy dev.model text }⟩]

def storeField (jsonRoot : CJson) (dev : ColinkDevice) (field : Field) : Except Stop ColinkDevice := do
  field.store dev (← fieldText jsonRoot field.name)

theorem colinkDlCheck_eq (sha256 : Option (ColinkDevice → Vector UInt8 64)) (pdev : ColinkDevice)
    (jsonRoot : CJson) :
    colinkDlCheck sha256 pdev (some jsonRoot) = do
      let dev ← fields.foldlM (storeField jsonRoot) pdev
      match sha256 with
      | none => throw .lost
      | some digest => return (dev, (digest dev).toList) := by
  simp only [colinkDlCheck, fields, storeField, List.foldlM_cons, List.foldlM_nil, bind_assoc,
    pure_bind]
  rfl

/-- The field is there as a string, short enough if it is copied. -/
def Field.Fits (jsonRoot : CJson) (field : Field) : Prop :=
  ∃ text, fieldText jsonRoot field.name = .ok text ∧ ∀ size ∈ field.size, text.length < size

/-- A field is missing, and the ones before it fit. -/
def Loses (jsonRoot : CJson) : List Field → Prop
  | [] => False
  | field :: rest =>
    fieldText jsonRoot field.name = .error .lost ∨ (field.Fits jsonRoot ∧ Loses jsonRoot rest)

theorem strcpy_of_fits {n : Nat} (dest : Vector UInt8 n) {text : Bytes} (h : text.length < n) :
    ∃ array, strcpy dest text = .ok array ∧ text ++ [0] <+: array.toList := by
  refine ⟨_, if_pos h, ?_⟩
  have hlength : (splice dest.toList 0 (text ++ [0])).length = n := by
    rw [splice_length, Vector.length_toList]
    rw [Vector.length_toList, List.length_append, List.length_singleton]
    omega
  have harray : (Vector.ofFn fun i : Fin n =>
      (splice dest.toList 0 (text ++ [0])).getD i 0).toList = splice dest.toList 0 (text ++ [0]) := by
    apply List.ext_getElem
    · rw [Vector.length_toList, hlength]
    · intro i hleft hright
      simp [List.getElem?_eq_getElem hright]
  rw [harray]
  exact List.prefix_append _ _

theorem strcpy_of_long {n : Nat} (dest : Vector UInt8 n) {text : Bytes} (h : ¬ text.length < n) :
    strcpy dest text = .error .fault := if_neg h

/-- A text that fits is stored; copying another one is not defined. -/
def Field.Stores (field : Field) : Prop :=
  ∀ dev text, ((∀ size ∈ field.size, text.length < size) → ∃ dev', field.store dev text = .ok dev') ∧
    (¬ (∀ size ∈ field.size, text.length < size) → field.store dev text = .error .fault)

theorem stores_copy {name : String} {size : Nat} (array : ColinkDevice → Vector UInt8 size)
    (set : ColinkDevice → Vector UInt8 size → ColinkDevice) :
    Field.Stores ⟨name, some size, fun dev text => do return set dev (← strcpy (array dev) text)⟩ := by
  intro dev text
  constructor
  · intro hfits
    obtain ⟨copied, hcopied, -⟩ := strcpy_of_fits (array dev) (hfits size rfl)
    exact ⟨set dev copied, by simp only [hcopied]; rfl⟩
  · intro hlong
    have hnot : ¬ text.length < size := fun h => hlong fun _ hsize => Option.some.inj hsize ▸ h
    simp only [strcpy_of_long (array dev) hnot]
    rfl

theorem fields_store : ∀ field ∈ fields, field.Stores := by
  simp only [fields, List.forall_mem_cons, List.not_mem_nil, false_imp_iff, implies_true, and_true]
  refine ⟨stores_copy _ _, stores_copy _ _, ?_, ?_, stores_copy _ _⟩
  · exact fun dev text => ⟨fun _ => ⟨_, rfl⟩, fun hlong => absurd (by simp) hlong⟩
  · exact fun dev text => ⟨fun _ => ⟨_, rfl⟩, fun hlong => absurd (by simp) hlong⟩

/-- Going through the fields ends at the first that is missing, or does not fit. -/
theorem foldlM_storeField {jsonRoot : CJson} {list : List Field} (hstores : ∀ f ∈ list, f.Stores)
    (dev : ColinkDevice) :
    (Loses jsonRoot list → list.foldlM (storeField jsonRoot) dev = .error .lost) ∧
      ((∀ field ∈ list, field.Fits jsonRoot) →
        ∃ dev', list.foldlM (storeField jsonRoot) dev = .ok dev') ∧
      (¬ Loses jsonRoot list → ¬ (∀ field ∈ list, field.Fits jsonRoot) →
        list.foldlM (storeField jsonRoot) dev = .error .fault) := by
  induction list generalizing dev with
  | nil => exact ⟨fun h => h.elim, fun _ => ⟨dev, rfl⟩, fun _ h => absurd (by simp) h⟩
  | cons field rest ih =>
    have hfield := hstores field List.mem_cons_self
    have hrest := ih fun f hf => hstores f (List.mem_cons_of_mem field hf)
    rw [List.forall_mem_cons, List.foldlM_cons, storeField]
    unfold Loses
    by_cases hfits : field.Fits jsonRoot
    · obtain ⟨text, htext, hsize⟩ := hfits
      obtain ⟨dev', hdev'⟩ := (hfield dev text).1 hsize
      have hpresent : fieldText jsonRoot field.name ≠ .error .lost := by
        rw [htext]
        exact fun h => by cases h
      have hstep : (do field.store dev (← fieldText jsonRoot field.name)) = .ok dev' := by
        rw [htext]
        exact hdev'
      have hthis : field.Fits jsonRoot := ⟨text, htext, hsize⟩
      rw [hstep, or_iff_right hpresent, and_iff_right hthis, and_iff_right hthis]
      exact hrest dev'
    · rw [or_iff_left fun h => hfits h.1]
      refine ⟨fun hlost => ?_, fun h => absurd h.1 hfits, fun hpresent _ => ?_⟩
      · rw [hlost]
        rfl
      · cases htext : fieldText jsonRoot field.name with
        | error stop =>
          cases stop with
          | fault => rfl
          | lost => exact absurd htext hpresent
        | ok text =>
          have hlong : ¬ ∀ size ∈ field.size, text.length < size := fun hsize =>
            hfits ⟨text, htext, hsize⟩
          change ((field.store dev text).bind _) = _
          rw [(hfield dev text).2 hlong]
          rfl

/-! ### The octets -/

/-- `strtol` reads an octet up to the colon behind it, or to the end. -/
theorem strtol_octet {group : Bytes} {octet : UInt8} (h : HexOctet group octet) (rest : Bytes)
    (hrest : ∀ byte ∈ rest.head?, byte = 58) :
    (strtol 16 (group ++ rest)).2 = rest ∧
      UInt8.ofInt (strtol 16 (group ++ rest)).1 = octet := by
  obtain ⟨digits, hgroup, hlt, hlength, hvalue⟩ := h
  have hne : digits ≠ [] := by
    intro hnil
    rw [hnil] at hlength
    cases hlength <;> contradiction
  have hoctet := octet.toNat_lt
  have hcolon : ∀ byte ∈ rest.head?, digitOf byte = none := by
    intro byte hbyte
    rw [hrest byte hbyte]
    rfl
  rw [strtol_hex hgroup hlt hne (by omega) hcolon, hvalue]
  exact ⟨rfl, (uint8_ofInt _).trans UInt8.ofNat_toNat⟩

/-- The loop stores the octets of the groups it reads. -/
theorem macLoop_groups {groups : List Bytes} {octets : List UInt8}
    (h : List.Forall₂ HexOctet groups octets) (hne : groups ≠ []) (i : Nat) (mac : Vector UInt8 6)
    (hfit : i + octets.length ≤ 6) :
    (macLoop groups.length i mac ([58].intercalate groups)).1.toList =
      splice mac.toList i octets := by
  induction h generalizing i mac with
  | nil => exact absurd rfl hne
  | @cons group octet groups octets hgroup hrest ih =>
    rw [List.length_cons] at hfit
    have hi : i < mac.toList.length := by
      rw [Vector.length_toList]
      omega
    have hstore : (mac.setIfInBounds i octet).toList = mac.toList.set i octet :=
      Vector.toList_setIfInBounds
    rw [← splice_set hi, ← hstore]
    cases groups with
    | nil =>
      cases hrest
      obtain ⟨hend, hvalue⟩ := strtol_octet hgroup [] (by simp)
      rw [List.append_nil] at hend hvalue
      rw [splice_nil, List.intercalate_singleton, List.length_singleton, macLoop]
      simp only [hend, hvalue]
      rfl
    | cons next groups =>
      have htext : [58].intercalate (group :: next :: groups) =
          group ++ 58 :: [58].intercalate (next :: groups) := by
        rw [List.intercalate_cons_cons]
        simp
      obtain ⟨hend, hvalue⟩ := strtol_octet hgroup
        (58 :: [58].intercalate (next :: groups)) (by simp)
      rw [htext, List.length_cons, macLoop]
      simp only [hend, hvalue]
      exact ih (by simp) (i + 1) _ (by omega)

theorem macaddressConver_of_macText {text : Bytes} {octets : Vector UInt8 6}
    (h : MacText text octets) (mac : Vector UInt8 6) : (macaddressConver mac text).1 = octets := by
  obtain ⟨groups, rfl, hgroups⟩ := h
  have hsix : groups.length = 6 := by rw [hgroups.length_eq, Vector.length_toList]
  have hloop := macLoop_groups hgroups (List.ne_nil_of_length_pos (by omega)) 0 mac
    (by rw [Vector.length_toList])
  rw [hsix] at hloop
  apply Vector.toList_inj.mp
  refine hloop.trans ?_
  unfold splice
  rw [List.take_zero, List.nil_append, Vector.length_toList, Nat.zero_add,
    List.drop_eq_nil_of_le (by rw [Vector.length_toList]), List.append_nil]

/-! ### Acceptance -/

theorem Valid.fits {jsonRoot : CJson} {v : Values} (h : Valid jsonRoot v) :
    ∀ field ∈ fields, field.Fits jsonRoot := by
  obtain ⟨staText, hsta, -⟩ := h.staMac
  obtain ⟨sapText, hsap, -⟩ := h.sapMac
  simp only [fields, List.forall_mem_cons, List.not_mem_nil, false_imp_iff, implies_true, and_true]
  refine ⟨⟨_, h.deviceid.1, ?_⟩, ⟨_, h.apikey.1, ?_⟩, ⟨_, hsta, ?_⟩, ⟨_, hsap, ?_⟩,
    ⟨_, h.model.1, ?_⟩⟩
  · simpa using h.deviceid.2
  · simpa using h.apikey.2
  · simp
  · simp
  · simpa using h.model.2

/-- The record built of valid fields holds their values. -/
theorem Valid.holds {jsonRoot : CJson} {v : Values} (h : Valid jsonRoot v) {pdev dev : ColinkDevice}
    (hdev : fields.foldlM (storeField jsonRoot) pdev = .ok dev) : Holds dev v := by
  obtain ⟨staText, hsta, hstaMac⟩ := h.staMac
  obtain ⟨sapText, hsap, hsapMac⟩ := h.sapMac
  obtain ⟨deviceid, hdeviceid, hdeviceidText⟩ := strcpy_of_fits pdev.deviceid h.deviceid.2
  obtain ⟨apikey, hapikey, hapikeyText⟩ := strcpy_of_fits pdev.apikey h.apikey.2
  obtain ⟨model, hmodel, hmodelText⟩ := strcpy_of_fits pdev.model h.model.2
  have hstaEq := macaddressConver_of_macText hstaMac pdev.staMac
  have hsapEq := macaddressConver_of_macText hsapMac pdev.sapMac
  have hbuilt : fields.foldlM (storeField jsonRoot) pdev =
      .ok ⟨deviceid, apikey, v.staMac, v.sapMac, model⟩ := by
    simp only [fields, storeField, List.foldlM_cons, List.foldlM_nil, h.deviceid.1, h.apikey.1,
      hsta, hsap, h.model.1, bind, Except.bind, hdeviceid, hapikey, hmodel, hstaEq, hsapEq, pure,
      Except.pure]
  rw [hbuilt] at hdev
  cases hdev
  exact ⟨hdeviceidText, hapikeyText, rfl, rfl, hmodelText⟩

/-- The record is kept from the flash by a lack of memory, or by the file. -/
def Refused (p : Platform) : Prop :=
  p.sha256 = none ∨ p.fd < 0 ∨ p.written ≠ sizeofColinkDevice

theorem finish_saved {p : Platform} (hsave : p.fd ≥ 0 ∧ p.written = sizeofColinkDevice)
    (d : Device) (dev : ColinkDevice) :
    (finish p d dev).2 = some dev ∧
      ((finish p d dev).1.colinkDev = d.colinkDev ∨ (finish p d dev).1.colinkDev = dev) := by
  unfold finish colinkSaveDeviceid
  rw [if_pos hsave.1]
  simp only [hsave.2, if_true]
  split
  · exact ⟨rfl, .inl rfl⟩
  · exact ⟨rfl, .inr rfl⟩

theorem finish_not_saved {p : Platform} (hsave : ¬ (p.fd ≥ 0 ∧ p.written = sizeofColinkDevice))
    (d : Device) (dev : ColinkDevice) :
    (finish p d dev).2 = none ∧ (finish p d dev).1.colinkDev = d.colinkDev := by
  unfold finish colinkSaveDeviceid
  by_cases hfd : p.fd ≥ 0
  · have hwritten : ¬ p.written = sizeofColinkDevice := fun h => hsave ⟨hfd, h⟩
    rw [if_pos hfd]
    simp only [if_neg hwritten]
    exact ⟨trivial, trivial⟩
  · rw [if_neg hfd]
    exact ⟨rfl, rfl⟩

/-- A call that gets as far as the flash: a record that is not valid is saved all the same. -/
theorem accepts_finish_iff {p : Platform} {dev record : ColinkDevice} {d d₁ : Device}
    {root : CJson} (htask : dlDeviceidTask p dev d (some root) = some (finish p d₁ record))
    (hmemory : d₁.colinkDev = d.colinkDev) (hholds : ∀ v, Valid root v → Holds record v) :
    Accepts p dev d (some root) ↔
      (∃ v, Valid root v) ∨ ¬ (p.fd ≥ 0 ∧ p.written = sizeofColinkDevice) := by
  unfold Accepts
  rw [htask]
  by_cases hsave : p.fd ≥ 0 ∧ p.written = sizeofColinkDevice
  · have hfinish := finish_saved hsave d₁ record
    generalize finish p d₁ record = result at hfinish ⊢
    obtain ⟨d', saved⟩ := result
    obtain ⟨rfl, hkept⟩ := hfinish
    rw [hmemory] at hkept
    constructor
    · rintro ⟨d'', saved, htask, haccepted⟩
      cases htask
      obtain ⟨⟨root', v, hroot, hvalid, -⟩, -⟩ := haccepted
      cases hroot
      exact .inl ⟨v, hvalid⟩
    · rintro (⟨v, hvalid⟩ | hrefused)
      · exact ⟨d', some record, rfl, ⟨root, v, rfl, hvalid, hholds v hvalid⟩, hkept⟩
      · exact absurd hsave hrefused
  · have hfinish := finish_not_saved hsave d₁ record
    generalize finish p d₁ record = result at hfinish ⊢
    obtain ⟨d', saved⟩ := result
    obtain ⟨rfl, hkept⟩ := hfinish
    exact ⟨fun _ => .inr hsave, fun _ => ⟨d', none, rfl, hkept.trans hmemory⟩⟩

theorem refused_iff {p : Platform} {digest : ColinkDevice → Vector UInt8 64}
    (h : p.sha256 = some digest) :
    Refused p ↔ ¬ (p.fd ≥ 0 ∧ p.written = sizeofColinkDevice) := by
  unfold Refused
  rw [h]
  simp only [reduceCtorEq, false_or]
  omega

/-- A record is saved only if it is valid, with its values, exactly if the text is no JSON, or
the record is valid, or a field is missing behind fields that fit, or all fit and the record
is kept from the flash. -/
theorem dlDeviceidTask_accepts_iff (p : Platform) (dev : ColinkDevice) (d : Device)
    (jsonRoot : Option CJson) :
    Accepts p dev d jsonRoot ↔
      ∀ root ∈ jsonRoot, (∃ v, Valid root v) ∨ Loses root fields ∨
        ((∀ field ∈ fields, field.Fits root) ∧ Refused p) := by
  cases jsonRoot with
  | none => exact ⟨fun _ root hroot => (by cases hroot), fun _ => ⟨_, none, rfl, rfl⟩⟩
  | some root =>
    simp only [Option.mem_some, forall_eq']
    obtain ⟨hlost, hfit, hfault⟩ := @foldlM_storeField root _ fields_store dev
    have htask : dlDeviceidTask p dev d (some root) =
        match colinkDlCheck p.sha256 dev (some root) with
        | .error .fault => none
        | .error .lost => some ({ d with sent := d.sent ++ [uartFormatStr] }, none)
        | .ok (dev, digest) =>
          some (finish p
            { d with sent := d.sent ++ [digest, ofString "\r\n", uartReturnOk] } dev) := rfl
    rw [colinkDlCheck_eq] at htask
    by_cases hloses : Loses root fields
    · rw [hlost hloses] at htask
      exact ⟨fun _ => .inr (.inl hloses), fun _ => ⟨_, none, htask, rfl⟩⟩
    · by_cases hall : ∀ field ∈ fields, field.Fits root
      · obtain ⟨record, hrecord⟩ := hfit hall
        rw [hrecord] at htask
        cases hsha : p.sha256 with
        | none =>
          rw [hsha] at htask
          exact ⟨fun _ => .inr (.inr ⟨hall, .inl hsha⟩), fun _ => ⟨_, none, htask, rfl⟩⟩
        | some digest =>
          rw [hsha] at htask
          rw [accepts_finish_iff htask rfl fun v hvalid => hvalid.holds hrecord, refused_iff hsha,
            or_iff_right hloses, and_iff_right hall]
      · rw [hfault hloses hall] at htask
        constructor
        · rintro ⟨d', saved, hresult, -⟩
          rw [htask] at hresult
          cases hresult
        · rintro (⟨v, hvalid⟩ | hloses' | ⟨hall', -⟩)
          · exact absurd hvalid.fits hall
          · exact absurd hloses' hloses
          · exact absurd hall' hall

/-! ### A short MAC -/

theorem length_intercalate {groups : List Bytes} {octets : List UInt8}
    (h : List.Forall₂ HexOctet groups octets) :
    2 * octets.length ≤ ([58].intercalate groups).length + 1 := by
  induction h with
  | nil => exact Nat.zero_le _
  | @cons group octet groups octets hgroup hrest ih =>
    obtain ⟨digits, hdigits, -, hlength, -⟩ := hgroup
    have hpos : 1 ≤ group.length := by
      have heq := congrArg List.length hdigits
      rw [List.length_map, List.length_map] at heq
      omega
    cases groups with
    | nil =>
      cases hrest
      rw [List.intercalate_singleton, List.length_singleton]
      omega
    | cons next groups =>
      rw [List.intercalate_cons_cons, List.length_append, List.length_append,
        List.length_singleton, List.length_cons]
      omega

def blankDevice : ColinkDevice :=
  ⟨.replicate 11 0, .replicate 37 0, .replicate 6 0, .replicate 6 0, .replicate 11 0⟩

def blank : Device := ⟨none, blankDevice, false, []⟩

/-- Memory and flash that work, while the device starts. -/
def working : Platform := ⟨some fun _ => .replicate 64 48, 0, sizeofColinkDevice, .start⟩

def shortMac : CJson := .object [
  (ofString "deviceid", .string (ofString "1000003192")),
  (ofString "factory_apikey", .string (ofString "76eaabdc-5157-4d7a-a619-1794afe8120d")),
  (ofString "sta_mac", .string (ofString "d0:27")),
  (ofString "sap_mac", .string (ofString "d0:27:00:00:60:75")),
  (ofString "device_model", .string (ofString "ITA-GZ1-GL"))]

/-- Four octets that were never sent are saved, and become those of the device. -/
theorem shortMac_saved : ¬ ∀ p dev d jsonRoot, Accepts p dev d jsonRoot := by
  intro hall
  obtain ⟨d', saved, htask, haccepted⟩ := hall working blankDevice blank (some shortMac)
  have hsaved : ((dlDeviceidTask working blankDevice blank (some shortMac)).bind Prod.snd).isSome := by
    decide
  rw [htask, Option.bind_some] at hsaved
  cases saved with
  | none => cases hsaved
  | some record =>
    obtain ⟨⟨root, v, hroot, hvalid, -⟩, -⟩ := haccepted
    cases hroot
    obtain ⟨text, htext, groups, rfl, hgroups⟩ := hvalid.staMac
    have hlength := length_intercalate hgroups
    have hfield : fieldText shortMac "sta_mac" = .ok (ofString "d0:27") := rfl
    rw [hfield] at htext
    rw [← Except.ok.inj htext, Vector.length_toList] at hlength
    exact absurd hlength (by decide)

end Sv6x66.Colink.DlAccept
