import Sv6x66.Atcmd.CommandLine

/-! `At_SetWifiConfig`, which looks the SSID up in the scan list. The second test of the
search reads `security_type =! 0 && keylen > 0`, an assignment. -/
namespace Sv6x66.Atcmd.ApSelection
open Sv6x66.Lib.CString
open Sv6x66.Atcmd.CommandLine

abbrev Mac : Type := Vector UInt8 6

/-- `TAG_AP_INFO`, bytes without padding. -/
structure ApInfo where
  name : Vector UInt8 32
  nameLen : UInt8
  mac : Mac
  channel : UInt8
  securityType : UInt8
  securitySubType : UInt8
  rssi : UInt8
deriving DecidableEq

def ApInfo.bytes (ap : ApInfo) : Bytes :=
  ap.name.toList ++ ap.nameLen :: ap.mac.toList ++
    [ap.channel, ap.securityType, ap.securitySubType, ap.rssi]

/-- What `strcmp` reads at the name of the first entry. A name that fills its array goes on
into the fields behind it. -/
def nameRead (behind : Bytes) (list : List ApInfo) : Bytes :=
  cstr (list.flatMap ApInfo.bytes ++ behind)

/-- The search, with the list it leaves and the address it found. -/
def search (behind pSsid : Bytes) (keylen : Nat) : List ApInfo → List ApInfo × Option Mac
  | [] => ([], none)
  | ap :: rest =>
    if nameRead behind (ap :: rest) = pSsid then
      if ap.securityType = 0 ∧ keylen = 0 then (ap :: rest, some ap.mac)
      else
        let ap := { ap with securityType := if keylen > 0 then 1 else 0 }
        if ap.securityType ≠ 0 then (ap :: rest, some ap.mac)
        else
          let found := search behind pSsid keylen rest
          (ap :: found.1, found.2)
    else
      let found := search behind pSsid keylen rest
      (ap :: found.1, found.2)

def colon : UInt8 := 58

/-- What `strtok` returns one after the other. -/
def groups (text : Bytes) : List Bytes := (text.splitOn colon).filter (· ≠ [])

/-- The address argument. `strtoul` reads through NULL where a group is missing. -/
def parseMac (pMac : Bytes) : Option Mac :=
  if h : 6 ≤ (groups pMac).length then
    some (Vector.ofFn fun i : Fin 6 =>
      UInt8.ofNat (strtoul 16 ((groups pMac).get (i.castLE h))))
  else none

/-- The arguments of `set_wifi_config`. -/
structure Request where
  ssid : Bytes
  ssidlen : UInt8
  key : Option Bytes
  keylen : UInt8
  mac : Option Mac
deriving DecidableEq

def keylenOf (pWebkey : Option Bytes) : Nat := (pWebkey.getD []).length

/-- What follows the test of `argc`: the list left behind and the request. -/
def configure (apList : List ApInfo) (behind pSsid : Bytes) (pWebkey pMac : Option Bytes) :
    Option (List ApInfo × Request) :=
  let keylen := keylenOf pWebkey
  (pMac.mapM parseMac).map fun mac =>
    let found := search behind pSsid keylen apList
    (found.1, ⟨pSsid, UInt8.ofNat pSsid.length, pWebkey, UInt8.ofNat keylen, found.2 <|> mac⟩)

/-- The request made, if any, the list and the result. -/
def atSetWifiConfig (setWifiConfig : Request → Int) (apList : List ApInfo) (behind : Bytes)
    (p : Param) : Option (Option Request × List ApInfo × Int) :=
  if p.argc < 2 then some (none, apList, errorInvalidParameter)
  else do
    let pSsid ← p.deref 1
    let (apList, request) ← configure apList behind pSsid (p.deref 2) (p.deref 3)
    pure (some request, apList,
      if setWifiConfig request ≠ 0 then errorInvalidParameter else errorSuccess)

/-! ### The entry that is meant -/

/-- The SSID of an entry. -/
def ApInfo.ssid (ap : ApInfo) : Bytes := cstr ap.name.toList

/-- An open entry and no key, or a secured one and a key. -/
def Agrees (keylen : Nat) (ap : ApInfo) : Prop := ap.securityType = 0 ↔ keylen = 0

instance (keylen : Nat) (ap : ApInfo) : Decidable (Agrees keylen ap) :=
  inferInstanceAs (Decidable (_ ↔ _))

def meant (pSsid : Bytes) (keylen : Nat) (apList : List ApInfo) : Option ApInfo :=
  apList.find? fun ap => ap.ssid = pSsid ∧ Agrees keylen ap

/-- The list is kept, and the address is that of the entry meant or the argument's. -/
def Selects (setWifiConfig : Request → Int) (apList : List ApInfo) (behind : Bytes) (p : Param) :
    Prop :=
  ∃ pSsid mac request nRet, p.deref 1 = some pSsid ∧ (p.deref 3).mapM parseMac = some mac ∧
    atSetWifiConfig setWifiConfig apList behind p = some (some request, apList, nRet) ∧
    request.mac = ((meant pSsid (keylenOf (p.deref 2)) apList).map ApInfo.mac <|> mac)

/-! ### What the search does -/

/-- The first entry at which `strcmp` finds the SSID. -/
def firstRead (behind pSsid : Bytes) : List ApInfo → Option ApInfo
  | [] => none
  | ap :: rest => if nameRead behind (ap :: rest) = pSsid then some ap else firstRead behind pSsid rest

/-- What the assignment stores. -/
def wanted (keylen : Nat) : UInt8 := if keylen > 0 then 1 else 0

theorem search_of_none {behind pSsid : Bytes} {keylen : Nat} {apList : List ApInfo}
    (h : firstRead behind pSsid apList = none) :
    search behind pSsid keylen apList = (apList, none) := by
  induction apList with
  | nil => rfl
  | cons ap rest ih =>
    unfold firstRead at h
    split at h
    · cases h
    · rename_i hname
      rw [search, if_neg hname, ih h]

theorem search_of_some {behind pSsid : Bytes} {keylen : Nat} {apList : List ApInfo} {ap : ApInfo}
    (h : firstRead behind pSsid apList = some ap) (hsecurity : ap.securityType = wanted keylen) :
    search behind pSsid keylen apList = (apList, some ap.mac) := by
  induction apList with
  | nil => cases h
  | cons first rest ih =>
    unfold firstRead at h
    split at h
    · rename_i hname
      cases h
      rw [search, if_pos hname]
      unfold wanted at hsecurity
      by_cases hkey : keylen > 0
      · rw [if_pos hkey] at hsecurity
        dsimp only
        rw [if_neg (by omega), if_pos hkey, if_pos (by decide), ← hsecurity]
      · rw [if_neg hkey] at hsecurity
        rw [if_pos ⟨hsecurity, by omega⟩]
    · rename_i hname
      rw [search, if_neg hname, ih h]

/-- The entry found is written. -/
theorem search_ne {behind pSsid : Bytes} {keylen : Nat} {apList : List ApInfo} {ap : ApInfo}
    (h : firstRead behind pSsid apList = some ap) (hsecurity : ap.securityType ≠ wanted keylen) :
    (search behind pSsid keylen apList).1 ≠ apList := by
  induction apList with
  | nil => cases h
  | cons first rest ih =>
    unfold firstRead at h
    split at h
    · rename_i hname
      cases h
      have hhead : ((search behind pSsid keylen (ap :: rest)).1.head?).map ApInfo.securityType =
          some (wanted keylen) := by
        rw [search, if_pos hname]
        unfold wanted at hsecurity ⊢
        split_ifs <;> simp_all
      intro heq
      rw [heq] at hhead
      exact hsecurity (Option.some.inj hhead)
    · rename_i hname
      rw [search, if_neg hname]
      intro heq
      exact ih h (List.cons.inj heq).2

/-! ### The entry found and the entry meant -/

/-- An SSID that leaves room for its terminator is compared as it is. -/
theorem nameRead_eq_iff {behind pSsid : Bytes} (hshort : pSsid.length < 32) (ap : ApInfo)
    (rest : List ApInfo) : nameRead behind (ap :: rest) = pSsid ↔ ap.ssid = pSsid := by
  have hlength : ap.name.toList.length = 32 := Vector.length_toList
  have hread : nameRead behind (ap :: rest) =
      cstr (ap.name.toList ++ (ap.nameLen :: ap.mac.toList ++
        [ap.channel, ap.securityType, ap.securitySubType, ap.rssi] ++
          rest.flatMap ApInfo.bytes ++ behind)) := by
    simp [nameRead, ApInfo.bytes]
  rw [hread]
  unfold ApInfo.ssid
  by_cases hzero : 0 ∈ ap.name.toList
  · rw [cstr_append_of_mem hzero]
  · rw [cstr_append hzero, cstr_of_not_mem hzero]
    constructor
    · rintro rfl
      rw [List.length_append, hlength] at hshort
      omega
    · rintro rfl
      rw [hlength] at hshort
      omega

theorem firstRead_eq_find? {pSsid : Bytes} (hshort : pSsid.length < 32) (behind : Bytes)
    (apList : List ApInfo) :
    firstRead behind pSsid apList = apList.find? fun ap => ap.ssid = pSsid := by
  induction apList with
  | nil => rfl
  | cons ap rest ih =>
    rw [firstRead, List.find?_cons, ih]
    by_cases hname : ap.ssid = pSsid
    · rw [if_pos ((nameRead_eq_iff hshort ap rest).mpr hname)]
      simp [hname]
    · rw [if_neg fun hread => hname ((nameRead_eq_iff hshort ap rest).mp hread)]
      simp [hname]

theorem agrees_wanted {keylen : Nat} {ap : ApInfo} (h : ap.securityType = wanted keylen) :
    Agrees keylen ap := by
  unfold Agrees
  rw [h]
  unfold wanted
  split
  · exact iff_of_false (by decide) (by omega)
  · exact iff_of_true rfl (by omega)

/-- If the first entry of that name agrees with the key, it is the one meant. -/
theorem meant_eq_firstRead {behind pSsid : Bytes} {keylen : Nat} {apList : List ApInfo}
    (hshort : pSsid.length < 32)
    (hwanted : ∀ ap ∈ firstRead behind pSsid apList, ap.securityType = wanted keylen) :
    meant pSsid keylen apList = firstRead behind pSsid apList := by
  rw [firstRead_eq_find? hshort] at hwanted ⊢
  unfold meant
  induction apList with
  | nil => rfl
  | cons ap rest ih =>
    by_cases hname : ap.ssid = pSsid
    · have hfound : (ap :: rest).find? (fun ap => ap.ssid = pSsid) = some ap := by simp [hname]
      have hagrees := agrees_wanted (hwanted ap hfound)
      rw [hfound, List.find?_cons]
      simp [hname, hagrees]
    · rw [List.find?_cons_of_neg (by simpa using hname)] at hwanted
      rw [List.find?_cons_of_neg (by simp [hname]), List.find?_cons_of_neg (by simpa using hname)]
      exact ih hwanted

/-! ### When the command selects the entry meant -/

/-- The argument of the address has its six groups; the first entry at which the SSID is
read stores what the assignment would; and where an SSID leaves no room for a terminator,
the entry read gives the same address as the entry meant. -/
structure Unharmed (apList : List ApInfo) (behind pSsid : Bytes) (pWebkey pMac : Option Bytes) :
    Prop where
  groups : ∀ text ∈ pMac, 6 ≤ (groups text).length
  security : ∀ ap ∈ firstRead behind pSsid apList, ap.securityType = wanted (keylenOf pWebkey)
  long : 32 ≤ pSsid.length → ∀ mac, pMac.mapM parseMac = some mac →
    ((firstRead behind pSsid apList).map ApInfo.mac <|> mac) =
      ((meant pSsid (keylenOf pWebkey) apList).map ApInfo.mac <|> mac)

theorem exists_parsed {pMac : Option Bytes} :
    (∃ mac, pMac.mapM parseMac = some mac) ↔ ∀ text ∈ pMac, 6 ≤ (groups text).length := by
  cases pMac with
  | none => exact iff_of_true ⟨none, rfl⟩ (by simp)
  | some text =>
    simp only [Option.mem_some_iff, forall_eq', Option.mapM_some]
    unfold parseMac
    by_cases hgroups : 6 ≤ (groups text).length
    · exact iff_of_true ⟨_, by rw [dif_pos hgroups]; rfl⟩ hgroups
    · refine iff_of_false ?_ hgroups
      rintro ⟨mac, hmac⟩
      rw [dif_neg hgroups] at hmac
      cases hmac

/-- What the command does with its arguments. -/
theorem atSetWifiConfig_eq (setWifiConfig : Request → Int) (apList : List ApInfo)
    (behind : Bytes) {p : Param} (hargc : 2 ≤ p.argc) {pSsid : Bytes} (hssid : p.deref 1 = some pSsid)
    {mac : Option Mac} (hmac : (p.deref 3).mapM parseMac = some mac) :
    ∃ request nRet, atSetWifiConfig setWifiConfig apList behind p =
        some (some request, (search behind pSsid (keylenOf (p.deref 2)) apList).1, nRet) ∧
      request.mac = ((search behind pSsid (keylenOf (p.deref 2)) apList).2 <|> mac) := by
  unfold atSetWifiConfig configure
  rw [if_neg (by omega), hssid, hmac]
  exact ⟨_, _, rfl, rfl⟩

theorem atSetWifiConfig_iff (setWifiConfig : Request → Int) (apList : List ApInfo)
    (behind : Bytes) (p : Param) (hargc : 2 ≤ p.argc) :
    Selects setWifiConfig apList behind p ↔
      ∃ pSsid, p.deref 1 = some pSsid ∧ Unharmed apList behind pSsid (p.deref 2) (p.deref 3) := by
  constructor
  · rintro ⟨pSsid, mac, request, nRet, hssid, hmac, hrun, hrequest⟩
    obtain ⟨request', nRet', hrun', hrequest'⟩ :=
      atSetWifiConfig_eq setWifiConfig apList behind hargc hssid hmac
    obtain ⟨hreq, hlist, -⟩ : request = request' ∧
        apList = (search behind pSsid (keylenOf (p.deref 2)) apList).1 ∧ nRet = nRet' := by
      simpa using hrun.symm.trans hrun'
    have hsecurity : ∀ ap ∈ firstRead behind pSsid apList,
        ap.securityType = wanted (keylenOf (p.deref 2)) := by
      intro ap hap
      by_contra hne
      exact search_ne hap hne hlist.symm
    refine ⟨pSsid, hssid, exists_parsed.mp ⟨mac, hmac⟩, hsecurity, ?_⟩
    intro _ mac' hmac'
    cases hmac.symm.trans hmac'
    rw [← hrequest, hreq, hrequest']
    cases hread : firstRead behind pSsid apList with
    | none => rw [search_of_none hread]; rfl
    | some ap => rw [search_of_some hread (hsecurity ap hread)]; rfl
  · rintro ⟨pSsid, hssid, h⟩
    obtain ⟨mac, hmac⟩ := exists_parsed.mpr h.groups
    obtain ⟨request, nRet, hrun, hrequest⟩ :=
      atSetWifiConfig_eq setWifiConfig apList behind hargc hssid hmac
    have hsearch : search behind pSsid (keylenOf (p.deref 2)) apList =
        (apList, (firstRead behind pSsid apList).map ApInfo.mac) := by
      cases hread : firstRead behind pSsid apList with
      | none => rw [search_of_none hread]; rfl
      | some ap => rw [search_of_some hread (h.security ap hread)]; rfl
    rw [hsearch] at hrun hrequest
    refine ⟨pSsid, mac, request, nRet, hssid, hmac, hrun, hrequest.trans ?_⟩
    by_cases hshort : pSsid.length < 32
    · rw [meant_eq_firstRead hshort h.security]
    · exact h.long (Nat.le_of_not_lt hshort) mac hmac

/-- An entry with an SSID of two letters. -/
def apNamed (first second : UInt8) (mac : Mac) (securityType : UInt8) : ApInfo where
  name := .ofFn fun i => ([first, second] : Bytes).getD i 0
  nameLen := 2
  mac := mac
  channel := 6
  securityType := securityType
  securitySubType := 0
  rssi := 40

def apAb (securityType : UInt8) : ApInfo := apNamed 97 98 #v[1, 2, 3, 4, 5, 6] securityType

/-- A second access point of another name stands in front, and one of the same name behind. -/
def threeAps : List ApInfo :=
  [apNamed 99 100 #v[6, 5, 4, 3, 2, 1] 3, apAb 1, apNamed 97 98 #v[7, 7, 7, 7, 7, 7] 0]

/-- With a key the second entry is selected; without one it would be the third, and the second
is changed. -/
theorem atSetWifiConfig_iff_three :
    Selects (fun _ => 0) threeAps [] (parseBuff2Param (ofString "0,ab,secret12") 0) ∧
      ¬ Selects (fun _ => 0) threeAps [] (parseBuff2Param (ofString "0,ab") 0) := by
  constructor
  · refine (atSetWifiConfig_iff (fun _ => 0) threeAps []
      (parseBuff2Param (ofString "0,ab,secret12") 0) (by decide)).mpr ⟨ofString "ab", by decide, ?_⟩
    exact ⟨by decide, by decide, fun hlong => absurd hlong (by decide)⟩
  · intro h
    obtain ⟨pSsid, hssid, hunharmed⟩ := (atSetWifiConfig_iff (fun _ => 0) threeAps []
      (parseBuff2Param (ofString "0,ab") 0) (by decide)).mp h
    have hab : (parseBuff2Param (ofString "0,ab") 0).deref 1 = some (ofString "ab") := by decide
    cases hab.symm.trans hssid
    exact absurd (hunharmed.security (apAb 1) (by decide)) (by decide)

/-- Without a key the secured entry is passed over, but is open from then on. -/
theorem securedEntry_opened : ¬ ∀ setWifiConfig apList behind p, 2 ≤ p.argc →
    Selects setWifiConfig apList behind p := by
  intro h
  obtain ⟨_, _, _, _, _, _, hrun, _⟩ :=
    h (fun _ => 0) [apAb 3] [] (parseBuff2Param (ofString "0,ab") 0) (by decide)
  have hlist : (atSetWifiConfig (fun _ => 0) [apAb 3] [] (parseBuff2Param (ofString "0,ab") 0)).map
      (fun result => result.2.1) = some [apAb 0] := by decide
  rw [hrun, Option.map_some] at hlist
  have heq : [apAb 3] = [apAb 0] := Option.some.inj hlist
  exact absurd heq (by decide)

end Sv6x66.Atcmd.ApSelection
