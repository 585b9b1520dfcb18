import Sv6x66.Colink.OtaHttp

/-! `getServerInfo` of `colink_upgrade.c` on the static record, whose fields are the ones of
the upgrade before. -/
namespace Sv6x66.Colink.OtaServer
open Sv6x66.Lib.CString
open Sv6x66.Colink.OtaHttp

/-- `OTAFileInfo`, the fields that are written here. -/
structure OtaFileInfo where
  path : Vector UInt8 128
  ip : Vector UInt8 24
  port : UInt16
deriving DecidableEq

/-- `memcpy` to the front of an array, which has no result if it does not fit. -/
def memcpy {n : Nat} (dest : Vector UInt8 n) (src : Bytes) : Option (Vector UInt8 n) :=
  if h : src.length ≤ n then
    some ⟨(src ++ dest.toList.drop src.length).toArray, by
      rw [List.size_toArray, List.length_append, List.length_drop, Vector.length_toList]
      omega⟩
  else none

def slashes : Bytes := [47, 47]
def colon : Bytes := [58]

/-- `behind` is the stack behind `port_str`, which a port of eight characters does not end.
`strstr(t1, ":")` comes before the test of `t1`. -/
def getServerInfo (behind : Bytes) (info : OtaFileInfo) (url : Bytes) :
    Option (Bool × OtaFileInfo) :=
  let text := cstr url
  match find slashes text with
  | none => none
  | some t1 =>
    match find colon (text.drop t1) with
    | none => some (false, info)
    | some t2 => do
      let ip ← memcpy info.ip ((text.drop (t1 + 2)).take (t2 - 2))
      let info := { info with ip }
      match find slash (text.drop (t1 + t2)) with
      | none => some (false, info)
      | some t3 => do
        let portStr ← memcpy (Vector.replicate 8 0) ((text.drop (t1 + t2 + 1)).take (t3 - 1))
        let port ← toInt32 (atoi (portStr.toList ++ behind))
        let path ← memcpy info.path (text.drop (t1 + t2 + t3) ++ [0])
        some (true, { info with port := UInt16.ofInt port, path })

/-! ### What it is for -/

/-- `http://host:port/path` with parts that fit their fields. -/
structure IsUrl (text host portText path : Bytes) : Prop where
  text_eq : text = ofString "http://" ++ (host ++ (colon ++ (portText ++ path)))
  host_ne : host ≠ []
  host_fits : host.length < 24
  host_plain : 58 ∉ host ∧ 47 ∉ host
  port_ne : portText ≠ []
  port_digits : ∀ byte ∈ portText, isDigit byte = true
  port_fits : portText.length < 8 ∧ digitsValue portText < 2 ^ 16
  path_starts : path.head? = some 47
  path_fits : path.length < 128

/-- The record holds the parts of a URL; any other text is refused. -/
structure Parses (behind : Bytes) (info : OtaFileInfo) (url : Bytes) : Prop where
  accepted : ∀ host portText path, IsUrl (cstr url) host portText path →
    ∃ info', getServerInfo behind info url = some (true, info') ∧ cstr info'.ip.toList = host ∧
      info'.port.toNat = digitsValue portText ∧ cstr info'.path.toList = path
  refused : (¬ ∃ host portText path, IsUrl (cstr url) host portText path) →
    ∃ info', getServerInfo behind info url = some (false, info')

/-! ### The copies -/

theorem memcpy_of_le {n : Nat} (dest : Vector UInt8 n) {src : Bytes} (h : src.length ≤ n) :
    ∃ dest', memcpy dest src = some dest' ∧
      dest'.toList = src ++ dest.toList.drop src.length := by
  refine ⟨_, dif_pos h, ?_⟩
  rfl

theorem memcpy_of_lt {n : Nat} (dest : Vector UInt8 n) {src : Bytes} (h : n < src.length) :
    memcpy dest src = none := dif_neg (Nat.not_le.mpr h)

/-- A copy without its end is the text copied if it happens to be followed by a NUL. -/
theorem cstr_copied_iff {host old : Bytes} (hzero : 0 ∉ host) (hfits : host.length < old.length) :
    cstr (host ++ old.drop host.length) = host ↔ old[host.length]? = some 0 := by
  obtain ⟨byte, rest, hdrop⟩ := List.exists_cons_of_ne_nil (l := old.drop host.length) (by
    rw [Ne, List.drop_eq_nil_iff]
    omega)
  have hhead : old[host.length]? = some byte := by
    rw [← List.head?_drop, hdrop, List.head?_cons]
  rw [cstr_append hzero, hdrop, hhead, List.append_right_eq_self]
  by_cases hbyte : byte = 0
  · simp [cstr, hbyte]
  · simp [cstr, hbyte]

/-! ### A URL -/

section Url

variable {text host portText path : Bytes}

theorem IsUrl.find_slashes (h : IsUrl text host portText path) : find slashes text = some 5 := by
  rw [h.text_eq]
  exact find_append (by decide) _

theorem IsUrl.find_colon (h : IsUrl text host portText path) :
    find colon (text.drop 5) = some (2 + host.length) := by
  have hdrop : text.drop 5 = (slashes ++ host) ++ 58 :: (portText ++ path) := by
    rw [h.text_eq]
    rfl
  have hplain : 58 ∉ slashes ++ host := by
    rw [List.mem_append, not_or]
    exact ⟨by decide, h.host_plain.1⟩
  rw [hdrop, colon, find_singleton_append hplain, List.length_append]
  rfl

theorem IsUrl.drop_host (h : IsUrl text host portText path) :
    (text.drop (5 + 2)).take (2 + host.length - 2) = host := by
  rw [h.text_eq, Nat.add_sub_cancel_left]
  exact List.take_left

theorem IsUrl.drop_colon (h : IsUrl text host portText path) :
    text.drop (5 + (2 + host.length)) = colon ++ (portText ++ path) := by
  rw [h.text_eq, ← List.append_assoc]
  apply List.drop_left'
  rw [List.length_append, show (ofString "http://").length = 7 by decide]
  omega

theorem IsUrl.find_slash (h : IsUrl text host portText path) :
    find slash (text.drop (5 + (2 + host.length))) = some (1 + portText.length) := by
  obtain ⟨rest, hpath⟩ : ∃ rest, path = 47 :: rest := List.head?_eq_some_iff.mp h.path_starts
  have hplain : 47 ∉ colon ++ portText := by
    rw [List.mem_append, not_or]
    refine ⟨by decide, fun hmem => ?_⟩
    exact absurd (h.port_digits 47 hmem) (by decide)
  have hslash : slash = [47] := by decide
  rw [h.drop_colon, ← List.append_assoc, hpath, hslash, find_singleton_append hplain,
    List.length_append]
  rfl

theorem IsUrl.drop_port (h : IsUrl text host portText path) :
    (text.drop (5 + (2 + host.length) + 1)).take (1 + portText.length - 1) = portText := by
  rw [← List.drop_drop, h.drop_colon, Nat.add_sub_cancel_left]
  exact List.take_left

theorem IsUrl.drop_path (h : IsUrl text host portText path) :
    text.drop (5 + (2 + host.length) + (1 + portText.length)) = path := by
  rw [← List.drop_drop, h.drop_colon, ← List.append_assoc]
  apply List.drop_left'
  rw [List.length_append]
  rfl

/-- `port_str` is long enough for a NUL behind the port. -/
theorem IsUrl.atoi_port (h : IsUrl text host portText path) {portStr : Vector UInt8 8}
    (hportStr : portStr.toList = portText ++ (Vector.replicate 8 (0 : UInt8)).toList.drop portText.length)
    (behind : Bytes) : atoi (portStr.toList ++ behind) = digitsValue portText := by
  have hfits := h.port_fits.1
  obtain ⟨room, hroom⟩ : ∃ room, 8 - portText.length = room + 1 := ⟨7 - portText.length, by omega⟩
  rw [hportStr, Vector.toList_replicate, List.drop_replicate, hroom, List.append_assoc]
  apply atoi_of_digits h.port_ne h.port_digits
  rw [List.replicate_succ, List.cons_append, List.head?_cons]
  rintro byte ⟨⟩
  decide

theorem IsUrl.zero_not_mem {url : Bytes} (h : IsUrl (cstr url) host portText path) :
    ¬ (0 ∈ host ∨ 0 ∈ path) := by
  have hzero := zero_not_mem_cstr url
  rw [h.text_eq] at hzero
  simp only [List.mem_append, not_or] at hzero
  rw [not_or]
  exact ⟨hzero.2.1, hzero.2.2.2.2⟩

theorem getServerInfo_of_url (behind : Bytes) (info : OtaFileInfo) {url : Bytes}
    (h : IsUrl (cstr url) host portText path) :
    ∃ info', getServerInfo behind info url = some (true, info') ∧
      info'.ip.toList = host ++ info.ip.toList.drop host.length ∧
      info'.port.toNat = digitsValue portText ∧ cstr info'.path.toList = path := by
  have hhost := h.host_fits
  have hport := h.port_fits
  have hpath := h.path_fits
  obtain ⟨ip, hip, hipList⟩ := memcpy_of_le info.ip hhost.le
  obtain ⟨portStr, hportStr, hportList⟩ := memcpy_of_le (Vector.replicate 8 (0 : UInt8)) hport.1.le
  obtain ⟨path', hpath', hpathList⟩ := memcpy_of_le info.path
    (show (path ++ [0]).length ≤ 128 by rw [List.length_append, List.length_singleton]; omega)
  have hint : toInt32 (digitsValue portText : Int) = some (digitsValue portText : Int) :=
    if_pos (by omega)
  refine ⟨⟨path', ip, UInt16.ofInt (digitsValue portText : Int)⟩, ?_, hipList, ?_, ?_⟩
  · unfold getServerInfo
    dsimp only
    rw [h.find_slashes]
    dsimp only
    rw [h.find_colon]
    dsimp only
    rw [h.drop_host, hip]
    dsimp only [Option.bind_eq_bind, Option.bind_some]
    rw [h.find_slash]
    dsimp only
    rw [h.drop_port, hportStr]
    dsimp only [Option.bind_eq_bind, Option.bind_some]
    rw [h.atoi_port hportList, hint, h.drop_path, hpath']
    rfl
  · dsimp only
    unfold UInt16.ofInt
    rw [UInt16.toNat_ofNat']
    omega
  · dsimp only
    have hzero : 0 ∉ path := fun hmem => h.zero_not_mem (.inr hmem)
    rw [hpathList, List.append_assoc, cstr_append hzero]
    simp [cstr]

end Url

/-! ### Any other text -/

/-- There are two slashes, and behind them no colon, or one within 24 characters and no
slash after it. -/
def Refused (text : Bytes) : Prop :=
  ∃ t1, find slashes text = some t1 ∧ (58 ∉ text.drop t1 ∨
    ∃ host rest, text.drop (t1 + 2) = host ++ 58 :: rest ∧ 58 ∉ host ∧ host.length ≤ 24 ∧
      47 ∉ rest)

/-- The first colon behind the slashes. -/
theorem find_colon_iff {text : Bytes} {t1 t2 : Nat} (hslashes : find slashes text = some t1) :
    find colon (text.drop t1) = some t2 ↔
      ∃ host rest, text.drop (t1 + 2) = host ++ 58 :: rest ∧ 58 ∉ host ∧ t2 = 2 + host.length := by
  obtain ⟨after, hafter⟩ := find_starts hslashes
  have hdrop : text.drop (t1 + 2) = after := by
    rw [← List.drop_drop, ← hafter]
    rfl
  have hslash : 58 ∉ slashes := by decide
  rw [hdrop, ← hafter]
  constructor
  · intro hfind
    have hmem : 58 ∈ after := by
      by_contra hmem
      have hnone : find colon (slashes ++ after) = none := by
        rw [colon, find_singleton_eq_none, List.mem_append, not_or]
        exact ⟨hslash, hmem⟩
      rw [hnone] at hfind
      cases hfind
    obtain ⟨host, rest, rfl, hhost⟩ := List.eq_append_cons_of_mem hmem
    refine ⟨host, rest, rfl, hhost, ?_⟩
    rw [← List.append_assoc, colon,
      find_singleton_append (by rw [List.mem_append, not_or]; exact ⟨hslash, hhost⟩)] at hfind
    rw [← Option.some.inj hfind, List.length_append]
    rfl
  · rintro ⟨host, rest, rfl, hhost, rfl⟩
    rw [← List.append_assoc, colon,
      find_singleton_append (by rw [List.mem_append, not_or]; exact ⟨hslash, hhost⟩),
      List.length_append]
    rfl

theorem refused_iff (behind : Bytes) (info : OtaFileInfo) (url : Bytes) :
    (∃ info', getServerInfo behind info url = some (false, info')) ↔ Refused (cstr url) := by
  unfold getServerInfo Refused
  dsimp only
  generalize cstr url = text
  cases hslashes : find slashes text with
  | none => simp
  | some t1 =>
    dsimp only
    cases hcolon : find colon (text.drop t1) with
    | none =>
      have hnone : 58 ∉ text.drop t1 := find_singleton_eq_none.mp hcolon
      exact iff_of_true ⟨info, rfl⟩ ⟨t1, rfl, .inl hnone⟩
    | some t2 =>
      dsimp only
      obtain ⟨host, rest, hdrop, hhost, rfl⟩ := (find_colon_iff hslashes).mp hcolon
      have htake : (text.drop (t1 + 2)).take (2 + host.length - 2) = host := by
        rw [hdrop, Nat.add_sub_cancel_left, List.take_left]
      have hrest : text.drop (t1 + (2 + host.length)) = 58 :: rest := by
        rw [← Nat.add_assoc, ← List.drop_drop, hdrop, List.drop_left]
      have hslash : find slash (58 :: rest) = none ↔ 47 ∉ rest := by
        rw [show slash = [47] by decide, find_singleton_eq_none]
        simp
      rw [htake, hrest]
      have hrefused : (∃ t1', some t1 = some t1' ∧ (58 ∉ text.drop t1' ∨
          ∃ host rest, text.drop (t1' + 2) = host ++ 58 :: rest ∧ 58 ∉ host ∧
            host.length ≤ 24 ∧ 47 ∉ rest)) ↔ host.length ≤ 24 ∧ 47 ∉ rest := by
        constructor
        · rintro ⟨t1', ht1, hnone | ⟨host', rest', hdrop', hhost', hfits, hplain⟩⟩
          · cases ht1
            rw [colon, find_singleton_eq_none.mpr hnone] at hcolon
            cases hcolon
          · cases ht1
            have hsame := (find_colon_iff hslashes).mpr ⟨host', rest', hdrop', hhost', rfl⟩
            have hlength : host'.length = host.length := by
              have := Option.some.inj (hsame.symm.trans hcolon)
              omega
            obtain ⟨rfl, htail⟩ := List.append_inj (hdrop'.symm.trans hdrop) hlength
            cases htail
            exact ⟨hfits, hplain⟩
        · rintro ⟨hfits, hplain⟩
          exact ⟨t1, rfl, .inr ⟨host, rest, hdrop, hhost, hfits, hplain⟩⟩
      rw [hrefused]
      by_cases hfits : host.length ≤ 24
      · obtain ⟨ip, hip, -⟩ := memcpy_of_le info.ip hfits
        rw [hip]
        dsimp only [Option.bind_eq_bind, Option.bind_some]
        cases hfind : find slash (58 :: rest) with
        | none => exact iff_of_true ⟨_, rfl⟩ ⟨hfits, hslash.mp hfind⟩
        | some t3 =>
          refine iff_of_false ?_ fun h => ?_
          · rintro ⟨info', hrun⟩
            simp [Option.bind_eq_some_iff] at hrun
          · rw [hslash.mpr h.2] at hfind
            cases hfind
      · rw [memcpy_of_lt info.ip (Nat.not_le.mp hfits)]
        refine iff_of_false ?_ fun h => hfits h.1
        rintro ⟨info', hrun⟩
        cases hrun

/-- The record the upgrade before has left ends the host where it should, and a text that is
no URL has the slashes but not the rest. -/
structure Apt (info : OtaFileInfo) (url : Bytes) : Prop where
  ended : ∀ host portText path, IsUrl (cstr url) host portText path →
    info.ip.toList[host.length]? = some 0
  refused : (¬ ∃ host portText path, IsUrl (cstr url) host portText path) → Refused (cstr url)

theorem getServerInfo_iff (behind : Bytes) (info : OtaFileInfo) (url : Bytes) :
    Parses behind info url ↔ Apt info url := by
  have hip : ∀ {host portText path : Bytes}, IsUrl (cstr url) host portText path →
      (cstr (host ++ info.ip.toList.drop host.length) = host ↔
        info.ip.toList[host.length]? = some 0) := by
    intro host portText path h
    apply cstr_copied_iff fun hmem => h.zero_not_mem (.inl hmem)
    rw [Vector.length_toList]
    exact h.host_fits
  constructor
  · intro hparses
    refine ⟨fun host portText path h => ?_, fun h => ?_⟩
    · obtain ⟨info', hrun, hhost, -⟩ := hparses.accepted host portText path h
      obtain ⟨info'', hrun', hlist, -⟩ := getServerInfo_of_url behind info h
      obtain rfl : info' = info'' := by simpa using hrun.symm.trans hrun'
      rw [hlist] at hhost
      exact (hip h).mp hhost
    · exact (refused_iff behind info url).mp (hparses.refused h)
  · intro hapt
    refine ⟨fun host portText path h => ?_, fun h => ?_⟩
    · obtain ⟨info', hrun, hlist, hport, hpath⟩ := getServerInfo_of_url behind info h
      refine ⟨info', hrun, ?_, hport, hpath⟩
      rw [hlist]
      exact (hip h).mpr (hapt.ended host portText path h)
    · exact (refused_iff behind info url).mpr (hapt.refused h)

/-- The record of an upgrade from a longer address. -/
def earlier : OtaFileInfo where
  path := .replicate 128 0
  ip := .ofFn fun i => (ofString "192.168.100.100").getD i 0
  port := 80

theorem shorter_host : ¬ ∀ behind info url, Parses behind info url := by
  intro h
  have hurl : IsUrl (cstr (ofString "http://10.0.0.1:80/a")) (ofString "10.0.0.1")
      (ofString "80") (ofString "/a") := by
    constructor <;> decide +kernel
  obtain ⟨info', hrun, hhost, -⟩ := (h [] earlier (ofString "http://10.0.0.1:80/a")).accepted _ _ _ hurl
  have hleft : (getServerInfo [] earlier (ofString "http://10.0.0.1:80/a")).map
      (fun result => cstr result.2.ip.toList) = some (ofString "10.0.0.1100.100") := by
    decide
  rw [hrun, Option.map_some, hhost] at hleft
  exact absurd (Option.some.inj hleft) (by decide)

end Sv6x66.Colink.OtaServer
