import Sv6x66.Atcmd.CommandTable

/-! Which AT commands read through a NULL argument. `argv[i]` is NULL from `argc`
on, so a handler has a result exactly if it reads only arguments that are there. -/
namespace Sv6x66.Atcmd.ArgumentSafety
open Sv6x66.Lib.CString CommandLine Handlers CommandTable

variable {b : Board} {p : Param}

/-! ### Reading arguments -/

theorem exists_deref {i : Nat} (h : i < p.argc) : ∃ text, p.deref i = some text :=
  Option.isSome_iff_exists.mp ((p.deref_isSome i).mpr h)

theorem deref_eq_none {i : Nat} (h : p.argc ≤ i) : p.deref i = none := by
  rw [← Option.not_isSome_iff_eq_none, p.deref_isSome]
  omega

theorem bind_isSome {α β : Type} {first : Option α} {rest : α → Option β}
    (hfirst : first.isSome) (hrest : ∀ a, (rest a).isSome) : (first >>= rest).isSome := by
  obtain ⟨a, rfl⟩ := Option.isSome_iff_exists.mp hfirst
  exact hrest a

/-- An argument that is there can be read, whatever it is. -/
theorem read_isSome {β : Type} {i : Nat} {rest : Bytes → Option β} (h : i < p.argc)
    (hrest : ∀ text, (rest text).isSome) : (p.deref i >>= rest).isSome :=
  bind_isSome ((p.deref_isSome i).mpr h) hrest

theorem mapM_isSome_iff {α β : Type} (f : α → Option β) (l : List α) :
    (l.mapM f).isSome ↔ ∀ a ∈ l, (f a).isSome := by
  induction l with
  | nil => simp
  | cons a l ih =>
    rw [List.mapM_cons]
    cases hfirst : f a with
    | none => simp [hfirst]
    | some value =>
      cases hrest : l.mapM f with
      | none => simp_all
      | some values => simp_all

theorem texts_isSome_iff (count : Nat) : (texts p count).isSome ↔ count ≤ p.argc := by
  unfold texts
  rw [mapM_isSome_iff]
  simp only [List.mem_range, Param.deref_isSome]
  constructor
  · intro h
    by_contra hlt
    exact absurd (h p.argc (by omega)) (lt_irrefl _)
  · intro h i hi
    omega

theorem exists_texts {n : Nat} (h : n ≤ p.argc) : ∃ values, texts p n = some values :=
  Option.isSome_iff_exists.mp ((texts_isSome_iff n).mpr h)

/-! ### Families -/

section Families

variable {code : Code}

theorem noArgument_isSome {result : Board → Int} (hcode : code = noArgument result) :
    (code b p).isSome := by
  rw [hcode]
  rfl

theorem oneText_isSome {result : Board → Bytes → Int} (hcode : code = oneText result) :
    (code b p).isSome := by
  rw [hcode]
  unfold oneText
  split
  · rfl
  · rw [Option.isSome_map, p.deref_isSome]
    omega

theorem table_isSome_iff [AtoiBeyond] {count : Nat} {write : Board → List Int → Int}
    (hcode : code = table count write) :
    (code b p).isSome ↔ p.argc = 0 ∨ count ≤ p.argc ∨ p.deref 0 = some questionMark := by
  rw [hcode]
  unfold table
  by_cases hargc : p.argc < 1
  · rw [if_pos hargc]
    simp only [Option.isSome_some, true_iff]
    omega
  · rw [if_neg hargc]
    obtain ⟨first, hfirst⟩ := exists_deref (p := p) (i := 0) (by omega)
    by_cases hquery : first = questionMark
    · simp [hfirst, hquery]
    · simp only [hfirst, Option.bind_eq_bind, Option.bind_some, if_neg hquery]
      by_cases henough : count ≤ p.argc
      · obtain ⟨values, hvalues⟩ := exists_texts henough
        simp [hvalues, henough]
      · have hnone : texts p count = none := by
          rw [← Option.not_isSome_iff_eq_none, texts_isSome_iff]
          exact henough
        simp only [hnone, Option.bind_none, Option.isSome_none, Option.some.injEq, hquery, henough]
        simp only [or_false, Bool.false_eq_true, false_iff]
        omega

theorem table5G_isSome_iff {count : Nat} {value : Bytes → Int} {write : Board → List Int → Int}
    (hcode : code = table5G count value write) : (code b p).isSome ↔ 0 < p.argc := by
  rw [hcode]
  unfold table5G
  by_cases hargc : 0 < p.argc
  · obtain ⟨first, hfirst⟩ := exists_deref hargc
    simp only [hfirst, Option.bind_eq_bind, Option.bind_some, hargc, iff_true]
    split
    · rfl
    · split
      · rfl
      · obtain ⟨values, hvalues⟩ := exists_texts (p := p) (n := count) (by omega)
        rw [hvalues]
        rfl
  · have hnone := deref_eq_none (p := p) (i := 0) (by omega)
    simp [hnone, hargc]

theorem station_isSome_iff {result : Board → UInt8 → Int} (hcode : code = station result) :
    (code b p).isSome ↔ 0 < p.argc := by
  rw [hcode]
  unfold station
  by_cases hargc : 0 < p.argc
  · obtain ⟨first, hfirst⟩ := exists_deref hargc
    simp only [hfirst, Option.bind_eq_bind, Option.bind_some, hargc, iff_true]
    split <;> rfl
  · have hnone := deref_eq_none (p := p) (i := 0) (by omega)
    simp [hnone, hargc]

theorem anyOutside_isSome [AtoiBeyond] {limits : List (Nat × (Int → Bool))}
    (h : ∀ limit ∈ limits, limit.1 < p.argc) : (anyOutside p limits).isSome := by
  induction limits with
  | nil => rfl
  | cons limit rest ih =>
    obtain ⟨i, outside⟩ := limit
    have hrest := ih fun limit hlimit => h limit (List.mem_cons_of_mem _ hlimit)
    unfold anyOutside
    apply read_isSome (h (i, outside) (List.mem_cons_self ..))
    intro text
    split
    · rfl
    · exact hrest

/-- The limits are on the arguments that `argc` is checked for. -/
theorem limited_isSome [AtoiBeyond] {needed : Nat} {limits : List (Nat × (Int → Bool))}
    (hcode : code = limited needed limits) (h : ∀ limit ∈ limits, limit.1 < needed) :
    (code b p).isSome := by
  rw [hcode]
  unfold limited
  split
  · rfl
  · rename_i hargc
    apply bind_isSome
      (anyOutside_isSome fun limit hlimit => (h limit hlimit).trans_le (not_lt.mp hargc))
    intro outside
    split
    · rfl
    · apply bind_isSome ((texts_isSome_iff needed).mpr (not_lt.mp hargc))
      intro values
      rfl

end Families

/-! ### Single handlers -/

theorem atReboot_isSome : (atReboot b p).isSome := by
  unfold atReboot
  split
  · rw [Option.isSome_map, p.deref_isSome]
    omega
  · rfl

theorem atConnectActive_isSome : (atConnectActive b p).isSome := by
  unfold atConnectActive
  split
  · rfl
  · apply read_isSome (by omega)
    intro ssid
    rfl

theorem atSetWifiConfig_isSome : (atSetWifiConfig b p).isSome := by
  dsimp only [atSetWifiConfig]
  split
  · rfl
  · apply read_isSome (by omega)
    intro ssid
    split <;> rfl

theorem atSetWifiConfig2_isSome : (atSetWifiConfig2 b p).isSome := by
  dsimp only [atSetWifiConfig2]
  split
  · rfl
  · apply read_isSome (by omega)
    intro ssid
    apply read_isSome (by omega)
    intro id
    split
    · rfl
    · split <;> rfl

theorem addresses_isSome {i : Nat} (h : i + 2 < p.argc) : (addresses p i).isSome := by
  unfold addresses
  apply read_isSome (by omega)
  intro ip
  split
  · rfl
  · apply read_isSome (by omega)
    intro mask
    split
    · rfl
    · apply read_isSome h
      intro gateway
      rfl

theorem atSetIfConfigure_isSome : (atSetIfConfigure b p).isSome := by
  dsimp only [atSetIfConfigure]
  split
  · rfl
  · apply read_isSome (by omega)
    intro dhcpen
    split
    · rfl
    · rename_i hargc
      split
      · rename_i hzero
        have henough : ¬ p.argc < 4 := fun hlt => hargc ⟨hzero, hlt⟩
        apply bind_isSome (addresses_isSome (by omega))
        intro found
        split <;> rfl
      · rfl

theorem atSetIfConfigure2_isSome : (atSetIfConfigure2 b p).isSome := by
  dsimp only [atSetIfConfigure2]
  split
  · rfl
  · apply read_isSome (by omega)
    intro id
    apply read_isSome (by omega)
    intro dhcpen
    split
    · rfl
    · rename_i hargc
      split
      · rename_i hzero
        have henough : ¬ p.argc < 5 := fun hlt => hargc (Or.inl ⟨hzero, hlt⟩)
        apply bind_isSome (addresses_isSome (by omega))
        intro found
        split <;> rfl
      · rfl

theorem atOtaSetServer_isSome [AtoiBeyond] : (atOtaSetServer b p).isSome := by
  unfold atOtaSetServer
  split
  · rfl
  · split
    · rfl
    · apply read_isSome (by omega)
      intro port
      split
      · rfl
      · apply read_isSome (by omega)
        intro mode
        apply read_isSome (by omega)
        intro ip
        rfl

theorem atOtaSetParam_isSome : (atOtaSetParam b p).isSome := by
  unfold atOtaSetParam
  split <;> rfl

theorem atFixrate_isSome : (atFixrate b p).isSome := by
  unfold atFixrate
  split
  · rfl
  · rw [Option.isSome_map, texts_isSome_iff]
    omega

theorem atRcmask_isSome : (atRcmask b p).isSome := by
  unfold atRcmask
  split
  · rfl
  · rw [Option.isSome_map, p.deref_isSome]
    omega

theorem atMacHwmib_isSome : (atMacHwmib b p).isSome := by
  unfold atMacHwmib
  split
  · rfl
  · rw [Option.isSome_map, p.deref_isSome]
    omega

theorem writeBbscales_isSome [AtoiBeyond] {calls : List (Nat × Call)}
    (h : ∀ call ∈ calls, call.1 < p.argc) :
    (writeBbscales b p calls).isSome := by
  induction calls with
  | nil => rfl
  | cons call rest ih =>
    obtain ⟨i, call⟩ := call
    have hrest := ih fun call hcall => h call (List.mem_cons_of_mem _ hcall)
    unfold writeBbscales
    apply read_isSome (h (i, call) (List.mem_cons_self ..))
    intro text
    split
    · rfl
    · exact hrest

theorem atRf5GbbScale_isSome [AtoiBeyond] : (atRf5GbbScale b p).isSome := by
  unfold atRf5GbbScale
  split
  · rfl
  · apply writeBbscales_isSome
    simp only [List.mem_cons, List.not_mem_nil, or_false]
    rintro call (rfl | rfl | rfl | rfl) <;> dsimp only <;> omega

theorem atTcpConnect_isSome [AtoiBeyond] : (atTcpConnect b p).isSome := by
  dsimp only [atTcpConnect]
  split
  · rfl
  · apply read_isSome (by omega)
    intro port
    split
    · rfl
    · apply read_isSome (by omega)
      intro ip
      rfl

theorem atTcpSend_isSome [AtoiBeyond] : (atTcpSend b p).isSome := by
  dsimp only [atTcpSend]
  split
  · rfl
  · apply read_isSome (by omega)
    intro conn
    split
    · rfl
    · apply read_isSome (by omega)
      intro pdata
      rfl

theorem atUdpSend_isSome [AtoiBeyond] : (atUdpSend b p).isSome := by
  dsimp only [atUdpSend]
  split
  · rfl
  · apply read_isSome (by omega)
    intro port
    apply read_isSome (by omega)
    intro sock
    split
    · rfl
    · apply read_isSome (by omega)
      intro ip
      apply read_isSome (by omega)
      intro pdata
      rfl

/-- The options are read up to `argc`. -/
theorem pingOptParse_isSome [AtoiBeyond] (left i : Nat) (target : Bool) :
    (pingOptParse b p left i target).isSome := by
  induction left generalizing i target with
  | zero => rfl
  | succ left ih =>
    unfold pingOptParse
    split
    · rfl
    · apply read_isSome (by omega)
      intro text
      split
      · split
        · rfl
        · apply read_isSome (by omega)
          intro value
          split
          · rfl
          · exact ih _ _
      · split
        · rfl
        · exact ih _ _

theorem ping_isSome [AtoiBeyond] : (ping b p).isSome := by
  unfold ping
  split
  · rfl
  · obtain ⟨first, hfirst⟩ := exists_deref (p := p) (i := 0) (by omega)
    obtain ⟨parsed, hparsed⟩ := Option.isSome_iff_exists.mp
      (pingOptParse_isSome (b := b) (p := p) p.argc 0 false)
    simp only [hfirst, hparsed, Option.map_some, Option.bind_eq_bind]
    split
    · simp only [Option.bind_some]
      split_ifs <;> rfl
    · simp only [Option.pure_def, Option.bind_some]
      split_ifs <;> rfl

theorem atPing_isSome [AtoiBeyond] : (atPing b p).isSome := by
  unfold atPing
  apply bind_isSome ping_isSome
  intro code
  split <;> rfl

/-! ### Handlers that read too far -/

theorem atRadioRfStart_isSome_iff [AtoiBeyond] : (atRadioRfStart b p).isSome ↔ 2 ≤ p.argc := by
  unfold atRadioRfStart
  by_cases hargc : 2 ≤ p.argc
  · obtain ⟨first, hfirst⟩ := exists_deref (p := p) (i := 0) (by omega)
    obtain ⟨second, hsecond⟩ := exists_deref (p := p) (i := 1) (by omega)
    simp [hfirst, hsecond, hargc]
  · have hnone := deref_eq_none (p := p) (i := 1) (by omega)
    simp [hnone, hargc]

theorem atRadioChannel_isSome_iff [AtoiBeyond] : (atRadioChannel b p).isSome ↔ 2 ≤ p.argc := by
  unfold atRadioChannel
  by_cases hfirst : 0 < p.argc
  · obtain ⟨ch, hch⟩ := exists_deref hfirst
    simp only [hch, Option.bind_eq_bind, Option.bind_some]
    rw [if_neg (by omega)]
    by_cases hargc : 2 ≤ p.argc
    · obtain ⟨sign, hsign⟩ := exists_deref (p := p) (i := 1) (by omega)
      simp [hsign, hargc]
    · have hnone := deref_eq_none (p := p) (i := 1) (by omega)
      simp [hnone, hargc]
  · have hnone := deref_eq_none (p := p) (i := 0) (by omega)
    simp only [hnone, Option.bind_eq_bind, Option.bind_none, Option.isSome_none]
    simp only [Bool.false_eq_true, false_iff]
    omega

theorem atRadioRfRateGain_isSome_iff [AtoiBeyond] :
    (atRadioRfRateGain b p).isSome ↔ p.argc = 0 ∨ 2 ≤ p.argc := by
  unfold atRadioRfRateGain
  split
  · simp only [Option.isSome_some, true_iff]
    omega
  · rename_i hsome
    obtain ⟨name, hname⟩ := exists_deref (p := p) (i := 0) (by omega)
    by_cases hargc : 2 ≤ p.argc
    · obtain ⟨gain, hgain⟩ := exists_deref (p := p) (i := 1) (by omega)
      simp [hname, hgain, hargc]
    · have hnone := deref_eq_none (p := p) (i := 1) (by omega)
      simp only [hnone, Option.bind_eq_bind, Option.bind_none, Option.isSome_none]
      simp only [Bool.false_eq_true, false_iff]
      omega

theorem atRadioRfTempBoundary_isSome_iff :
    (atRadioRfTempBoundary b p).isSome ↔ p.argc = 0 ∨ 2 ≤ p.argc := by
  unfold atRadioRfTempBoundary
  split
  · simp only [Option.isSome_some, true_iff]
    omega
  · rw [Option.isSome_map, texts_isSome_iff]
    omega

/-- The lengths of the key differ from what its length argument says. -/
def KeyDiffers (p : Param) : Prop :=
  ∃ keylen ∈ p.deref 6, ∃ key ∈ p.deref 7, lengthDiffers keylen key

theorem atSetApconfig_isSome_iff :
    (atSetApconfig b p).isSome ↔ p.argc < 9 ∨ 11 ≤ p.argc ∨ KeyDiffers p := by
  unfold atSetApconfig
  split
  · rename_i hargc
    simp [hargc]
  · rename_i hargc
    obtain ⟨startIp, hstartIp⟩ := exists_deref (p := p) (i := 0) (by omega)
    obtain ⟨endIp, hendIp⟩ := exists_deref (p := p) (i := 1) (by omega)
    obtain ⟨gw, hgw⟩ := exists_deref (p := p) (i := 2) (by omega)
    obtain ⟨subnet, hsubnet⟩ := exists_deref (p := p) (i := 3) (by omega)
    obtain ⟨maxStaNum, hmaxStaNum⟩ := exists_deref (p := p) (i := 4) (by omega)
    obtain ⟨encrytMode, hencrytMode⟩ := exists_deref (p := p) (i := 5) (by omega)
    obtain ⟨keylen, hkeylen⟩ := exists_deref (p := p) (i := 6) (by omega)
    obtain ⟨key, hkey⟩ := exists_deref (p := p) (i := 7) (by omega)
    obtain ⟨channel, hchannel⟩ := exists_deref (p := p) (i := 8) (by omega)
    obtain ⟨arguments, harguments⟩ := exists_texts (p := p) (n := p.argc) le_rfl
    have hkeyDiffers : KeyDiffers p ↔ lengthDiffers keylen key := by
      simp [KeyDiffers, hkeylen, hkey]
    rw [hkeyDiffers]
    simp only [hstartIp, hendIp, hgw, hsubnet, hmaxStaNum, hencrytMode, hkeylen, hkey, hchannel,
      harguments, Option.bind_eq_bind, Option.bind_some]
    split
    · rename_i hdiffers
      simp [hdiffers]
    · rename_i hdiffers
      by_cases henough : 11 ≤ p.argc
      · obtain ⟨ssidLength, hssidLength⟩ := exists_deref (p := p) (i := 9) (by omega)
        obtain ⟨ssid, hssid⟩ := exists_deref (p := p) (i := 10) (by omega)
        simp only [hssidLength, hssid, Option.bind_some, henough, true_or, or_true, iff_true]
        split <;> rfl
      · have hnone := deref_eq_none (p := p) (i := 10) (by omega)
        simp only [hnone, Option.bind_none, Option.bind_fun_none, Option.isSome_none]
        simp only [Bool.false_eq_true, hdiffers, or_false, false_iff]
        omega

/-- The name of the method is one whose key is read. -/
def NamesJoylink (p : Param) : Prop :=
  ∃ text ∈ p.deref 0, text.take (text.length % 2 ^ 8) <+: ofString "joylink"

theorem atSmartConfig_isSome_iff :
    (atSmartConfig b p).isSome ↔ p.argc ≠ 1 ∨ ¬ NamesJoylink p := by
  unfold atSmartConfig
  split
  · simp only [Option.isSome_some, true_iff]
    omega
  · obtain ⟨text, htext⟩ := exists_deref (p := p) (i := 0) (by omega)
    have hnames : NamesJoylink p ↔ text.take (text.length % 2 ^ 8) <+: ofString "joylink" := by
      simp [NamesJoylink, htext]
    rw [hnames]
    simp only [htext, Option.bind_eq_bind, Option.bind_some]
    split
    · rename_i hbefore
      simp only [hbefore, not_true, or_false]
      by_cases hargc : 2 ≤ p.argc
      · obtain ⟨key, hkey⟩ := exists_deref (p := p) (i := 1) (by omega)
        simp only [hkey, Option.bind_some]
        simp only [Option.pure_def, Option.isSome_some, true_iff]
        omega
      · have hnone := deref_eq_none (p := p) (i := 1) (by omega)
        simp only [hnone, Option.bind_none, Option.isSome_none, Bool.false_eq_true, false_iff]
        omega
    · rename_i hbefore
      simp only [hbefore, not_false_eq_true, or_true, iff_true]
      rfl

theorem atSslTest_isSome_iff [AtoiBeyond] :
    (atSslTest b p).isSome ↔ b.call .getWifiStatus [] [] ≠ 1 ∨ 0 < p.argc := by
  unfold atSslTest
  split
  · rename_i hstatus
    simp [hstatus]
  · rename_i hstatus
    simp only [hstatus, false_or]
    by_cases hargc : 0 < p.argc
    · simp only [hargc, iff_true]
      apply read_isSome hargc
      intro testType
      split
      · split <;> rfl
      · split
        · split
          · rfl
          · apply read_isSome (by omega)
            intro port
            apply read_isSome (by omega)
            intro sec
            split
            · rfl
            · apply read_isSome (by omega)
              intro ip
              rfl
        · rfl
    · have hnone := deref_eq_none (p := p) (i := 0) (by omega)
      simp [hnone, hargc]

theorem doAtUserFlsh_isSome_iff (action writeOffset : Int) :
    (doAtUserFlsh b p action writeOffset).isSome ↔
      action ≠ 1 ∨ b.call .memAlloc [] [] = 0 ∨ 3 ≤ p.argc := by
  unfold doAtUserFlsh
  split
  · rename_i hfailed
    simp [hfailed.1]
  · rename_i hfailed
    split
    · rename_i haction
      have halloc : b.call .memAlloc [] [] ≠ 0 := fun hzero => hfailed ⟨hzero, Or.inl haction⟩
      simp only [Option.isSome_map, p.deref_isSome, haction, halloc, ne_eq, not_true, false_or]
      omega
    · rename_i haction
      simp [haction]

/-- The letter of the action is neither `w` nor `r`. -/
def OtherLetter (p : Param) : Prop :=
  ∃ text ∈ p.deref 0, text.headD 0 ≠ letterW ∧ text.headD 0 ≠ letterR

theorem atUserFlsh_isSome_iff [AtoiBeyond] :
    (atUserFlsh b p).isSome ↔ p.argc = 0 ∨ 3 ≤ p.argc ∨ ¬ OtherLetter p ∨
      b.call .uninitializedAction [] [] ≠ 1 ∨ b.call .memAlloc [] [] = 0 := by
  unfold atUserFlsh
  split
  · rename_i hargc
    simp [hargc]
  · rename_i hargc
    obtain ⟨text, htext⟩ := exists_deref (p := p) (i := 0) (by omega)
    have hother : OtherLetter p ↔ text.headD 0 ≠ letterW ∧ text.headD 0 ≠ letterR := by
      simp [OtherLetter, htext]
    rw [hother]
    simp only [htext, Option.bind_eq_bind, Option.bind_some, hargc, false_or]
    by_cases hw : text.headD 0 = letterW
    · simp only [hw, if_true, ne_eq, not_true, false_and, not_false_eq_true, true_or, or_true,
        iff_true]
      split
      · rfl
      · rename_i hthree
        obtain ⟨offset, hoffset⟩ := exists_deref (p := p) (i := 1) (by omega)
        obtain ⟨block, hblock⟩ := exists_deref (p := p) (i := 2) (by omega)
        simp only [hoffset, hblock, Option.bind_some]
        split
        · rfl
        · split
          · rfl
          · rw [doAtUserFlsh_isSome_iff]
            omega
    · simp only [if_neg hw]
      by_cases hr : text.headD 0 = letterR
      · simp only [hr, if_true, ne_eq, not_true, and_false, not_false_eq_true, true_or, or_true,
          iff_true]
        rw [doAtUserFlsh_isSome_iff]
        exact Or.inl (by decide)
      · rw [if_neg hr, doAtUserFlsh_isSome_iff]
        simp only [ne_eq, hw, hr, not_false_eq_true, and_self, not_true, false_or]
        omega

/-! ### All handlers -/

/-- The arguments there are enough for what the handler reads. -/
def Enough [AtoiBeyond] (b : Board) (p : Param) : Handler → Prop
  | .atConnect2 | .atDisconnect2 | .atGetNetStatus2 => 0 < p.argc
  | .atRf5GTableRt | .atRf5GTableHt | .atRf5GTableLt => 0 < p.argc
  | .atRf5GTableBias1 | .atRf5GTableBias2 | .atRf5GBandThreshold => 0 < p.argc
  | .atSslTest => b.call .getWifiStatus [] [] ≠ 1 ∨ 0 < p.argc
  | .atRadioRfStart | .atRadioChannel => 2 ≤ p.argc
  | .atRadioRfRateGain | .atRadioRfTempBoundary => p.argc = 0 ∨ 2 ≤ p.argc
  | .atRfTableGRateGain | .atRfTable20NRateGain | .atRfTable40NRateGain =>
    p.argc = 0 ∨ 4 ≤ p.argc ∨ p.deref 0 = some questionMark
  | .atRfTableRt | .atRfTableHt | .atRfTableLt =>
    p.argc = 0 ∨ 18 ≤ p.argc ∨ p.deref 0 = some questionMark
  | .atSetApconfig => p.argc < 9 ∨ 11 ≤ p.argc ∨ KeyDiffers p
  | .atSmartConfig => p.argc ≠ 1 ∨ ¬ NamesJoylink p
  | .atUserFlsh => p.argc = 0 ∨ 3 ≤ p.argc ∨ ¬ OtherLetter p ∨
      b.call .uninitializedAction [] [] ≠ 1 ∨ b.call .memAlloc [] [] = 0
  | _ => True

theorem code_isSome_iff [AtoiBeyond] (h : Handler) : (h.code b p).isSome ↔ Enough b p h := by
  cases h with
  | atGetVersion | atGetManufactureInfo | atNetScan | atGetConfigure | atConnect | atDisconnect
  | atGetNetStatus | atShowConnectAp | atShowAllAp | atApExit | atAp | atGetApmode | atHkap
  | atCfgParser | atCfgTester | atCfgWifiTester | atShowRfCommand | atRadioRfReadTempcs
  | atRadioRfStop | atRadioRfReset | atRadioRfDump | atRfManuDpd | atRadioRfFreqoffsetReadxo
  | atRadioRfFreqoffsetReadxi | atRadioReadMac1 | atRadioReadMac2 | atEfuseEnableWrite
  | atEfuseReadMac | atEfuseDump | atOtaStart | atMacHwQueue | atCmdList =>
    rw [Handler.code]
    exact iff_of_true (noArgument_isSome rfl) trivial
  | atDutstart | atTcpListen | atRadioWriteMac1 | atRadioWriteMac2 | atEfuseWriteMac
  | atRf5GBias1 | atRf5GBias2 | atTcpDisconnect | atTcpUnlisten | atUdpCreate | atUdpClose
  | atRadioRfRate | atRadioRfBandGain | atRadioRfGain | atRadioRfCount | atRadioEnableTcsr
  | atRfCaliDpd | atRadioRfFreqoffset | atRadioRf2Gpa1 | atRadioRf2Gpa2 | atRadioRf2Gpa3
  | atRadioRf2GpaBias | atRadioRf2GpaCell | atRadioRf2GpaCap | atRadioRfLdo | atRadioRfDcdc
  | atRadioRfDcdcv | atRadioRfDldov | atRadioRfXoldo | atRadioRfRxPadCh13 | atRfSingleTone
  | atSetAutoConnect | atCmdSetCountryCode =>
    rw [Handler.code]
    exact iff_of_true (oneText_isSome rfl) trivial
  | atConnect2 | atDisconnect2 | atGetNetStatus2 =>
    rw [Handler.code]
    exact station_isSome_iff rfl
  | atRf5GTableRt | atRf5GTableHt | atRf5GTableLt | atRf5GTableBias1 | atRf5GTableBias2
  | atRf5GBandThreshold =>
    rw [Handler.code]
    exact table5G_isSome_iff rfl
  | atSetGpioTriState | atSetGpioLogic | atSetGpioPull | atReadGpio | atSetGpioInt | atSetPwm
  | atSetPwmDisable | atSetPwmEnable | atSetPwmReconfig =>
    rw [Handler.code]
    exact iff_of_true (limited_isSome rfl (by decide)) trivial
  | atRfTableRt | atRfTableHt | atRfTableLt | atRfTableGRateGain | atRfTable20NRateGain
  | atRfTable40NRateGain =>
    rw [Handler.code]
    exact table_isSome_iff rfl
  | atRfTableGain | atRfTableBRateGain =>
    rw [Handler.code]
    exact iff_of_true ((table_isSome_iff rfl).mpr (by omega)) trivial
  | atReboot => exact iff_of_true (atReboot_isSome (b := b)) trivial
  | atSetWifiConfig => exact iff_of_true atSetWifiConfig_isSome trivial
  | atSetWifiConfig2 => exact iff_of_true atSetWifiConfig2_isSome trivial
  | atSetIfConfigure => exact iff_of_true (atSetIfConfigure_isSome (b := b)) trivial
  | atSetIfConfigure2 => exact iff_of_true atSetIfConfigure2_isSome trivial
  | atConnectActive => exact iff_of_true atConnectActive_isSome trivial
  | atPing => exact iff_of_true atPing_isSome trivial
  | atSetApconfig => exact atSetApconfig_isSome_iff
  | atTcpConnect => exact iff_of_true atTcpConnect_isSome trivial
  | atTcpSend => exact iff_of_true atTcpSend_isSome trivial
  | atUdpSend => exact iff_of_true atUdpSend_isSome trivial
  | atUserFlsh => exact atUserFlsh_isSome_iff
  | atRadioRfStart => exact atRadioRfStart_isSome_iff
  | atRadioChannel => exact atRadioChannel_isSome_iff
  | atRadioRfRateGain => exact atRadioRfRateGain_isSome_iff
  | atRadioRfTempBoundary => exact atRadioRfTempBoundary_isSome_iff (b := b)
  | atRf5GbbScale => exact iff_of_true atRf5GbbScale_isSome trivial
  | atSslTest => exact atSslTest_isSome_iff
  | atSmartConfig => exact atSmartConfig_isSome_iff (b := b)
  | atOtaSetServer => exact iff_of_true atOtaSetServer_isSome trivial
  | atOtaSetParam => exact iff_of_true (atOtaSetParam_isSome (b := b)) trivial
  | atFixrate => exact iff_of_true (atFixrate_isSome (b := b)) trivial
  | atRcmask => exact iff_of_true (atRcmask_isSome (b := b)) trivial
  | atMacHwmib => exact iff_of_true (atMacHwmib_isSome (b := b)) trivial

/-- `pfHandle`; the library is not looked into. -/
def call [AtoiBeyond] (b : Board) (library : LibraryHandler → Param → Int) :
    PfHandle → Param → Option Int
  | .source h, p => h.code b p
  | .library h, p => some (library h p)

/-- A line leads to no read through a NULL argument exactly if the arguments in it
are enough for its handler. -/
theorem atParser_safe_iff [AtoiBeyond] (b : Board) (library : LibraryHandler → Param → Int)
    (stack line : Bytes) :
    (atParser atcmdicommInfoTbl (call b library) stack line).isSome ↔
      ∀ h p, selected atcmdicommInfoTbl stack line = some (.source h, p) → Enough b p h := by
  rw [atParser_isSome_iff]
  constructor
  · intro hsafe h p hselected
    exact (code_isSome_iff h).mp (hsafe (.source h, p) hselected)
  · rintro henough ⟨handler, p⟩ hselected
    cases handler with
    | source h => exact (code_isSome_iff h).mpr (henough h p hselected)
    | library h => rfl

local instance : AtoiBeyond := saturating

def someBoard : Board := ⟨fun _ _ _ => 0⟩

/-- The station is read from the first argument before `argc` is checked. -/
theorem connect2_without_station :
    selected atcmdicommInfoTbl [] (ofString "AT+WIFICONNECT2") = some (.source .atConnect2, .zero) ∧
      Param.zero.argc = 0 ∧
      ¬ (atParser atcmdicommInfoTbl (call someBoard fun _ _ => 0) []
        (ofString "AT+WIFICONNECT2")).isSome := by
  decide

end Sv6x66.Atcmd.ArgumentSafety
