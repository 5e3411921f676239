import Mathlib.Algebra.GroupWithZero.Nat
import NodeMcu.Lib.Filling
import NodeMcu.Lib.Run

namespace NodeMcu.CompMsg.WifiScan

open NodeMcu.Lib.Run NodeMcu.Lib.Filling

def tab : UInt8 := 0x09
def ssidLgth : Nat := 32
def bssidLgth : Nat := 6
def bssidStrLgth : Nat := 18

/-- What the SDK reports of an access point. -/
structure BssInfo where
  bssid : List UInt8
  bssid_length : bssid.length = bssidLgth
  ssid : List UInt8
  ssid_length : ssid.length = ssidLgth
  ssidLen : UInt8
  channel : UInt8
  rssi : Int8
  authmode : UInt8
  isHidden : UInt8
  freqOffset : Int16
  freqcalVal : Int16

/-- `bssScanInfo_t`. -/
structure BssScanInfo where
  bssid : List UInt8
  bssidStr : List UInt8
  ssid : List UInt8
  ssidLen : UInt8
  channel : UInt8
  rssi : Int8
  authmode : UInt8
  isHidden : UInt8
  freqOffset : Int16
  freqcalVal : Int16
  deriving DecidableEq

/-- `bssScanSizes_t`. -/
structure BssScanSizes where
  bssidSize : UInt16
  bssidStrSize : UInt16
  ssidSize : UInt16
  channelSize : UInt16
  rssiSize : UInt16
  authmodeSize : UInt16
  isHiddenSize : UInt16
  freqOffsetSize : UInt16
  freqcalValSize : UInt16
  deriving DecidableEq

def zeroSizes : BssScanSizes := ⟨0, 0, 0, 0, 0, 0, 0, 0, 0⟩

/-- The static variables of the scan, and whether something was written outside the array or
outside a field of an entry. -/
structure ScanState where
  bssScanRunning : Bool
  infos : Option (List BssScanInfo)
  numScanInfos : UInt8
  maxScanInfos : UInt8
  scanInfoComplete : Bool
  bssScanSizes : BssScanSizes
  outside : Bool

def start : ScanState := ⟨false, none, 0, 0, false, zeroSizes, false⟩

def hexDigit (n : UInt8) : UInt8 := if n < 10 then 0x30 + n else 0x61 + (n - 10)

/-- Pairs of digits with colons between them. -/
def macStr (bssid : List UInt8) : List UInt8 :=
  List.intercalate [(0x3A : UInt8)]
    (bssid.map fun c : UInt8 => [hexDigit (c >>> 4), hexDigit (c &&& 0xF)])

/-- Bytes copied to the start of a field, if it takes them. -/
def memcpy (field bytes : List UInt8) : Option (List UInt8) :=
  if bytes.length ≤ field.length then some (bytes ++ field.drop bytes.length) else none

def zeroInfo : BssScanInfo where
  bssid := List.replicate bssidLgth 0
  bssidStr := List.replicate bssidStrLgth 0
  ssid := List.replicate ssidLgth 0
  ssidLen := 0
  channel := 0
  rssi := 0
  authmode := 0
  isHidden := 0
  freqOffset := 0
  freqcalVal := 0

/-- What the second loop of `bssScanDoneCb` writes to an entry, `none` where it leaves a field. -/
def fillInfo (bssLink : BssInfo) (scanInfo : BssScanInfo) : Option BssScanInfo :=
  let ssidField := List.replicate scanInfo.ssid.length tab
  let ssid :=
    if bssLink.ssidLen.toNat ≤ scanInfo.ssid.length then
      memcpy ssidField (bssLink.ssid.take bssLink.ssidLen.toNat)
    else memcpy ssidField (bssLink.ssid.take scanInfo.ssid.length)
  let bssid := memcpy scanInfo.bssid (bssLink.bssid.take scanInfo.bssid.length)
  let bssidStr := memcpy (List.replicate scanInfo.bssidStr.length tab) (macStr bssLink.bssid ++ [0])
  match ssid, bssid, bssidStr with
  | some ssid, some bssid, some bssidStr =>
    some
      { bssid := bssid
        bssidStr := bssidStr
        ssid := ssid
        ssidLen := bssLink.ssidLen
        channel := bssLink.channel
        rssi := bssLink.rssi
        authmode := bssLink.authmode
        isHidden := bssLink.isHidden
        freqOffset := bssLink.freqOffset
        freqcalVal := bssLink.freqcalVal }
  | _, _, _ => none

/-- What an access point adds to the sizes. -/
def addSizes (bssLink : BssInfo) (s : BssScanSizes) : BssScanSizes :=
  { s with
    ssidSize := s.ssidSize +
      (if bssLink.ssidLen.toNat ≤ ssidLgth then UInt16.ofNat (bssLink.ssidLen.toNat + 2)
      else UInt16.ofNat (ssidLgth + 2))
    bssidSize := s.bssidSize + UInt16.ofNat (bssidLgth + 2)
    channelSize := s.channelSize + 1
    rssiSize := s.rssiSize + 1
    authmodeSize := s.authmodeSize + 1
    isHiddenSize := s.isHiddenSize + 1
    freqOffsetSize := s.freqOffsetSize + 2
    freqcalValSize := s.freqcalValSize + 2 }

/-- One pass of the second loop. -/
def recordInfo (bssLink : BssInfo) (s : ScanState) : ScanState :=
  let idx := s.numScanInfos.toNat
  let next := { s with
    bssScanSizes := addSizes bssLink s.bssScanSizes
    numScanInfos := s.numScanInfos + 1 }
  match s.infos with
  | none => { next with outside := true }
  | some infos =>
    match infos[idx]? with
    | none => { next with outside := true }
    | some scanInfo =>
      match fillInfo bssLink scanInfo with
      | none => { next with outside := true }
      | some scanInfo => { next with infos := some (infos.set idx scanInfo) }

/-- A list of access points and whether there is memory for their entries. -/
structure Scan where
  arg : List BssInfo
  allocOk : Bool

/-- `bssScanDoneCb` for a scan that went well. An empty list is a null pointer. -/
def bssScanDoneCb (scan : Scan) (s : ScanState) : ScanState :=
  if scan.arg = [] then s
  else if s.bssScanRunning = false then s
  else
    let numEntries := UInt8.ofNat scan.arg.length
    let s := { s with bssScanRunning := false }
    let s := if s.infos.isSome then { s with infos := none, numScanInfos := 0 } else s
    let s := { s with maxScanInfos := numEntries }
    if scan.allocOk then
      let s := { s with
        infos := some (List.replicate numEntries.toNat zeroInfo)
        bssScanSizes := zeroSizes }
      { scan.arg.foldl (fun s bssLink => recordInfo bssLink s) s with scanInfoComplete := true }
    else s

/-- A scan that is started, and its end. -/
def step (s : ScanState) (scan : Scan) : ScanState :=
  bssScanDoneCb scan { s with bssScanRunning := true, scanInfoComplete := false }

/-- The bytes that a loop has copied, and whether it has read inside the arrays only. -/
structure Copied where
  bytes : Nat
  inside : Bool
  deriving DecidableEq

def infoAt (s : ScanState) (entryIdx : Int) : Option BssScanInfo :=
  if 0 ≤ entryIdx then s.infos.bind fun infos => infos[entryIdx.toNat]? else none

/-- The loop of `getWifiAPSsids`, with a bound for its passes. -/
def copyLoop (s : ScanState) : Nat → Int → Copied → Copied
  | 0, _, c => c
  | n + 1, entryIdx, c =>
    if entryIdx < s.numScanInfos.toNat then
      match infoAt s entryIdx with
      | none => { c with inside := false }
      | some bssScanInfo =>
        copyLoop s n (entryIdx + 1)
          ⟨c.bytes + bssScanInfo.ssidLen.toNat + 2,
            c.inside && decide (bssScanInfo.ssidLen.toNat ≤ bssScanInfo.ssid.length)⟩
    else c

/-- `entryIdx` is never set, so that it has any value at the start of the loop. -/
def getWifiAPSsids (entryIdx : Int) (s : ScanState) : Copied :=
  copyLoop s (s.numScanInfos.toNat - entryIdx).toNat entryIdx ⟨0, true⟩

/-- The entry for an access point: its SSID with tabs behind it, and the rest as it is. -/
def scanInfoOf (ap : BssInfo) : BssScanInfo where
  bssid := ap.bssid
  bssidStr := macStr ap.bssid ++ [0]
  ssid := ap.ssid.take ap.ssidLen.toNat ++ List.replicate (ssidLgth - ap.ssidLen.toNat) tab
  ssidLen := ap.ssidLen
  channel := ap.channel
  rssi := ap.rssi
  authmode := ap.authmode
  isHidden := ap.isHidden
  freqOffset := ap.freqOffset
  freqcalVal := ap.freqcalVal

/-- What the records are for when a scan is done. -/
structure Recorded (entryIdx : Int) (aps : List BssInfo) (s : ScanState) : Prop where
  number : s.numScanInfos.toNat = aps.length
  entries : ∀ (i : Nat) (ap : BssInfo), aps[i]? = some ap → infoAt s i = some (scanInfoOf ap)
  inside : s.outside = false
  copied : getWifiAPSsids entryIdx s = ⟨s.bssScanSizes.ssidSize.toNat, true⟩

/-- The scan finds access points, fewer than 256, whose SSIDs fit their arrays, there is memory for
them, and the loop of `getWifiAPSsids` happens to start at the first. A scan that finds nothing
comes before any that does. -/
def Harmless (entryIdx : Int) (s : ScanState) (scan : Scan) : Prop :=
  if scan.arg = [] then s.numScanInfos = 0 ∧ 0 ≤ entryIdx
  else scan.arg.length < 256 ∧ scan.allocOk = true ∧ entryIdx = 0 ∧
    ∀ ap ∈ scan.arg, ap.ssidLen.toNat ≤ ssidLgth

section filling

theorem macStr_length (bssid : List UInt8) (h : bssid.length = bssidLgth) :
    (macStr bssid).length = 17 := by
  match bssid, h with
  | [_, _, _, _, _, _], _ => simp [macStr, List.intercalate]

theorem memcpy_eq (field bytes : List UInt8) (h : bytes.length ≤ field.length) :
    memcpy field bytes = some (bytes ++ field.drop bytes.length) := if_pos h

/-- An entry takes the data of any access point. -/
theorem fillInfo_eq (ap : BssInfo) : fillInfo ap zeroInfo = some (scanInfoOf ap) := by
  have hssid := ap.ssid_length
  have hbssid := ap.bssid_length
  have hstr := macStr_length ap.bssid hbssid
  have hfield : (List.replicate zeroInfo.ssid.length tab) = List.replicate ssidLgth tab := rfl
  have hcopySsid : (if ap.ssidLen.toNat ≤ zeroInfo.ssid.length then
      memcpy (List.replicate ssidLgth tab) (ap.ssid.take ap.ssidLen.toNat)
      else memcpy (List.replicate ssidLgth tab) (ap.ssid.take zeroInfo.ssid.length)) =
      some (ap.ssid.take ap.ssidLen.toNat ++ List.replicate (ssidLgth - ap.ssidLen.toNat) tab) := by
    have hlen : zeroInfo.ssid.length = ssidLgth := rfl
    rw [hlen]
    split
    · next hle =>
      have htake : (ap.ssid.take ap.ssidLen.toNat).length = ap.ssidLen.toNat := by
        rw [List.length_take]
        omega
      rw [memcpy_eq _ _ (by rw [htake, List.length_replicate]; exact hle), htake,
        List.drop_replicate]
    · next hgt =>
      have htake : ap.ssid.take ap.ssidLen.toNat = ap.ssid.take ssidLgth := by
        rw [List.take_of_length_le (by omega), List.take_of_length_le (by omega)]
      have hsub : ssidLgth - ap.ssidLen.toNat = 0 := by omega
      have hlength : (ap.ssid.take ssidLgth).length = ssidLgth := by
        rw [List.length_take]
        omega
      rw [memcpy_eq _ _ (Nat.le_of_eq (by rw [hlength, List.length_replicate])), hlength,
        List.drop_replicate,
        htake, hsub, Nat.sub_self]
  have hcopyBssid : memcpy zeroInfo.bssid (ap.bssid.take zeroInfo.bssid.length) =
      some ap.bssid := by
    have htake : ap.bssid.take zeroInfo.bssid.length = ap.bssid :=
      List.take_of_length_le (Nat.le_of_eq hbssid)
    have hdrop : zeroInfo.bssid.drop ap.bssid.length = [] :=
      List.drop_eq_nil_of_le (Nat.le_of_eq hbssid.symm)
    rw [htake, memcpy_eq _ _ (Nat.le_of_eq hbssid), hdrop, List.append_nil]
  have hcopyStr : memcpy (List.replicate zeroInfo.bssidStr.length tab) (macStr ap.bssid ++ [0]) =
      some (macStr ap.bssid ++ [0]) := by
    have hlen : (macStr ap.bssid ++ [0]).length = bssidStrLgth := by
      rw [List.length_append, hstr]
      rfl
    have hsize : (List.replicate zeroInfo.bssidStr.length tab).length = bssidStrLgth := rfl
    rw [memcpy_eq _ _ (Nat.le_of_eq (hlen.trans hsize.symm)), hlen,
      List.drop_eq_nil_of_le (Nat.le_of_eq hsize), List.append_nil]
  rw [fillInfo, hfield, hcopySsid, hcopyBssid, hcopyStr]
  rfl

/-- The bytes of an access point that `ssidSize` counts. -/
def ssidBytes (ap : BssInfo) : Nat := min ap.ssidLen.toNat ssidLgth + 2

theorem addSizes_ssidSize (ap : BssInfo) (s : BssScanSizes) :
    (addSizes ap s).ssidSize.toNat = (s.ssidSize.toNat + ssidBytes ap) % 2 ^ 16 := by
  have hlt := ap.ssidLen.toNat_lt
  unfold addSizes ssidBytes ssidLgth
  dsimp only
  rw [UInt16.toNat_add]
  split
  · next hle =>
    rw [UInt16.toNat_ofNat', Nat.min_eq_left hle, Nat.add_mod_mod]
  · next hgt =>
    rw [UInt16.toNat_ofNat', Nat.min_eq_right (by omega), Nat.add_mod_mod]

/-- The state in the second loop when some access points were recorded. -/
structure FilledTo (n : Nat) (done : List BssInfo) (s : ScanState) : Prop where
  infos : s.infos = some (fill n zeroInfo (done.map scanInfoOf))
  number : s.numScanInfos.toNat = done.length
  inside : s.outside = false
  ssidSize : s.bssScanSizes.ssidSize.toNat = (done.map ssidBytes).sum % 2 ^ 16

theorem recordInfo_filled (n : Nat) (done : List BssInfo) (ap : BssInfo) (s : ScanState)
    (h : FilledTo n done s) (hroom : done.length < n) (hn : n < 256) :
    FilledTo n (done ++ [ap]) (recordInfo ap s) := by
  have hidx : (fill n zeroInfo (done.map scanInfoOf))[s.numScanInfos.toNat]? = some zeroInfo := by
    apply fill_getElem?_behind
    · apply Nat.le_of_eq
      rw [List.length_map, h.number]
    · rw [h.number]
      exact hroom
  have hset : (fill n zeroInfo (done.map scanInfoOf)).set s.numScanInfos.toNat (scanInfoOf ap) =
      fill n zeroInfo ((done ++ [ap]).map scanInfoOf) := by
    have hset' := fill_set n zeroInfo (scanInfoOf ap) (done.map scanInfoOf)
      (by rwa [List.length_map])
    rw [List.length_map] at hset'
    rw [h.number, hset', List.map_append]
    rfl
  have hnum : (s.numScanInfos + 1).toNat = done.length + 1 := by
    rw [UInt8.toNat_add, h.number, UInt8.toNat_one]
    omega
  rw [recordInfo]
  dsimp only
  rw [h.infos]
  dsimp only
  rw [hidx]
  dsimp only
  rw [fillInfo_eq]
  dsimp only
  refine ⟨?_, ?_, h.inside, ?_⟩
  · rw [hset]
  · rw [hnum, List.length_append, List.length_singleton]
  · rw [addSizes_ssidSize, h.ssidSize, List.map_append, List.sum_append]
    simp

theorem recordAll_filled (n : Nat) (done aps : List BssInfo) (s : ScanState)
    (h : FilledTo n done s) (hroom : done.length + aps.length ≤ n) (hn : n < 256) :
    FilledTo n (done ++ aps) (aps.foldl (fun s ap => recordInfo ap s) s) := by
  induction aps generalizing done s with
  | nil =>
    rw [List.append_nil]
    exact h
  | cons ap aps ih =>
    rw [List.length_cons] at hroom
    have hnext := recordInfo_filled n done ap s h (by omega) hn
    have hall := ih (done ++ [ap]) (recordInfo ap s) hnext (by
      rw [List.length_append, List.length_singleton]
      omega)
    rwa [List.append_assoc, List.singleton_append] at hall

end filling

section copying

/-- What the loop copies of entries that it can read. -/
def copyAll (c : Copied) (infos : List BssScanInfo) : Copied :=
  infos.foldl (fun c info => ⟨c.bytes + info.ssidLen.toNat + 2,
    c.inside && decide (info.ssidLen.toNat ≤ info.ssid.length)⟩) c

theorem copyLoop_eq (s : ScanState) (infos : List BssScanInfo) (n i : Nat) (c : Copied)
    (hinfos : ∀ j, i ≤ j → j < s.numScanInfos.toNat → infoAt s j = infos[j]?)
    (hlen : infos.length = s.numScanInfos.toNat) (hn : i + n = s.numScanInfos.toNat) :
    copyLoop s n i c = copyAll c (infos.drop i) := by
  induction n generalizing i c with
  | zero =>
    rw [List.drop_eq_nil_of_le (by omega)]
    rfl
  | succ n ih =>
    have hi : i < infos.length := by omega
    have hlt : (i : Int) < s.numScanInfos.toNat := by omega
    have hinfo : infoAt s i = some infos[i] := by
      rw [hinfos i (Nat.le_refl i) (by omega), List.getElem?_eq_getElem hi]
    rw [copyLoop, if_pos hlt, hinfo, List.drop_eq_getElem_cons hi]
    have hnext := ih (i + 1) ⟨c.bytes + infos[i].ssidLen.toNat + 2,
      c.inside && decide (infos[i].ssidLen.toNat ≤ infos[i].ssid.length)⟩
      (fun j hj => hinfos j (Nat.le_of_succ_le hj)) (by omega)
    rw [Int.natCast_add, Int.natCast_one] at hnext
    exact hnext

theorem copyAll_eq (c : Copied) (infos : List BssScanInfo) :
    copyAll c infos = ⟨c.bytes + (infos.map fun info => info.ssidLen.toNat + 2).sum,
      c.inside && infos.all fun info => decide (info.ssidLen.toNat ≤ info.ssid.length)⟩ := by
  induction infos generalizing c with
  | nil => simp [copyAll]
  | cons info infos ih =>
    change copyAll _ infos = _
    rw [ih, List.map_cons, List.sum_cons, List.all_cons]
    simp only [Copied.mk.injEq, Bool.and_assoc, and_true]
    omega

theorem scanInfoOf_ssid (ap : BssInfo) : (scanInfoOf ap).ssid.length = ssidLgth := by
  have hssid := ap.ssid_length
  simp only [scanInfoOf, List.length_append, List.length_take, List.length_replicate]
  omega

/-- The entries that were recorded, as the loop finds them. -/
theorem infoAt_filled (n : Nat) (aps : List BssInfo) (s : ScanState) (h : FilledTo n aps s)
    (j : Nat) (hj : j < aps.length) : infoAt s j = (aps.map scanInfoOf)[j]? := by
  have hnonneg : (0 : Int) ≤ j := Int.natCast_nonneg j
  rw [infoAt, if_pos hnonneg, h.infos, Option.bind_some, Int.toNat_natCast,
    fill_getElem? _ _ _ _ (by rwa [List.length_map])]

/-- Behind a loop that starts at an entry the rest was copied. -/
theorem getWifiAPSsids_filled (n : Nat) (aps : List BssInfo) (s : ScanState)
    (h : FilledTo n aps s) (i : Nat) (hi : i ≤ aps.length) :
    getWifiAPSsids i s = ⟨((aps.drop i).map fun ap => ap.ssidLen.toNat + 2).sum,
      (aps.drop i).all fun ap => decide (ap.ssidLen.toNat ≤ ssidLgth)⟩ := by
  have hnum := h.number
  have hfuel : ((s.numScanInfos.toNat : Int) - i).toNat = s.numScanInfos.toNat - i := by omega
  have hfits : (fun info : BssScanInfo => decide (info.ssidLen.toNat ≤ info.ssid.length)) ∘
      scanInfoOf = fun ap => decide (ap.ssidLen.toNat ≤ ssidLgth) := by
    funext ap
    rw [Function.comp_apply, scanInfoOf_ssid]
    rfl
  rw [getWifiAPSsids, hfuel, copyLoop_eq s (aps.map scanInfoOf) _ i ⟨0, true⟩
    (fun j _ hj => infoAt_filled n aps s h j (by omega)) (by rw [List.length_map, hnum])
    (by omega), copyAll_eq, ← List.map_drop, List.map_map, List.all_map, hfits, Nat.zero_add,
    Bool.true_and]
  rfl

end copying

section runs

/-- What the states of a run have in common as long as the records are right. -/
structure Inv (s : ScanState) : Prop where
  inside : s.outside = false
  empty : s.numScanInfos = 0 → s.bssScanSizes.ssidSize = 0
  noInfos : s.infos = none → s.numScanInfos = 0

theorem step_nil (s : ScanState) (scan : Scan) (h : scan.arg = []) :
    step s scan = { s with bssScanRunning := true, scanInfoComplete := false } := if_pos h

theorem step_noMemory (s : ScanState) (scan : Scan) (hs : Inv s) (h : scan.arg ≠ [])
    (halloc : scan.allocOk = false) : (step s scan).numScanInfos = 0 := by
  rw [step, bssScanDoneCb, if_neg h, if_neg (by simp)]
  dsimp only
  rw [halloc]
  cases hinfos : s.infos with
  | none => simpa using hs.noInfos hinfos
  | some infos => simp

theorem step_filled (s : ScanState) (scan : Scan) (hs : Inv s) (h : scan.arg ≠ [])
    (halloc : scan.allocOk = true) (hlen : scan.arg.length < 256) :
    FilledTo scan.arg.length scan.arg (step s scan) := by
  have hnum : (UInt8.ofNat scan.arg.length).toNat = scan.arg.length := by
    rw [UInt8.toNat_ofNat']
    exact Nat.mod_eq_of_lt hlen
  have hzero : ∀ s' : ScanState, s'.infos = some (List.replicate scan.arg.length zeroInfo) →
      s'.numScanInfos = 0 → s'.outside = false → s'.bssScanSizes = zeroSizes →
      FilledTo scan.arg.length [] s' := by
    intro s' hinfos hnum hinside hsizes
    refine ⟨?_, ?_, hinside, ?_⟩
    · rw [hinfos, fill, List.map_nil, List.length_nil, Nat.sub_zero, List.nil_append]
    · rw [hnum]
      rfl
    · rw [hsizes]
      rfl
  have hall : ∀ s', FilledTo scan.arg.length [] s' →
      FilledTo scan.arg.length scan.arg
        { scan.arg.foldl (fun s ap => recordInfo ap s) s' with scanInfoComplete := true } := by
    intro s' hs'
    have hfilled := recordAll_filled scan.arg.length [] scan.arg s' hs' (by simp) hlen
    exact ⟨hfilled.infos, hfilled.number, hfilled.inside, hfilled.ssidSize⟩
  rw [step, bssScanDoneCb, if_neg h, if_neg (by simp)]
  dsimp only
  rw [if_pos halloc, hnum]
  apply hall
  apply hzero
  · rfl
  · cases hinfos : s.infos with
    | none => simpa using hs.noInfos hinfos
    | some infos => simp
  · cases hinfos : s.infos with
    | none => simpa using hs.inside
    | some infos => simpa using hs.inside
  · rfl

theorem sum_ssidBytes_le (aps : List BssInfo) : (aps.map ssidBytes).sum ≤ 34 * aps.length := by
  induction aps with
  | nil => exact Nat.le_refl _
  | cons ap aps ih =>
    rw [List.map_cons, List.sum_cons, List.length_cons, ssidBytes, ssidLgth]
    omega

theorem sum_ssidBytes_lt (aps : List BssInfo) (h : aps.length < 256) :
    (aps.map ssidBytes).sum < 2 ^ 16 := by
  have hle := sum_ssidBytes_le aps
  omega

theorem ssidBytes_eq (ap : BssInfo) (h : ap.ssidLen.toNat ≤ ssidLgth) :
    ssidBytes ap = ap.ssidLen.toNat + 2 := by
  rw [ssidBytes, Nat.min_eq_left h]

/-- Where the copied bytes are as many as `ssidSize` says and all inside, the loop has started at
the first entry, and no SSID was cut. -/
theorem copied_iff (aps : List BssInfo) (s : ScanState) (entryIdx : Int) (hne : aps ≠ [])
    (hlen : aps.length < 256) (h : FilledTo aps.length aps s) :
    getWifiAPSsids entryIdx s = ⟨s.bssScanSizes.ssidSize.toNat, true⟩ ↔
      entryIdx = 0 ∧ ∀ ap ∈ aps, ap.ssidLen.toNat ≤ ssidLgth := by
  have hpos := List.length_pos_iff.mpr hne
  have hsum := Nat.mod_eq_of_lt (sum_ssidBytes_lt aps hlen)
  have hnum := h.number
  rw [h.ssidSize, hsum]
  constructor
  · intro hcopied
    have hnonneg : 0 ≤ entryIdx := by
      by_contra hneg
      obtain ⟨n, hn⟩ : ∃ n, ((s.numScanInfos.toNat : Int) - entryIdx).toNat = n + 1 :=
        ⟨((s.numScanInfos.toNat : Int) - entryIdx).toNat - 1, by omega⟩
      have hinfo : infoAt s entryIdx = none := if_neg hneg
      rw [getWifiAPSsids, hn, copyLoop, if_pos (by omega), hinfo] at hcopied
      exact Bool.false_ne_true (congrArg Copied.inside hcopied)
    obtain ⟨i, rfl⟩ := Int.eq_ofNat_of_zero_le hnonneg
    by_cases hi : i ≤ aps.length
    · rw [getWifiAPSsids_filled aps.length aps s h i hi, Copied.mk.injEq] at hcopied
      obtain ⟨hbytes, hall⟩ := hcopied
      rw [List.all_eq_true] at hall
      have hfits : (aps.drop i).map (fun ap => ap.ssidLen.toNat + 2) =
          (aps.drop i).map ssidBytes := by
        apply List.map_congr_left
        intro ap hap
        exact (ssidBytes_eq ap (of_decide_eq_true (hall ap hap))).symm
      have hsplit : (aps.map ssidBytes).sum =
          ((aps.take i).map ssidBytes).sum + ((aps.drop i).map ssidBytes).sum := by
        rw [← List.sum_append, ← List.map_append, List.take_append_drop]
      have hi0 : i = 0 := by
        cases hfirst : aps.take i with
        | nil =>
          obtain h0 | h0 := List.take_eq_nil_iff.mp hfirst
          · exact h0
          · exact absurd h0 hne
        | cons ap rest =>
          rw [hfits, hsplit, hfirst, List.map_cons, List.sum_cons, ssidBytes] at hbytes
          omega
      subst hi0
      exact ⟨rfl, fun ap hap => of_decide_eq_true (hall ap hap)⟩
    · have hfuel : ((s.numScanInfos.toNat : Int) - i).toNat = 0 := by omega
      rw [getWifiAPSsids, hfuel, copyLoop, Copied.mk.injEq] at hcopied
      obtain ⟨ap, rest, rfl⟩ := List.exists_cons_of_ne_nil hne
      rw [List.map_cons, List.sum_cons, ssidBytes] at hcopied
      omega
  · rintro ⟨rfl, hall⟩
    have hcopied := getWifiAPSsids_filled aps.length aps s h 0 (Nat.zero_le _)
    rw [List.drop_zero] at hcopied
    rw [← Int.natCast_zero, hcopied, Copied.mk.injEq]
    refine ⟨?_, ?_⟩
    · congr 1
      apply List.map_congr_left
      intro ap hap
      exact (ssidBytes_eq ap (hall ap hap)).symm
    · rw [List.all_eq_true]
      exact fun ap hap => decide_eq_true (hall ap hap)

theorem recorded_of_filled (aps : List BssInfo) (s : ScanState) (entryIdx : Int) (hne : aps ≠ [])
    (hlen : aps.length < 256) (h : FilledTo aps.length aps s) :
    Recorded entryIdx aps s ↔ entryIdx = 0 ∧ ∀ ap ∈ aps, ap.ssidLen.toNat ≤ ssidLgth := by
  constructor
  · intro hrec
    exact (copied_iff aps s entryIdx hne hlen h).mp hrec.copied
  · intro hok
    refine ⟨h.number, ?_, h.inside, (copied_iff aps s entryIdx hne hlen h).mpr hok⟩
    intro i ap hap
    rw [infoAt_filled _ aps s h i (List.getElem?_eq_some_iff.mp hap).1, List.getElem?_map, hap]
    rfl

theorem step_recorded_iff (entryIdx : Int) (s : ScanState) (scan : Scan) (hs : Inv s) :
    Recorded entryIdx scan.arg (step s scan) ↔ Harmless entryIdx s scan := by
  unfold Harmless
  by_cases h : scan.arg = []
  · rw [if_pos h, step_nil s scan h]
    have hloop : s.numScanInfos = 0 → (getWifiAPSsids entryIdx
        { s with bssScanRunning := true, scanInfoComplete := false } = ⟨0, true⟩ ↔
          0 ≤ entryIdx) := by
      intro hnum
      constructor
      · intro hcopied
        by_contra hneg
        rw [getWifiAPSsids] at hcopied
        dsimp only at hcopied
        obtain ⟨n, hn⟩ : ∃ n, ((s.numScanInfos.toNat : Int) - entryIdx).toNat = n + 1 :=
          ⟨((s.numScanInfos.toNat : Int) - entryIdx).toNat - 1, by omega⟩
        rw [hn, copyLoop, if_pos (by dsimp only; omega), infoAt, if_neg hneg] at hcopied
        exact Bool.false_ne_true (congrArg Copied.inside hcopied)
      · intro hnonneg
        have hfuel : ((s.numScanInfos.toNat : Int) - entryIdx).toNat = 0 := by
          rw [hnum, UInt8.toNat_zero]
          omega
        rw [getWifiAPSsids]
        dsimp only
        rw [hfuel, copyLoop]
    constructor
    · intro hrec
      have hnum : s.numScanInfos = 0 := by
        apply UInt8.toNat_inj.mp
        rw [h] at hrec
        exact hrec.number
      have hcopied := hrec.copied
      rw [hs.empty hnum] at hcopied
      exact ⟨hnum, (hloop hnum).mp hcopied⟩
    · rintro ⟨hnum, hnonneg⟩
      refine ⟨?_, ?_, hs.inside, ?_⟩
      · rw [h, hnum]
        rfl
      · intro i ap hap
        rw [h] at hap
        cases hap
      · rw [hs.empty hnum]
        exact (hloop hnum).mpr hnonneg
  · rw [if_neg h]
    have hpos := List.length_pos_iff.mpr h
    constructor
    · intro hrec
      have hnumber := hrec.number
      have hlt := (step s scan).numScanInfos.toNat_lt
      have halloc : scan.allocOk = true := by
        by_contra hno
        rw [step_noMemory s scan hs h (by simpa using hno), UInt8.toNat_zero] at hnumber
        omega
      have hlen : scan.arg.length < 256 := by omega
      exact ⟨hlen, halloc, (recorded_of_filled _ _ entryIdx h hlen
        (step_filled s scan hs h halloc hlen)).mp hrec⟩
    · rintro ⟨hlen, halloc, hok⟩
      exact (recorded_of_filled _ _ entryIdx h hlen
        (step_filled s scan hs h halloc hlen)).mpr hok

theorem step_inv (entryIdx : Int) (s : ScanState) (scan : Scan) (hs : Inv s)
    (h : Harmless entryIdx s scan) : Inv (step s scan) := by
  unfold Harmless at h
  split at h
  · next hnil =>
    rw [step_nil s scan hnil]
    exact ⟨hs.inside, hs.empty, hs.noInfos⟩
  · next hne =>
    obtain ⟨hlen, halloc, -⟩ := h
    have hfilled := step_filled s scan hs hne halloc hlen
    refine ⟨hfilled.inside, ?_, ?_⟩
    · intro hnum
      have hnumber := hfilled.number
      rw [hnum, UInt8.toNat_zero] at hnumber
      exact absurd (List.length_eq_zero_iff.mp hnumber.symm) hne
    · intro hnone
      rw [hfilled.infos] at hnone
      cases hnone

theorem start_inv : Inv start := ⟨rfl, fun _ => rfl, fun _ => rfl⟩

/-- An access point whose SSID is said to be longer than its array. -/
def longSsid : BssInfo where
  bssid := [1, 2, 3, 4, 5, 6]
  bssid_length := rfl
  ssid := List.replicate ssidLgth 0x61
  ssid_length := rfl
  ssidLen := 33
  channel := 1
  rssi := 0
  authmode := 0
  isHidden := 0
  freqOffset := 0
  freqcalVal := 0

end runs

end NodeMcu.CompMsg.WifiScan
