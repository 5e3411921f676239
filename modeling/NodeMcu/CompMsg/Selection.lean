import NodeMcu.CompMsg.HeaderChecks
import NodeMcu.CompMsg.Recovery

namespace NodeMcu.CompMsg.Selection

open NodeMcu.Lib.Memory NodeMcu.Lib.FirstIndex
open NodeMcu.CompMsg.Codes NodeMcu.CompMsg.View NodeMcu.CompMsg.Headers NodeMcu.CompMsg.Crc
open NodeMcu.CompMsg.Identify NodeMcu.CompMsg.Reception NodeMcu.CompMsg.Recovery
open NodeMcu.CompMsg.HeaderChecks

/-- The runs of the loop that looks for an entry with the received command key. -/
inductive Searches (infos : MsgHeaderInfos) : Receiver → Result × Receiver → Prop
  | missing (s t : Receiver) (e : CompMsgErr)
      (hnext : nextFittingEntry infos s.received.u16CmdKey
        { s with currPartIdx := (s.currPartIdx + 1) % 256 } = (.error e, t)) :
      Searches infos s (.error e, t)
  | found (s t : Receiver) (hdr : HeaderPart)
      (hnext : nextFittingEntry infos s.received.u16CmdKey
        { s with currPartIdx := (s.currPartIdx + 1) % 256 } = (.ok (), t))
      (hhdr : infos.headerParts[t.currPartIdx]? = some hdr)
      (hkey : t.received.u16CmdKey = hdr.hdrU16CmdKey) :
      Searches infos s (.ok (), t)
  | next (s t : Receiver) (hdr : HeaderPart) (r : Result × Receiver)
      (hnext : nextFittingEntry infos s.received.u16CmdKey
        { s with currPartIdx := (s.currPartIdx + 1) % 256 } = (.ok (), t))
      (hhdr : infos.headerParts[t.currPartIdx]? = some hdr)
      (hkey : t.received.u16CmdKey ≠ hdr.hdrU16CmdKey) (hrest : Searches infos t r) :
      Searches infos s r

/-- `hdr` is the current entry, and it fits the received header. -/
structure Chosen (infos : MsgHeaderInfos) (hdr : HeaderPart) (s : Receiver) : Prop where
  entry : infos.headerParts[s.currPartIdx]? = some hdr
  fits : fitsHeader s.received hdr = true

/-- The first entry at or after the current one that fits and has the received command key. -/
def Selected (env : Env) (s : Receiver) (j : Nat) : Prop :=
  FirstFrom (fitsKey s.received (receivedKey env s)) env.infos.headerParts s.currPartIdx j

/-- The entry with the received command key is selected, and the header is not found if and only
if there is none. -/
structure SelectsHeader (env : Env) (hdr : HeaderPart) (s : Receiver) : Prop where
  found : ∀ j, Selected env s j → (handleReceivedHeader env hdr s).2.currPartIdx = j
  notFound : (handleReceivedHeader env hdr s).1 = .error .headerNotFound ↔
    ∀ j, ¬ Selected env s j

/-- The field sequence has a command key, and the fields in front of it pass their checks. -/
structure KeyReached (env : Env) (hdr : HeaderPart) (s : Receiver) : Prop where
  mem : .u16CmdKey ∈ fieldsBehind hdr s
  passed : fieldChecks env hdr.u8TotalCrc hdr (messageView s) env.unsetResult
    (beforeKey (fieldsBehind hdr s)) = .ok ()

theorem nextFittingEntry_lt (infos : MsgHeaderInfos) (u16CmdKey : Nat) (s t : Receiver)
    (h : nextFittingEntry infos u16CmdKey s = (.ok (), t)) :
    s.currPartIdx ≤ t.currPartIdx ∧ t.currPartIdx < infos.headerParts.length := by
  revert h
  rw [nextFittingEntry]
  dsimp only
  split
  · intro h
    cases h
  · rename_i k hk
    intro h
    cases h
    have hfirst := firstFrom_of_findIdx _ _ _ _ hk
    exact ⟨hfirst.le, holdsAt_lt _ _ _ hfirst.holds⟩

theorem searches_round (infos : MsgHeaderInfos) (rounds : Nat) (s : Receiver)
    (hrest : ∀ t, nextFittingEntry infos s.received.u16CmdKey
      { s with currPartIdx := (s.currPartIdx + 1) % 256 } = (.ok (), t) →
        Searches infos t (cmdKeyLoop infos rounds t)) :
    Searches infos s (cmdKeyLoop infos (rounds + 1) s) := by
  rw [cmdKeyLoop]
  cases hnext : nextFittingEntry infos s.received.u16CmdKey
      { s with currPartIdx := (s.currPartIdx + 1) % 256 } with
  | mk result t =>
    cases result with
    | error e => exact .missing s t e hnext
    | ok u =>
      rw [checkErrOK_ok]
      cases hhdr : infos.headerParts[t.currPartIdx]? with
      | none =>
        have hlt := (nextFittingEntry_lt _ _ _ _ hnext).2
        rw [List.getElem?_eq_none_iff] at hhdr
        omega
      | some hdr =>
        dsimp only
        split
        · rename_i hkey
          exact .found s t hdr hnext hhdr hkey
        · rename_i hkey
          exact .next s t hdr _ hnext hhdr hkey (hrest t hnext)

theorem searches_within (infos : MsgHeaderInfos) (rounds : Nat) (s : Receiver)
    (hlen : infos.headerParts.length < 256) (hcur : s.currPartIdx < infos.headerParts.length)
    (hrounds : infos.headerParts.length ≤ s.currPartIdx + rounds) :
    Searches infos s (cmdKeyLoop infos rounds s) := by
  induction rounds generalizing s with
  | zero => omega
  | succ rounds ih =>
    apply searches_round
    intro t hnext
    obtain ⟨hle, hlt⟩ := nextFittingEntry_lt _ _ _ _ hnext
    have hmod : (s.currPartIdx + 1) % 256 = s.currPartIdx + 1 := Nat.mod_eq_of_lt (by omega)
    dsimp only at hle
    exact ih t hlt (by omega)

/-- The search ends on every table, from wherever it starts. -/
theorem cmdKeyLoop_searches (infos : MsgHeaderInfos) (s : Receiver)
    (hlen : infos.headerParts.length < 256) :
    Searches infos s (cmdKeyLoop infos (infos.headerParts.length + 1) s) := by
  apply searches_round
  intro t hnext
  exact searches_within infos _ t hlen (nextFittingEntry_lt _ _ _ _ hnext).2 (by omega)

theorem getBytes_ne (v : DataView) (offset : Int) (n : Nat) :
    getBytes v offset n ≠ .error .headerNotFound := by
  rw [getBytes]
  split
  · exact fun h => absurd h (by simp)
  · exact fun h => absurd h (by simp)

theorem checkValue_ne (found : Except CompMsgErr Nat) (crc : Nat)
    (h : found ≠ .error .headerNotFound) : checkValue found crc ≠ .error .headerNotFound := by
  cases found with
  | error e => exact fun he => h (congrArg Except.error (Except.error.inj he))
  | ok n =>
    rw [checkValue]
    split
    · exact fun he => absurd he (by simp)
    · exact fun he => absurd he (by simp)

theorem getCrc_ne (v : DataView) (f : Fields.CompMsgField) (startOffset lgth : Nat) :
    getCrc v f startOffset lgth ≠ .error .headerNotFound := by
  rw [getCrc]
  split
  · exact checkValue_ne _ _ (getBytes_ne _ _ _)
  · exact checkValue_ne _ _ (getBytes_ne _ _ _)

/-- A check fails with the error of a getter or of a CRC. -/
theorem fieldCheck_ne (env : Env) (u8TotalCrc : Bool) (hdr : HeaderPart) (v : DataView)
    (result : Result) (e : SeqEntry) (h : result ≠ .error .headerNotFound) :
    fieldCheck env u8TotalCrc hdr v result e ≠ .error .headerNotFound := by
  have hget : (getUint16 v env.infos.headerLgth).map (fun _ => ()) ≠
      .error .headerNotFound := by
    have hne := getBytes_ne v env.infos.headerLgth 2
    rw [← getUint16] at hne
    cases hu : getUint16 v env.infos.headerLgth with
    | ok n => exact fun he => absurd he (by simp [Except.map])
    | error x => exact fun he => hne (by rw [hu]; exact congrArg _ (Except.error.inj he))
  cases e with
  | u16CmdKey | u16CmdLgth => exact hget
  | u8Crc | u16Crc =>
    rw [fieldCheck, headerCrc]
    exact getCrc_ne _ _ _ _
  | u0Crc | u0TotalCrc | u8TotalCrc | u16TotalCrc =>
    exact fun he => absurd he (by simp [fieldCheck])
  | _ => exact h

theorem fieldChecks_ne (env : Env) (u8TotalCrc : Bool) (hdr : HeaderPart) (v : DataView)
    (result : Result) (es : List SeqEntry) (h : result ≠ .error .headerNotFound) :
    fieldChecks env u8TotalCrc hdr v result es ≠ .error .headerNotFound := by
  induction es generalizing result with
  | nil => exact fun he => absurd he (by simp [fieldChecks])
  | cons e es ih =>
    have hne := fieldCheck_ne env u8TotalCrc hdr v result e h
    rw [fieldChecks]
    cases hc : fieldCheck env u8TotalCrc hdr v result e with
    | error x =>
      rw [hc] at hne
      exact hne
    | ok u => exact ih (.ok ()) fun he => absurd he (by simp)

/-- The command key is checked again whatever the last result was. -/
theorem fieldChecks_append (env : Env) (u8TotalCrc : Bool) (hdr : HeaderPart) (v : DataView)
    (result : Result) (pre post : List SeqEntry)
    (hpre : fieldChecks env u8TotalCrc hdr v result pre = .ok ()) :
    fieldChecks env u8TotalCrc hdr v result (pre ++ .u16CmdKey :: post) =
      fieldChecks env u8TotalCrc hdr v (.ok ()) (.u16CmdKey :: post) := by
  induction pre generalizing result with
  | nil => rfl
  | cons e pre ih =>
    rw [fieldChecks] at hpre
    rw [List.cons_append, fieldChecks]
    cases hc : fieldCheck env u8TotalCrc hdr v result e with
    | error x =>
      rw [hc] at hpre
      cases hpre
    | ok u =>
      rw [hc] at hpre
      exact ih (.ok ()) hpre

theorem chosen_lt (infos : MsgHeaderInfos) (hdr : HeaderPart) (s : Receiver)
    (h : Chosen infos hdr s) : s.currPartIdx < infos.headerParts.length :=
  (List.getElem?_eq_some_iff.mp h.entry).1

theorem chosen_first (infos : MsgHeaderInfos) (hdr : HeaderPart) (s : Receiver)
    (h : Chosen infos hdr s) :
    FirstFrom (fitsHeader s.received) infos.headerParts s.currPartIdx s.currPartIdx :=
  ⟨Nat.le_refl _, ⟨hdr, h.entry, h.fits⟩, fun _ hle hlt => absurd hlt (Nat.not_lt.mpr hle)⟩

theorem holdsAt_chosen (infos : MsgHeaderInfos) (hdr : HeaderPart) (s : Receiver) (key : Nat)
    (h : Chosen infos hdr s) :
    HoldsAt (fitsKey s.received key) infos.headerParts s.currPartIdx ↔ key = hdr.hdrU16CmdKey := by
  constructor
  · rintro ⟨x, hx, hfit⟩
    rw [h.entry] at hx
    cases hx
    exact (key_of_fitsKey _ _ _ hfit).symm
  · intro heq
    exact ⟨hdr, h.entry, by rw [fitsKey, h.fits, heq]; simp⟩

/-- A header that is found chooses the first entry of the table that fits. -/
theorem getHeaderIndex_chosen (infos : MsgHeaderInfos) (s s' : Receiver)
    (h : getHeaderIndexFromHeaderFields infos s = (.ok (), s')) :
    FirstFrom (fitsHeader s'.received) infos.headerParts 0 s'.currPartIdx ∧
      s'.seqIdx = s'.seqIdxAfterHeader ∧ ∃ hdr, Chosen infos hdr s' := by
  rw [getHeaderIndexFromHeaderFields] at h
  obtain ⟨-, hnext⟩ := checkErrOK_eq_ok _ _ _ h
  generalize (headerFields infos { s with
    received := { s.received with fieldOffset := 0 }, seqIdx := 0 } infos.headerSequence).2 = t
    at hnext
  obtain ⟨j, hj⟩ | hnone := firstFrom_or_noneFrom (fitsHeader t.received) infos.headerParts 0
  · obtain ⟨t', hfound, hmoved⟩ := nextFittingEntry_found infos 0 j
      { t with seqIdxAfterHeader := t.seqIdx, currPartIdx := 0 } (.inl rfl) hj
    rw [hfound] at hnext
    cases hnext
    have hcurr : s'.currPartIdx = j := hmoved.same.currPartIdx
    have hfits := fitsHeader_congr hmoved.same
    dsimp only at hfits
    obtain ⟨hdr, hhdr, hfit⟩ := hj.holds
    refine ⟨by rw [hfits, hcurr]; exact hj, ?_, hdr, by rw [hcurr, hhdr], by rw [hfits, hfit]⟩
    exact hmoved.seqIdx.trans hmoved.same.seqIdxAfterHeader.symm
  · obtain ⟨t', hmissing⟩ := nextFittingEntry_missing infos 0
      { t with seqIdxAfterHeader := t.seqIdx, currPartIdx := 0 } (.inl rfl) hnone
    rw [hmissing] at hnext
    cases hnext

/-- The bytes of the message that follow leave the choice alone. -/
theorem storeBytes_chosen (infos : MsgHeaderInfos) (hdr : HeaderPart) (s : Receiver)
    (bytes : List UInt8) (h : Chosen infos hdr s) : Chosen infos hdr (storeBytes s bytes) := by
  induction bytes generalizing s with
  | nil => exact h
  | cons c bytes ih => exact ih (storeByte s c) ⟨h.entry, h.fits⟩

/-- The chosen entry has the received command key. -/
theorem selects_kept (env : Env) (hdr : HeaderPart) (s : Receiver) (hc : Chosen env.infos hdr s)
    (hr : KeyReached env hdr s) (hkey : receivedKey env s = hdr.hdrU16CmdKey) :
    SelectsHeader env hdr s := by
  have hself : Selected env s s.currPartIdx :=
    firstFrom_finer _ _ _ _ _ (chosen_first _ _ _ hc) (fitsHeader_of_fitsKey _ _)
      ((holdsAt_chosen _ _ _ _ hc).mpr hkey)
  have hends := header_kept env hdr s fun _ => hkey
  obtain ⟨-, post, hsplit⟩ := beforeKey_split (fieldsBehind hdr s) hr.mem
  have hresult := hends.result
  rw [hsplit, fieldChecks_append _ _ _ _ _ _ _ hr.passed] at hresult
  constructor
  · intro j hj
    rw [hends.currPartIdx, firstFrom_unique _ _ _ _ _ hself hj]
  · constructor
    · intro hnot
      rw [hresult] at hnot
      exact absurd hnot (fieldChecks_ne _ _ _ _ _ _ fun he => absurd he (by simp))
    · exact fun hnone => absurd hself (hnone _)

/-- The chosen entry does not have it, and the search goes on behind it. -/
theorem selects_searched (env : Env) (hdr : HeaderPart) (s : Receiver)
    (hlen : env.infos.headerParts.length < 256) (hc : Chosen env.infos hdr s)
    (hr : KeyReached env hdr s) (hkey : receivedKey env s ≠ hdr.hdrU16CmdKey) :
    SelectsHeader env hdr s := by
  have hs : KeySearched env hdr s := ⟨hr.mem, hr.passed, hkey⟩
  have hskip : ∀ j, Selected env s j ↔
      FirstFrom (fitsKey s.received (receivedKey env s)) env.infos.headerParts
        (s.currPartIdx + 1) j := fun j =>
    firstFrom_skip _ _ _ _ _ _ (chosen_first _ _ _ hc) (fitsHeader_of_fitsKey _ _)
      fun hh => hkey ((holdsAt_chosen _ _ _ _ hc).mp hh)
  rcases firstFrom_or_noneFrom (fitsKey s.received (receivedKey env s)) env.infos.headerParts
    (s.currPartIdx + 1) with ⟨j, hj⟩ | hnone
  · obtain ⟨hdr', hhdr, -⟩ := hj.holds
    have hends := header_found env hdr hdr' s j hlen (chosen_lt _ _ _ hc) hs hj hhdr
    constructor
    · intro k hk
      rw [hends.currPartIdx, firstFrom_unique _ _ _ _ _ hj ((hskip k).mp hk)]
    · constructor
      · intro hnot
        rw [hends.result] at hnot
        exact absurd hnot (fieldChecks_ne _ _ _ _ _ _ fun he => absurd he (by simp))
      · exact fun hno => absurd ((hskip j).mpr hj) (hno j)
  · have hno : ∀ j, ¬ Selected env s j := fun j hj =>
      not_noneFrom _ _ _ _ ((hskip j).mp hj) hnone
    constructor
    · exact fun j hj => absurd hj (hno j)
    · exact ⟨fun _ => hno, fun _ => header_missing env hdr s hlen (chosen_lt _ _ _ hc) hs hnone⟩

/-- No command key is reached, and the entry stays the chosen one. -/
theorem kept_unreached (env : Env) (hdr : HeaderPart) (s : Receiver)
    (hr : ¬ KeyReached env hdr s) :
    (handleReceivedHeader env hdr s).2.currPartIdx = s.currPartIdx := by
  by_cases hmem : .u16CmdKey ∈ fieldsBehind hdr s
  · cases hpre : fieldChecks env hdr.u8TotalCrc hdr (messageView s) env.unsetResult
        (beforeKey (fieldsBehind hdr s)) with
    | ok u => exact absurd ⟨hmem, hpre⟩ hr
    | error e => exact (header_failed env hdr s e hmem hpre).currPartIdx
  · exact (header_kept env hdr s fun h => absurd h hmem).currPartIdx

/-- The selection of an entry by its command key, and the end of the search on every table. -/
theorem headerSelection (env : Env) (hdr : HeaderPart) (s : Receiver)
    (hlen : env.infos.headerParts.length < 256) (hc : Chosen env.infos hdr s) :
    (KeyReached env hdr s → SelectsHeader env hdr s) ∧
      (¬ KeyReached env hdr s →
        (handleReceivedHeader env hdr s).2.currPartIdx = s.currPartIdx) ∧
      ∀ t, Searches env.infos t (cmdKeyLoop env.infos (env.infos.headerParts.length + 1) t) := by
  refine ⟨fun hr => ?_, kept_unreached env hdr s, fun t => cmdKeyLoop_searches env.infos t hlen⟩
  by_cases hkey : receivedKey env s = hdr.hdrU16CmdKey
  · exact selects_kept env hdr s hc hr hkey
  · exact selects_searched env hdr s hlen hc hr hkey

/-- Two entries for the same sender, the first one with a field sequence that goes on as given. -/
def keyHdr (fields : List SeqEntry) : HeaderPart :=
  ⟨1, 2, 0, 0x4131, 'N', 'G', 0, [.u16Dst, .u16Src, .u16TotalLgth] ++ fields⟩

def keyEnv (fields : List SeqEntry) : Env :=
  { forwardEnv with infos := ⟨[.u16Dst, .u16Src, .u16TotalLgth], 6, [keyHdr fields,
    ⟨1, 2, 0, 0x4132, 'N', 'G', 0, [.u16Dst, .u16Src, .u16TotalLgth, .u16CmdKey]⟩]⟩ }

/-- A message with the command key of the second entry. -/
def keyReceiver (fields : List SeqEntry) : Receiver :=
  storeBytes (getHeaderIndexFromHeaderFields (keyEnv fields).infos
    (storeBytes forwardReceiver [0, 2, 0, 1, 0, 8])).2 [0x41, 0x32]

theorem keyReceiver_selected :
    (handleReceivedHeader (keyEnv [.u16CmdKey]) (keyHdr [.u16CmdKey])
      (keyReceiver [.u16CmdKey])).2.currPartIdx = 1 :=
  ((headerSelection (keyEnv [.u16CmdKey]) (keyHdr [.u16CmdKey]) (keyReceiver [.u16CmdKey])
    (by decide) ⟨by decide +kernel, by decide +kernel⟩).1
      ⟨by decide +kernel, by decide +kernel⟩).found 1
        (firstFrom_of_findIdx _ _ 0 1 (by decide +kernel))

/-- Without a command key in its sequence the first entry is kept. -/
theorem keyReceiver_kept :
    Chosen (keyEnv []).infos (keyHdr []) (keyReceiver []) ∧
      Selected (keyEnv []) (keyReceiver []) 1 ∧
      ¬ SelectsHeader (keyEnv []) (keyHdr []) (keyReceiver []) := by
  have hsel : Selected (keyEnv []) (keyReceiver []) 1 :=
    firstFrom_of_findIdx _ _ 0 1 (by decide +kernel)
  refine ⟨⟨by decide +kernel, by decide +kernel⟩, hsel, fun h => ?_⟩
  exact absurd (h.found 1 hsel) (by decide +kernel)

end NodeMcu.CompMsg.Selection
