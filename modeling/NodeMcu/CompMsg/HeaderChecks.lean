import NodeMcu.CompMsg.Identify
import NodeMcu.Lib.FirstIndex

namespace NodeMcu.CompMsg.HeaderChecks

open NodeMcu.Lib.FirstIndex
open NodeMcu.CompMsg.Codes NodeMcu.CompMsg.View NodeMcu.CompMsg.Headers NodeMcu.CompMsg.Crc
open NodeMcu.CompMsg.Identify

/-- The message as `handleReceivedHeader` looks at it. -/
def messageView (s : Receiver) : DataView := ⟨s.received.buf, s.received.totalLgth⟩

/-- What is taken for the command key of a message: the number behind the header, or what the
local held if the message ends there. -/
def receivedKey (env : Env) (s : Receiver) : Nat :=
  (getUint16 (messageView s) env.infos.headerLgth).toOption.getD env.unsetU16

/-- How the check of a field ends. Fields that are not checked repeat the last result. -/
def fieldCheck (env : Env) (u8TotalCrc : Bool) (hdr : HeaderPart) (v : DataView)
    (result : Result) : SeqEntry → Result
  | .u16CmdKey | .u16CmdLgth => (getUint16 v env.infos.headerLgth).map fun _ => ()
  | .u8Crc => headerCrc env.infos hdr u8TotalCrc v.lgth 1 v
  | .u16Crc => headerCrc env.infos hdr u8TotalCrc v.lgth 2 v
  | .u0Crc | .u0TotalCrc | .u8TotalCrc | .u16TotalCrc => .ok ()
  | _ => result

/-- The checks of the fields up to the first one that fails. -/
def fieldChecks (env : Env) (u8TotalCrc : Bool) (hdr : HeaderPart) (v : DataView) :
    Result → List SeqEntry → Result
  | _, [] => .ok ()
  | result, e :: es =>
    match fieldCheck env u8TotalCrc hdr v result e with
    | .error x => .error x
    | .ok _ => fieldChecks env u8TotalCrc hdr v (.ok ()) es

/-- What the loop over a field sequence leaves alone. -/
structure SameHeader (s s' : Receiver) : Prop where
  view : messageView s' = messageView s
  toPart : s'.received.toPart = s.received.toPart
  fromPart : s'.received.fromPart = s.received.fromPart
  currPartIdx : s'.currPartIdx = s.currPartIdx
  seqIdxAfterHeader : s'.seqIdxAfterHeader = s.seqIdxAfterHeader

theorem SameHeader.refl (s : Receiver) : SameHeader s s := ⟨rfl, rfl, rfl, rfl, rfl⟩

theorem SameHeader.trans {s s' s'' : Receiver} (h : SameHeader s s') (h' : SameHeader s' s'') :
    SameHeader s s'' :=
  ⟨h'.view.trans h.view, h'.toPart.trans h.toPart, h'.fromPart.trans h.fromPart,
    h'.currPartIdx.trans h.currPartIdx, h'.seqIdxAfterHeader.trans h.seqIdxAfterHeader⟩

theorem SameHeader.moved {s s' : Receiver} (h : SameHeader s s') (j : Nat) :
    SameHeader { s with currPartIdx := j } { s' with currPartIdx := j } :=
  ⟨h.view, h.toPart, h.fromPart, rfl, h.seqIdxAfterHeader⟩

theorem SameHeader.totalLgth {s s' : Receiver} (h : SameHeader s s') :
    s'.received.totalLgth = s.received.totalLgth :=
  congrArg DataView.lgth h.view

theorem SameHeader.receivedKey {s s' : Receiver} (env : Env) (h : SameHeader s s') :
    receivedKey env s' = receivedKey env s := by
  rw [HeaderChecks.receivedKey, h.view, HeaderChecks.receivedKey]

/-- The receiver behind the check of a field. -/
def readField (env : Env) (s : Receiver) (e : SeqEntry) : Receiver :=
  let h := env.infos.headerLgth
  match e with
  | .u16CmdKey => { s with received := { s.received with
      u16CmdKey := receivedKey env s
      partsFlags := s.received.partsFlags ||| 0x80
      fieldOffset := h + 2 } }
  | .u0CmdLgth => { s with received := { s.received with fieldOffset := h + 2 } }
  | .u16CmdLgth => { s with received := { s.received with
      u16CmdLgth := (getUint16 (messageView s) h).toOption.getD env.unsetU16
      fieldOffset := h + 2 } }
  | _ => { s with received := { s.received with fieldOffset := h } }

theorem readField_same (env : Env) (s : Receiver) (e : SeqEntry) :
    SameHeader s (readField env s e) := by
  cases e <;> exact ⟨rfl, rfl, rfl, rfl, rfl⟩

/-- One round of the loop over a field sequence that does not look for another entry. -/
theorem fieldLoop_cons (env : Env) (u8TotalCrc : Bool) (restart : Receiver → Result × Receiver)
    (hdr : HeaderPart) (e : SeqEntry) (es : List SeqEntry) (result : Result) (s : Receiver)
    (hkey : e = .u16CmdKey → receivedKey env s = hdr.hdrU16CmdKey) :
    fieldLoop env u8TotalCrc restart hdr (e :: es) result s =
      checkErrOK (fieldCheck env u8TotalCrc hdr (messageView s) result e, readField env s e)
        fun t => fieldLoop env u8TotalCrc restart hdr es
          (fieldCheck env u8TotalCrc hdr (messageView s) result e)
          { t with seqIdx := t.seqIdx + 1 } := by
  cases e with
  | u16CmdKey =>
    rw [fieldLoop]
    exact if_pos (hkey rfl)
  | _ => rfl

/-- A loop in which the entry stays the same ends as the checks of its fields. -/
theorem fieldLoop_checks (env : Env) (u8TotalCrc : Bool) (restart : Receiver → Result × Receiver)
    (hdr : HeaderPart) (es : List SeqEntry) (result : Result) (s : Receiver)
    (hkey : .u16CmdKey ∈ es → receivedKey env s = hdr.hdrU16CmdKey) :
    ∃ s', SameHeader s s' ∧ fieldLoop env u8TotalCrc restart hdr es result s =
      (fieldChecks env u8TotalCrc hdr (messageView s) result es, s') := by
  induction es generalizing result s with
  | nil => exact ⟨s, SameHeader.refl s, rfl⟩
  | cons e es ih =>
    have hread := readField_same env s e
    rw [fieldLoop_cons env u8TotalCrc restart hdr e es result s fun he =>
      hkey (he ▸ List.mem_cons_self), fieldChecks]
    cases hcheck : fieldCheck env u8TotalCrc hdr (messageView s) result e with
    | error x => exact ⟨_, hread, rfl⟩
    | ok u =>
      have hstep :
          SameHeader s { readField env s e with seqIdx := (readField env s e).seqIdx + 1 } :=
        hread.trans ⟨rfl, rfl, rfl, rfl, rfl⟩
      obtain ⟨s', hs', hloop⟩ := ih (.ok ())
        { readField env s e with seqIdx := (readField env s e).seqIdx + 1 } fun hmem =>
          (hstep.receivedKey env).trans (hkey (List.mem_cons_of_mem e hmem))
      rw [hstep.view] at hloop
      exact ⟨s', hstep.trans hs', hloop⟩

/-- The fields in front of a part of the sequence that starts with a command key. -/
theorem fieldLoop_append (env : Env) (u8TotalCrc : Bool) (restart : Receiver → Result × Receiver)
    (hdr : HeaderPart) (pre es : List SeqEntry) (result : Result) (s : Receiver)
    (hpre : .u16CmdKey ∉ pre) :
    ∃ result' s', SameHeader s s' ∧ fieldLoop env u8TotalCrc restart hdr (pre ++ es) result s =
      checkErrOK (fieldChecks env u8TotalCrc hdr (messageView s) result pre, s')
        (fieldLoop env u8TotalCrc restart hdr es result') := by
  induction pre generalizing result s with
  | nil => exact ⟨result, s, SameHeader.refl s, rfl⟩
  | cons e pre ih =>
    rw [List.mem_cons, not_or] at hpre
    have hread := readField_same env s e
    rw [List.cons_append, fieldLoop_cons env u8TotalCrc restart hdr e (pre ++ es) result s
      fun he => absurd he.symm hpre.1, fieldChecks]
    cases hcheck : fieldCheck env u8TotalCrc hdr (messageView s) result e with
    | error x => exact ⟨result, _, hread, rfl⟩
    | ok u =>
      have hstep :
          SameHeader s { readField env s e with seqIdx := (readField env s e).seqIdx + 1 } :=
        hread.trans ⟨rfl, rfl, rfl, rfl, rfl⟩
      obtain ⟨result', s', hs', hloop⟩ := ih (.ok ())
        { readField env s e with seqIdx := (readField env s e).seqIdx + 1 } hpre.2
      rw [hstep.view] at hloop
      exact ⟨result', s', hstep.trans hs', hloop⟩

/-- A command key that is not the one of the entry. -/
theorem fieldLoop_search (env : Env) (u8TotalCrc : Bool) (restart : Receiver → Result × Receiver)
    (hdr : HeaderPart) (es : List SeqEntry) (result : Result) (s : Receiver)
    (hkey : receivedKey env s ≠ hdr.hdrU16CmdKey) :
    fieldLoop env u8TotalCrc restart hdr (.u16CmdKey :: es) result s =
      checkErrOK (cmdKeyLoop env.infos (env.infos.headerParts.length + 1)
        (readField env s .u16CmdKey)) restart := by
  rw [fieldLoop]
  exact if_neg hkey

/-- The receiver and the sending end of an entry are those of the message, and so is its length if
it has one. -/
def fitsHeader (r : Received) (hdr : HeaderPart) : Bool :=
  hdr.hdrToPart == r.toPart && hdr.hdrFromPart == r.fromPart &&
    (hdr.hdrTotalLgth == r.totalLgth || hdr.hdrTotalLgth == 0)

def fitsKey (r : Received) (key : Nat) (hdr : HeaderPart) : Bool :=
  fitsHeader r hdr && hdr.hdrU16CmdKey == key

theorem fitsHeader_of_fitsKey (r : Received) (key : Nat) (hdr : HeaderPart)
    (h : fitsKey r key hdr = true) : fitsHeader r hdr = true :=
  (Bool.and_eq_true_iff.mp h).1

theorem key_of_fitsKey (r : Received) (key : Nat) (hdr : HeaderPart)
    (h : fitsKey r key hdr = true) : hdr.hdrU16CmdKey = key :=
  beq_iff_eq.mp (Bool.and_eq_true_iff.mp h).2

/-- The key that the search is called with is compared with itself. -/
theorem fits_eq (r : Received) (u16CmdKey : Nat) (h : u16CmdKey = 0 ∨ u16CmdKey = r.u16CmdKey) :
    fits r u16CmdKey = fitsHeader r := by
  funext hdr
  have hkey : (u16CmdKey == 0 || u16CmdKey == r.u16CmdKey) = true := by
    simpa using h
  rw [fits, hkey, Bool.and_true, fitsHeader]

theorem fitsHeader_congr {s s' : Receiver} (h : SameHeader s s') :
    fitsHeader s'.received = fitsHeader s.received := by
  funext hdr
  rw [fitsHeader, h.toPart, h.fromPart, h.totalLgth, fitsHeader]

theorem fitsKey_congr {s s' : Receiver} (key : Nat) (h : SameHeader s s') :
    fitsKey s'.received key = fitsKey s.received key := by
  funext hdr
  rw [fitsKey, fitsHeader_congr h, fitsKey]

/-- The receiver goes on with the entry number `j`. -/
structure MovedTo (s : Receiver) (j : Nat) (s' : Receiver) : Prop where
  same : SameHeader { s with currPartIdx := j } s'
  u16CmdKey : s'.received.u16CmdKey = s.received.u16CmdKey
  seqIdx : s'.seqIdx = s.seqIdxAfterHeader

theorem nextFittingEntry_found (infos : MsgHeaderInfos) (u16CmdKey j : Nat) (s : Receiver)
    (hkey : u16CmdKey = 0 ∨ u16CmdKey = s.received.u16CmdKey)
    (hj : FirstFrom (fitsHeader s.received) infos.headerParts s.currPartIdx j) :
    ∃ s', nextFittingEntry infos u16CmdKey s = (.ok (), s') ∧ MovedTo s j s' := by
  rw [nextFittingEntry, fits_eq s.received u16CmdKey hkey]
  cases hk : (infos.headerParts.drop s.currPartIdx).findIdx? (fitsHeader s.received) with
  | none =>
    exact absurd (noneFrom_of_findIdx _ _ _ hk) (not_noneFrom _ _ _ _ hj)
  | some k =>
    have hjk := firstFrom_unique _ _ _ _ _ hj (firstFrom_of_findIdx _ _ _ _ hk)
    exact ⟨_, rfl, ⟨rfl, rfl, rfl, hjk.symm, rfl⟩, rfl, rfl⟩

theorem nextFittingEntry_missing (infos : MsgHeaderInfos) (u16CmdKey : Nat) (s : Receiver)
    (hkey : u16CmdKey = 0 ∨ u16CmdKey = s.received.u16CmdKey)
    (hnone : NoneFrom (fitsHeader s.received) infos.headerParts s.currPartIdx) :
    ∃ s', nextFittingEntry infos u16CmdKey s = (.error .headerNotFound, s') := by
  rw [nextFittingEntry, fits_eq s.received u16CmdKey hkey]
  cases hk : (infos.headerParts.drop s.currPartIdx).findIdx? (fitsHeader s.received) with
  | none => exact ⟨_, rfl⟩
  | some k =>
    exact absurd hnone (not_noneFrom _ _ _ _ (firstFrom_of_findIdx _ _ _ _ hk))

/-- One round of the search for the command key finds the next entry that fits, or none. -/
theorem cmdKeyLoop_next (infos : MsgHeaderInfos) (rounds : Nat) (s : Receiver)
    (hlen : infos.headerParts.length < 256) (hcur : s.currPartIdx < infos.headerParts.length) :
    (NoneFrom (fitsHeader s.received) infos.headerParts (s.currPartIdx + 1) ∧
        (cmdKeyLoop infos (rounds + 1) s).1 = .error .headerNotFound) ∨
      ∃ l hdr s', FirstFrom (fitsHeader s.received) infos.headerParts (s.currPartIdx + 1) l ∧
        infos.headerParts[l]? = some hdr ∧ MovedTo s l s' ∧
        cmdKeyLoop infos (rounds + 1) s =
          if s.received.u16CmdKey = hdr.hdrU16CmdKey then (.ok (), s')
          else cmdKeyLoop infos rounds s' := by
  have hmod : (s.currPartIdx + 1) % 256 = s.currPartIdx + 1 := Nat.mod_eq_of_lt (by omega)
  rw [cmdKeyLoop, hmod]
  rcases firstFrom_or_noneFrom (fitsHeader s.received) infos.headerParts (s.currPartIdx + 1)
    with ⟨l, hl⟩ | hnone
  · obtain ⟨s', hnext, hs'⟩ := nextFittingEntry_found infos s.received.u16CmdKey l
      { s with currPartIdx := s.currPartIdx + 1 } (.inr rfl) hl
    obtain ⟨hdr, hhdr, -⟩ := hl.holds
    refine .inr ⟨l, hdr, s', hl, hhdr, ⟨hs'.same, hs'.u16CmdKey, hs'.seqIdx⟩, ?_⟩
    have hcurr : s'.currPartIdx = l := hs'.same.currPartIdx
    have hkeep : s'.received.u16CmdKey = s.received.u16CmdKey := hs'.u16CmdKey
    rw [hnext, checkErrOK_ok, hcurr, hhdr, hkeep]
  · obtain ⟨s', hnext⟩ := nextFittingEntry_missing infos s.received.u16CmdKey
      { s with currPartIdx := s.currPartIdx + 1 } (.inr rfl) hnone
    exact .inl ⟨hnone, by rw [hnext]; rfl⟩

theorem MovedTo.fitsKey_eq {s s' : Receiver} {j : Nat} (h : MovedTo s j s') :
    fitsKey s'.received s'.received.u16CmdKey = fitsKey s.received s.received.u16CmdKey := by
  rw [fitsKey_congr _ h.same, h.u16CmdKey]

theorem MovedTo.trans {s s' s'' : Receiver} {j k : Nat} (h : MovedTo s j s')
    (h' : MovedTo s' k s'') : MovedTo s k s'' := by
  refine ⟨⟨?_, ?_, ?_, h'.same.currPartIdx, ?_⟩, h'.u16CmdKey.trans h.u16CmdKey, ?_⟩
  · exact h'.same.view.trans h.same.view
  · exact h'.same.toPart.trans h.same.toPart
  · exact h'.same.fromPart.trans h.same.fromPart
  · exact h'.same.seqIdxAfterHeader.trans h.same.seqIdxAfterHeader
  · exact h'.seqIdx.trans h.same.seqIdxAfterHeader

/-- The entry that the search stops at, of those that fit. -/
theorem holdsAt_fitsKey (r : Received) (xs : List HeaderPart) (l : Nat) (hdr : HeaderPart)
    (hl : HoldsAt (fitsHeader r) xs l) (hhdr : xs[l]? = some hdr) :
    HoldsAt (fitsKey r r.u16CmdKey) xs l ↔ r.u16CmdKey = hdr.hdrU16CmdKey := by
  obtain ⟨x, hx, hfit⟩ := hl
  rw [hhdr] at hx
  cases hx
  constructor
  · rintro ⟨x, hx, hkey⟩
    rw [hhdr] at hx
    cases hx
    exact (key_of_fitsKey _ _ _ hkey).symm
  · intro heq
    exact ⟨hdr, hhdr, by rw [fitsKey, hfit, heq]; simp⟩

/-- The loop ends with the first entry that fits and has the command key. -/
theorem cmdKeyLoop_found (infos : MsgHeaderInfos) (rounds j : Nat) (s : Receiver)
    (hlen : infos.headerParts.length < 256) (hcur : s.currPartIdx < infos.headerParts.length)
    (hrounds : infos.headerParts.length ≤ s.currPartIdx + rounds)
    (hj : FirstFrom (fitsKey s.received s.received.u16CmdKey) infos.headerParts
      (s.currPartIdx + 1) j) :
    ∃ s', cmdKeyLoop infos rounds s = (.ok (), s') ∧ MovedTo s j s' := by
  induction rounds generalizing s with
  | zero => omega
  | succ rounds ih =>
    have himp := fitsHeader_of_fitsKey s.received s.received.u16CmdKey
    rcases cmdKeyLoop_next infos rounds s hlen hcur with
      ⟨hnone, -⟩ | ⟨l, hdr, s', hl, hhdr, hs', hloop⟩
    · exact absurd (noneFrom_finer _ _ _ _ hnone himp) (not_noneFrom _ _ _ _ hj)
    · have hiff := holdsAt_fitsKey s.received _ l hdr hl.holds hhdr
      rw [hloop]
      by_cases heq : s.received.u16CmdKey = hdr.hdrU16CmdKey
      · rw [if_pos heq]
        have hlj := firstFrom_unique _ _ _ _ _ (firstFrom_finer _ _ _ _ _ hl himp (hiff.mpr heq)) hj
        exact ⟨s', rfl, hlj ▸ hs'⟩
      · rw [if_neg heq]
        have hgo := (firstFrom_skip _ _ _ _ _ _ hl himp fun hh => heq (hiff.mp hh)).mp hj
        have hcurr : s'.currPartIdx = l := hs'.same.currPartIdx
        have hle := hl.le
        have hlt := holdsAt_lt _ _ _ hl.holds
        obtain ⟨s'', hend, hs''⟩ := ih s' (by omega) (by omega) (by
          rw [hs'.fitsKey_eq, hcurr]
          exact hgo)
        exact ⟨s'', hend, hs'.trans hs''⟩

theorem cmdKeyLoop_missing (infos : MsgHeaderInfos) (rounds : Nat) (s : Receiver)
    (hlen : infos.headerParts.length < 256) (hcur : s.currPartIdx < infos.headerParts.length)
    (hrounds : infos.headerParts.length ≤ s.currPartIdx + rounds)
    (hnone : NoneFrom (fitsKey s.received s.received.u16CmdKey) infos.headerParts
      (s.currPartIdx + 1)) :
    (cmdKeyLoop infos rounds s).1 = .error .headerNotFound := by
  induction rounds generalizing s with
  | zero => omega
  | succ rounds ih =>
    have himp := fitsHeader_of_fitsKey s.received s.received.u16CmdKey
    rcases cmdKeyLoop_next infos rounds s hlen hcur with
      ⟨-, hend⟩ | ⟨l, hdr, s', hl, hhdr, hs', hloop⟩
    · exact hend
    · have hiff := holdsAt_fitsKey s.received _ l hdr hl.holds hhdr
      have hne : ¬ HoldsAt (fitsKey s.received s.received.u16CmdKey) infos.headerParts l :=
        hnone l hl.le
      have hcurr : s'.currPartIdx = l := hs'.same.currPartIdx
      have hle := hl.le
      have hlt := holdsAt_lt _ _ _ hl.holds
      rw [hloop, if_neg fun heq => hne (hiff.mpr heq)]
      refine ih s' (by omega) (by omega) ?_
      rw [hs'.fitsKey_eq, hcurr]
      exact (noneFrom_skip _ _ _ _ _ hl himp hne).mp hnone

/-- The fields of a sequence in front of its first command key. -/
def beforeKey (es : List SeqEntry) : List SeqEntry := es.takeWhile (· != .u16CmdKey)

theorem beforeKey_split (es : List SeqEntry) (h : .u16CmdKey ∈ es) :
    .u16CmdKey ∉ beforeKey es ∧ ∃ post, es = beforeKey es ++ .u16CmdKey :: post := by
  induction es with
  | nil => cases h
  | cons e es ih =>
    by_cases he : e = .u16CmdKey
    · rw [beforeKey, List.takeWhile_cons_of_neg (by simp [he])]
      exact ⟨List.not_mem_nil, es, by rw [he]; rfl⟩
    · obtain ⟨hnot, post, hpost⟩ := ih ((List.mem_cons.mp h).resolve_left (Ne.symm he))
      rw [beforeKey, List.takeWhile_cons_of_pos (by simp [he])]
      refine ⟨?_, post, congrArg (List.cons e) hpost⟩
      rw [List.mem_cons, not_or]
      exact ⟨Ne.symm he, hnot⟩

/-- How the header of a message is done with: the result and the entry. -/
structure HeaderEnds (env : Env) (hdr : HeaderPart) (s : Receiver) (result : Result)
    (currPartIdx : Nat) : Prop where
  result : (handleReceivedHeader env hdr s).1 = result
  currPartIdx : (handleReceivedHeader env hdr s).2.currPartIdx = currPartIdx

/-- The part of the field sequence behind the header. -/
def fieldsBehind (hdr : HeaderPart) (s : Receiver) : List SeqEntry :=
  hdr.fieldSequence.drop s.seqIdx

/-- The loop that `handleReceivedHeader` runs, from the state in front of it on. -/
def headerLoop (env : Env) (hdr : HeaderPart) (s : Receiver) : Result × Receiver :=
  entryLoop env hdr.u8TotalCrc env.infos.headerParts.length hdr (fieldsBehind hdr s)
    env.unsetResult { s with received := { s.received with lgth := env.infos.headerLgth } }

theorem headerEnds_of_loop (env : Env) (hdr : HeaderPart) (s s' : Receiver) (result : Result)
    (h : headerLoop env hdr s = (result, s')) : HeaderEnds env hdr s result s'.currPartIdx := by
  have heq : handleReceivedHeader env hdr s =
      checkErrOK (headerLoop env hdr s) fun s => (.ok (), deleteMsg s) := rfl
  rw [h] at heq
  cases result with
  | ok u => exact ⟨by rw [heq]; rfl, by rw [heq]; rfl⟩
  | error e => exact ⟨by rw [heq]; rfl, by rw [heq]; rfl⟩

theorem entryLoop_eq (env : Env) (u8TotalCrc : Bool) (n : Nat) (hdr : HeaderPart) :
    ∃ restart, entryLoop env u8TotalCrc n hdr = fieldLoop env u8TotalCrc restart hdr := by
  cases n with
  | zero => exact ⟨_, rfl⟩
  | succ n => exact ⟨_, rfl⟩

/-- No other entry is looked for. -/
theorem header_kept (env : Env) (hdr : HeaderPart) (s : Receiver)
    (hkey : .u16CmdKey ∈ fieldsBehind hdr s → receivedKey env s = hdr.hdrU16CmdKey) :
    HeaderEnds env hdr s (fieldChecks env hdr.u8TotalCrc hdr (messageView s) env.unsetResult
      (fieldsBehind hdr s)) s.currPartIdx := by
  obtain ⟨restart, hrestart⟩ := entryLoop_eq env hdr.u8TotalCrc env.infos.headerParts.length hdr
  obtain ⟨s', hs', hloop⟩ := fieldLoop_checks env hdr.u8TotalCrc restart hdr (fieldsBehind hdr s)
    env.unsetResult { s with received := { s.received with lgth := env.infos.headerLgth } } hkey
  rw [← hrestart] at hloop
  have hends := headerEnds_of_loop env hdr s s' _ hloop
  rw [hs'.currPartIdx] at hends
  exact hends

/-- A field in front of the command key fails its check. -/
theorem header_failed (env : Env) (hdr : HeaderPart) (s : Receiver) (e : CompMsgErr)
    (hmem : .u16CmdKey ∈ fieldsBehind hdr s)
    (hpre : fieldChecks env hdr.u8TotalCrc hdr (messageView s) env.unsetResult
      (beforeKey (fieldsBehind hdr s)) = .error e) :
    HeaderEnds env hdr s (.error e) s.currPartIdx := by
  obtain ⟨hnot, post, hsplit⟩ := beforeKey_split (fieldsBehind hdr s) hmem
  obtain ⟨restart, hrestart⟩ := entryLoop_eq env hdr.u8TotalCrc env.infos.headerParts.length hdr
  obtain ⟨result', s', hs', hloop⟩ := fieldLoop_append env hdr.u8TotalCrc restart hdr
    (beforeKey (fieldsBehind hdr s)) (.u16CmdKey :: post) env.unsetResult
    { s with received := { s.received with lgth := env.infos.headerLgth } } hnot
  have hview : messageView { s with received := { s.received with
      lgth := env.infos.headerLgth } } = messageView s := rfl
  rw [← hrestart, ← hsplit, hview, hpre] at hloop
  have hends := headerEnds_of_loop env hdr s s' _ hloop
  rw [hs'.currPartIdx] at hends
  exact hends

/-- The loop goes on with the sequence of the entry that was found. -/
def restartAt (env : Env) (u8TotalCrc : Bool) (n : Nat) (s : Receiver) : Result × Receiver :=
  match env.infos.headerParts[s.currPartIdx]? with
  | none => (.error .headerNotFound, s)
  | some hdr => entryLoop env u8TotalCrc n hdr (hdr.fieldSequence.drop (s.seqIdx + 1)) (.ok ())
      { s with seqIdx := s.seqIdx + 1 }

theorem restartAt_checks (env : Env) (u8TotalCrc : Bool) (n : Nat) (hdr : HeaderPart)
    (s : Receiver) (hhdr : env.infos.headerParts[s.currPartIdx]? = some hdr)
    (hkey : receivedKey env s = hdr.hdrU16CmdKey) :
    ∃ s', SameHeader s s' ∧ restartAt env u8TotalCrc n s =
      (fieldChecks env u8TotalCrc hdr (messageView s) (.ok ())
        (hdr.fieldSequence.drop (s.seqIdx + 1)), s') := by
  obtain ⟨restart, hrestart⟩ := entryLoop_eq env u8TotalCrc n hdr
  obtain ⟨s', hs', hloop⟩ := fieldLoop_checks env u8TotalCrc restart hdr
    (hdr.fieldSequence.drop (s.seqIdx + 1)) (.ok ()) { s with seqIdx := s.seqIdx + 1 } fun _ => hkey
  have hstep : SameHeader s { s with seqIdx := s.seqIdx + 1 } := ⟨rfl, rfl, rfl, rfl, rfl⟩
  refine ⟨s', hstep.trans hs', ?_⟩
  rw [restartAt, hhdr]
  dsimp only
  rw [hrestart, hloop]
  rfl

/-- The fields in front of the command key pass, and the key is not the one of the entry. -/
structure KeySearched (env : Env) (hdr : HeaderPart) (s : Receiver) : Prop where
  mem : .u16CmdKey ∈ fieldsBehind hdr s
  passed : fieldChecks env hdr.u8TotalCrc hdr (messageView s) env.unsetResult
    (beforeKey (fieldsBehind hdr s)) = .ok ()
  differs : receivedKey env s ≠ hdr.hdrU16CmdKey

theorem headerLoop_search (env : Env) (hdr : HeaderPart) (s : Receiver) (n : Nat)
    (h : KeySearched env hdr s) (hn : env.infos.headerParts.length = n + 1) :
    ∃ s', SameHeader s s' ∧ s'.received.u16CmdKey = receivedKey env s ∧
      headerLoop env hdr s =
        checkErrOK (cmdKeyLoop env.infos (env.infos.headerParts.length + 1) s')
          (restartAt env hdr.u8TotalCrc n) := by
  obtain ⟨hnot, post, hsplit⟩ := beforeKey_split (fieldsBehind hdr s) h.mem
  have hstart : SameHeader s { s with received := { s.received with
      lgth := env.infos.headerLgth } } := ⟨rfl, rfl, rfl, rfl, rfl⟩
  obtain ⟨result', s', hs', hloop⟩ := fieldLoop_append env hdr.u8TotalCrc
    (restartAt env hdr.u8TotalCrc n) hdr (beforeKey (fieldsBehind hdr s)) (.u16CmdKey :: post)
    env.unsetResult { s with received := { s.received with lgth := env.infos.headerLgth } } hnot
  have hkey : receivedKey env s' = receivedKey env s :=
    (hs'.receivedKey env).trans (hstart.receivedKey env)
  rw [← hsplit, hstart.view, h.passed, checkErrOK_ok,
    fieldLoop_search env hdr.u8TotalCrc _ hdr post result' s' (hkey ▸ h.differs)] at hloop
  refine ⟨readField env s' .u16CmdKey, ?_, hkey, ?_⟩
  · exact (hstart.trans hs').trans (readField_same env s' .u16CmdKey)
  · rw [headerLoop, hn, entryLoop]
    rw [hn] at hloop
    exact hloop

/-- No entry that fits has the command key. -/
theorem header_missing (env : Env) (hdr : HeaderPart) (s : Receiver)
    (hlen : env.infos.headerParts.length < 256)
    (hcur : s.currPartIdx < env.infos.headerParts.length) (h : KeySearched env hdr s)
    (hnone : NoneFrom (fitsKey s.received (receivedKey env s)) env.infos.headerParts
      (s.currPartIdx + 1)) :
    (handleReceivedHeader env hdr s).1 = .error .headerNotFound := by
  obtain ⟨n, hn⟩ := Nat.exists_eq_succ_of_ne_zero (Nat.ne_zero_of_lt hcur)
  obtain ⟨s', hs', hkey, hloop⟩ := headerLoop_search env hdr s n h hn
  have hcurr := hs'.currPartIdx
  have hend := cmdKeyLoop_missing env.infos (env.infos.headerParts.length + 1) s' hlen (by omega)
    (by omega) (by
      rw [fitsKey_congr _ hs', hkey, hcurr]
      exact hnone)
  cases hr : cmdKeyLoop env.infos (env.infos.headerParts.length + 1) s' with
  | mk result t =>
    rw [hr] at hend hloop
    dsimp only at hend
    rw [hend, checkErrOK_error] at hloop
    exact (headerEnds_of_loop env hdr s t _ hloop).result

/-- The first entry behind the given one that fits and has the command key is `hdr'`. -/
theorem header_found (env : Env) (hdr hdr' : HeaderPart) (s : Receiver) (j : Nat)
    (hlen : env.infos.headerParts.length < 256)
    (hcur : s.currPartIdx < env.infos.headerParts.length) (h : KeySearched env hdr s)
    (hj : FirstFrom (fitsKey s.received (receivedKey env s)) env.infos.headerParts
      (s.currPartIdx + 1) j)
    (hhdr : env.infos.headerParts[j]? = some hdr') :
    HeaderEnds env hdr s (fieldChecks env hdr.u8TotalCrc hdr' (messageView s) (.ok ())
      (hdr'.fieldSequence.drop (s.seqIdxAfterHeader + 1))) j := by
  obtain ⟨n, hn⟩ := Nat.exists_eq_succ_of_ne_zero (Nat.ne_zero_of_lt hcur)
  obtain ⟨s', hs', hkey, hloop⟩ := headerLoop_search env hdr s n h hn
  have hcurr := hs'.currPartIdx
  obtain ⟨t, hend, ht⟩ := cmdKeyLoop_found env.infos (env.infos.headerParts.length + 1) j s' hlen
    (by omega) (by omega) (by
      rw [fitsKey_congr _ hs', hkey, hcurr]
      exact hj)
  have hsame : SameHeader { s with currPartIdx := j } t := (hs'.moved j).trans ht.same
  have hcurrt : t.currPartIdx = j := hsame.currPartIdx
  have hkeyt : receivedKey env t = hdr'.hdrU16CmdKey := by
    obtain ⟨x, hx, hfit⟩ := hj.holds
    rw [hhdr] at hx
    cases hx
    rw [key_of_fitsKey _ _ _ hfit]
    exact hsame.receivedKey env
  obtain ⟨t', ht', hchecks⟩ := restartAt_checks env hdr.u8TotalCrc n hdr' t
    (by rw [hcurrt, hhdr]) hkeyt
  have hseq : t.seqIdx = s.seqIdxAfterHeader := ht.seqIdx.trans hs'.seqIdxAfterHeader
  have hview : messageView t = messageView s := hsame.view
  rw [hend, checkErrOK_ok, hchecks, hseq, hview] at hloop
  have hends := headerEnds_of_loop env hdr s t' _ hloop
  rw [ht'.currPartIdx, hcurrt] at hends
  exact hends

end NodeMcu.CompMsg.HeaderChecks
