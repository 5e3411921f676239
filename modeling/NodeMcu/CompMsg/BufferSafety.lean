import NodeMcu.CompMsg.Recovery

namespace NodeMcu.CompMsg.BufferSafety

open NodeMcu.Lib.Memory NodeMcu.Lib.Run
open NodeMcu.CompMsg.Codes NodeMcu.CompMsg.View NodeMcu.CompMsg.Headers NodeMcu.CompMsg.Layout
open NodeMcu.CompMsg.Crc NodeMcu.CompMsg.Crypto NodeMcu.CompMsg.BuildMsg
open NodeMcu.CompMsg.Identify NodeMcu.CompMsg.Reception NodeMcu.CompMsg.Recovery

/-- How many bytes of the header an entry takes. -/
def entryLgth (headerLgth fieldOffset : Nat) : SeqEntry → Nat
  | .u16Dst | .u16Src | .u16TotalLgth | .hdrReserve => 2
  | .u16SrcId => 4
  | .u8VectorGuid => dispGuidLgth
  | .u8VectorHdrFiller => hdrFillerLgth headerLgth fieldOffset
  | _ => 0

/-- Whether the data view lets the entry be read. -/
def entryInView (headerLgth fieldOffset : Nat) : SeqEntry → Bool
  | .u16Dst | .u16Src | .u16TotalLgth | .hdrReserve =>
    decide (toSize (toInt fieldOffset + (1 : Nat)) ≤ headerLgth)
  | .u16SrcId => decide (toSize (toInt fieldOffset + (3 : Nat)) ≤ headerLgth)
  | .u8VectorGuid => decide ((fieldOffset + dispGuidLgth) % 4294967296 ≤ headerLgth)
  | .u8VectorHdrFiller =>
    decide ((fieldOffset + hdrFillerLgth headerLgth fieldOffset) % 4294967296 ≤ headerLgth)
  | _ => true

/-- Every header filler that is reached fits into `hdrFiller`. -/
def fillersFit (headerLgth : Nat) : Nat → List SeqEntry → Bool
  | _, [] => true
  | fieldOffset, e :: es =>
    !entryInView headerLgth fieldOffset e ||
      (decide (e = .u8VectorHdrFiller →
          entryLgth headerLgth fieldOffset e ≤ dispMaxHdrFillerLgth) &&
        fillersFit headerLgth (fieldOffset + entryLgth headerLgth fieldOffset e) es)

/-- The decrypted bytes of a complete message fit into the receive buffer. -/
def CopyFits (env : Env) (s : Receiver) : Prop :=
  ∀ hdr, env.infos.headerParts[s.currPartIdx]? = some hdr →
    hdr.hdrHandleType = 'G' ∨ hdr.hdrHandleType = 'R' ∨ hdr.hdrHandleType = 'D' →
    (checkTotalCrc hdr s).1 = .ok () → hdr.hdrEncryption = 'E' →
    (decryptPart env.aes env.keys env.infos hdr s.received.totalLgth s.received.buf).isOk = true →
    decryptCopy env.infos hdr s.received.totalLgth = 0 ∨
      env.infos.headerLgth + decryptCopy env.infos hdr s.received.totalLgth ≤ dispBufLgth

/-- The message ends within the next bytes. -/
def Ends (s : Receiver) (b : List UInt8) : Prop :=
  s.received.lgth < s.received.totalLgth ∧ s.received.totalLgth ≤ s.received.lgth + b.length

/-- The header ends within the next bytes. A total length that an earlier message has left can end
the loop in front of that. -/
def HeaderEnds (infos : MsgHeaderInfos) (s : Receiver) (b : List UInt8) : Prop :=
  s.received.lgth < infos.headerLgth ∧ infos.headerLgth ≤ s.received.lgth + b.length ∧
    ¬(s.received.lgth < s.received.totalLgth ∧ s.received.totalLgth < infos.headerLgth)

/-- Either the message ends in time or all bytes fit. -/
def BodyFits (env : Env) (s : Receiver) (b : List UInt8) : Prop :=
  (Ends s b → s.received.totalLgth ≤ dispBufLgth ∧
    CopyFits env (storeBytes s (b.take (s.received.totalLgth - s.received.lgth)))) ∧
  (¬ Ends s b → b = [] ∨ s.received.lgth + b.length ≤ dispBufLgth)

/-- The header is complete with the last byte of `s`. -/
def HeaderFits (env : Env) (s : Receiver) (b : List UInt8) : Prop :=
  env.infos.headerLgth ≤ dispBufLgth ∧
    fillersFit env.infos.headerLgth 0 env.infos.headerSequence = true ∧
    ((getHeaderIndexFromHeaderFields env.infos s).1 = .ok () →
      ∀ r, r = (getHeaderIndexFromHeaderFields env.infos s).2 →
        (env.infos.headerLgth = r.received.totalLgth → CopyFits env r) ∧
        (env.infos.headerLgth ≠ r.received.totalLgth → BodyFits env r b))

/-- What the bytes of one call have to meet. -/
def BufferFits (env : Env) (s : Receiver) (b : List UInt8) : Prop :=
  (HeaderEnds env.infos s b →
    HeaderFits env (storeBytes s (b.take (env.infos.headerLgth - s.received.lgth)))
      (b.drop (env.infos.headerLgth - s.received.lgth))) ∧
  (¬ HeaderEnds env.infos s b → BodyFits env s b)

/-- What reading an entry of the header does: it moves on, and only a filler can be too long. -/
structure EntryRead (infos : MsgHeaderInfos) (s : Receiver) (e : SeqEntry)
    (r : Result × Receiver) : Prop where
  ok : r.1 = .ok ()
  lgth : r.2.received.lgth = s.received.lgth
  fieldOffset : r.2.received.fieldOffset =
    s.received.fieldOffset + entryLgth infos.headerLgth s.received.fieldOffset e
  inBounds : r.2.inBounds = true ↔ s.inBounds = true ∧ (e = .u8VectorHdrFiller →
    entryLgth infos.headerLgth s.received.fieldOffset e ≤ dispMaxHdrFillerLgth)

theorem readNumber_reads (infos : MsgHeaderInfos) (e : SeqEntry) (n : Nat)
    (set : Received → Nat → Received) (s : Receiver) (hset : ∀ r v, (set r v).lgth = r.lgth)
    (hn : entryLgth infos.headerLgth s.received.fieldOffset e = n) (he : e ≠ .u8VectorHdrFiller)
    (h : toSize (toInt s.received.fieldOffset + (n - 1 : Nat)) ≤ s.received.lgth) :
    EntryRead infos s e (readNumber n set s) := by
  have hg := getBytes_of_le ⟨s.received.buf, s.received.lgth⟩ (toInt s.received.fieldOffset) n h
  unfold readNumber
  dsimp only at hg ⊢
  rw [hg]
  exact ⟨rfl, hset _ _, by rw [hn], by simp [he]⟩

theorem readNumber_error (n : Nat) (set : Received → Nat → Received) (s : Receiver)
    (h : ¬ toSize (toInt s.received.fieldOffset + (n - 1 : Nat)) ≤ s.received.lgth) :
    readNumber n set s = (.error .outOfRange, s) := by
  have hg : getBytes ⟨s.received.buf, s.received.lgth⟩ (toInt s.received.fieldOffset) n =
      .error .outOfRange := if_pos (Nat.not_le.mp h)
  simp only [readNumber, hg]

theorem readVector_reads (infos : MsgHeaderInfos) (e : SeqEntry) (n room : Nat)
    (set : Received → List UInt8 → Received) (s : Receiver)
    (hset : ∀ r v, (set r v).lgth = r.lgth)
    (hn : entryLgth infos.headerLgth s.received.fieldOffset e = n)
    (hroom : n ≤ room ↔ (e = .u8VectorHdrFiller → n ≤ dispMaxHdrFillerLgth))
    (h : (s.received.fieldOffset + n) % 4294967296 ≤ s.received.lgth) :
    EntryRead infos s e (readVector n room set s) := by
  unfold readVector
  dsimp only
  rw [if_neg (Nat.not_lt.mpr h)]
  exact ⟨rfl, hset _ _, by rw [hn], by rw [Bool.and_eq_true, decide_eq_true_eq, hroom, hn]⟩

theorem readVector_error (n room : Nat) (set : Received → List UInt8 → Received) (s : Receiver)
    (h : ¬ (s.received.fieldOffset + n) % 4294967296 ≤ s.received.lgth) :
    readVector n room set s = (.error .outOfRange, s) := if_pos (Nat.not_le.mp h)

theorem headerField_reads (infos : MsgHeaderInfos) (s : Receiver) (e : SeqEntry)
    (hl : s.received.lgth = infos.headerLgth)
    (h : entryInView infos.headerLgth s.received.fieldOffset e = true) :
    EntryRead infos s e (headerField infos s e) := by
  cases e with
  | u16Dst | u16Src | u16TotalLgth | hdrReserve =>
    simp only [entryInView, decide_eq_true_eq, ← hl] at h
    rw [headerField]
    refine readNumber_reads infos _ 2 _ s ?_ ?_ ?_ h
    · exact fun _ _ => rfl
    · rfl
    · simp
  | u16SrcId =>
    simp only [entryInView, decide_eq_true_eq, ← hl] at h
    rw [headerField]
    refine readNumber_reads infos _ 4 _ s ?_ ?_ ?_ h
    · exact fun _ _ => rfl
    · rfl
    · simp
  | u8VectorGuid =>
    simp only [entryInView, decide_eq_true_eq, ← hl] at h
    rw [headerField]
    refine readVector_reads infos _ dispGuidLgth dispGuidLgth _ s ?_ ?_ ?_ h
    · exact fun _ _ => rfl
    · rfl
    · simp
  | u8VectorHdrFiller =>
    simp only [entryInView, decide_eq_true_eq] at h
    rw [headerField]
    refine readVector_reads infos _ _ dispMaxHdrFillerLgth _ s ?_ ?_ ?_ (by rwa [hl])
    · exact fun _ _ => rfl
    · rfl
    · simp
  | _ => exact ⟨rfl, rfl, rfl, by simp [headerField]⟩

theorem headerField_error (infos : MsgHeaderInfos) (s : Receiver) (e : SeqEntry)
    (hl : s.received.lgth = infos.headerLgth)
    (h : ¬ entryInView infos.headerLgth s.received.fieldOffset e = true) :
    headerField infos s e = (.error .outOfRange, s) := by
  cases e with
  | u16Dst | u16Src | u16TotalLgth | hdrReserve =>
    simp only [entryInView, decide_eq_true_eq, ← hl] at h
    rw [headerField]
    exact readNumber_error 2 _ s h
  | u16SrcId =>
    simp only [entryInView, decide_eq_true_eq, ← hl] at h
    rw [headerField]
    exact readNumber_error 4 _ s h
  | u8VectorGuid | u8VectorHdrFiller =>
    simp only [entryInView, decide_eq_true_eq] at h
    rw [headerField]
    exact readVector_error _ _ _ s (by rwa [hl])
  | _ => exact absurd rfl h

theorem headerFields_inBounds (infos : MsgHeaderInfos) (s : Receiver) (es : List SeqEntry)
    (hl : s.received.lgth = infos.headerLgth) :
    (headerFields infos s es).2.inBounds = true ↔
      s.inBounds = true ∧ fillersFit infos.headerLgth s.received.fieldOffset es = true := by
  induction es generalizing s with
  | nil => simp [headerFields, fillersFit]
  | cons e es ih =>
    by_cases h : entryInView infos.headerLgth s.received.fieldOffset e = true
    · have hr := headerField_reads infos s e hl h
      rw [headerFields, checkErrOK, hr.ok]
      dsimp only
      rw [ih { (headerField infos s e).2 with seqIdx := (headerField infos s e).2.seqIdx + 1 }
        (hr.lgth.trans hl)]
      dsimp only
      rw [hr.inBounds, hr.fieldOffset]
      simp only [fillersFit, h, Bool.not_true, Bool.false_or, Bool.and_eq_true, decide_eq_true_eq,
        and_assoc]
    · have hr := headerField_error infos s e hl h
      rw [headerFields, hr, checkErrOK_error]
      simp [fillersFit, h]

theorem getHeaderIndex_inBounds (infos : MsgHeaderInfos) (s : Receiver)
    (hl : s.received.lgth = infos.headerLgth) :
    (getHeaderIndexFromHeaderFields infos s).2.inBounds = true ↔
      s.inBounds = true ∧ fillersFit infos.headerLgth 0 infos.headerSequence = true := by
  let t : Receiver := { s with received := { s.received with fieldOffset := 0 }, seqIdx := 0 }
  have hf := headerFields_inBounds infos t infos.headerSequence hl
  have heq : (getHeaderIndexFromHeaderFields infos s).2.inBounds =
      (headerFields infos t infos.headerSequence).2.inBounds := by
    refine checkErrOK_keeps
      (fun r : Receiver => r.inBounds = (headerFields infos t _).2.inBounds) _ _ rfl ?_
    intro r hr
    rw [(nextFittingEntry_same infos 0 _).inBounds]
    exact hr
  rw [heq]
  exact hf

theorem checkTotalCrc_inBounds (hdr : HeaderPart) (s : Receiver) :
    (checkTotalCrc hdr s).2.inBounds = s.inBounds := by
  unfold checkTotalCrc
  dsimp only
  split
  · rfl
  · split <;> rfl

theorem storeReceivedMsg_inBounds (env : Env) (hdr : HeaderPart) (s : Receiver) :
    (storeReceivedMsg env hdr s).2.inBounds = s.inBounds := by
  have hkeep : ∀ r next, r.2.inBounds = s.inBounds →
      (∀ t : Receiver, t.inBounds = s.inBounds →
        (next t : Ret × Receiver).2.inBounds = s.inBounds) →
      (checkRet r next).2.inBounds = s.inBounds :=
    checkRet_keeps fun t => t.inBounds = s.inBounds
  unfold storeReceivedMsg
  refine hkeep _ _ (handleReceivedHeader_done env hdr s).inBounds ?_
  intro t ht
  dsimp only
  split
  · exact ht
  · refine hkeep _ _ ht ?_
    intro u hu
    exact hkeep _ _ hu fun v hv => hv

theorem decryptReceived_inBounds (env : Env) (hdr : HeaderPart) (s : Receiver) :
    (decryptReceived env hdr s).2.inBounds = true ↔ s.inBounds = true ∧
      (hdr.hdrEncryption = 'E' →
        (decryptPart env.aes env.keys env.infos hdr s.received.totalLgth
          s.received.buf).isOk = true →
        decryptCopy env.infos hdr s.received.totalLgth = 0 ∨
          env.infos.headerLgth + decryptCopy env.infos hdr s.received.totalLgth ≤ dispBufLgth) := by
  unfold decryptReceived
  dsimp only
  by_cases hE : hdr.hdrEncryption = 'E'
  · cases hd : decryptPart env.aes env.keys env.infos hdr s.received.totalLgth s.received.buf with
    | error e => simp [hE, Except.isOk, Except.toBool]
    | ok buf => simp [hE, Except.isOk, Except.toBool]
  · simp [hE]

theorem handleComplete_inBounds (env : Env) (s : Receiver) :
    (handleComplete env s).2.inBounds = true ↔ s.inBounds = true ∧ CopyFits env s := by
  unfold handleComplete CopyFits
  cases hhdr : env.infos.headerParts[s.currPartIdx]? with
  | none => simp
  | some hdr =>
    have hstore : (checkRet (checkTotalCrc hdr s) fun s => checkRet (decryptReceived env hdr s)
        fun s => storeReceivedMsg env hdr s).2.inBounds = true ↔
        s.inBounds = true ∧ ((checkTotalCrc hdr s).1 = .ok () → hdr.hdrEncryption = 'E' →
          (decryptPart env.aes env.keys env.infos hdr s.received.totalLgth
            s.received.buf).isOk = true →
          decryptCopy env.infos hdr s.received.totalLgth = 0 ∨
            env.infos.headerLgth + decryptCopy env.infos hdr s.received.totalLgth ≤
              dispBufLgth) := by
      have hi := checkTotalCrc_inBounds hdr s
      have hr := checkTotalCrc_received hdr s
      cases hc : (checkTotalCrc hdr s).1 with
      | error e => simp [checkRet, hc, hi]
      | ok u =>
        have hd := decryptReceived_inBounds env hdr (checkTotalCrc hdr s).2
        rw [hi, hr] at hd
        have hdec : (checkRet (checkTotalCrc hdr s) fun s => checkRet (decryptReceived env hdr s)
            fun s => storeReceivedMsg env hdr s).2.inBounds =
            (decryptReceived env hdr (checkTotalCrc hdr s).2).2.inBounds := by
          rw [checkRet, hc]
          refine checkRet_keeps (fun t => t.inBounds = (decryptReceived env hdr _).2.inBounds) _ _
            rfl ?_
          intro t ht
          rw [storeReceivedMsg_inBounds, ht]
        rw [hdec, hd]
        simp
    dsimp only
    split
    · rw [hstore]
      simp_all
    · rw [hstore]
      simp_all
    · rw [hstore]
      simp_all
    · simp_all
    · simp_all
    · simp_all

theorem take_ne_nil (b : List UInt8) (k : Nat) (h0 : 0 < k) (hk : k ≤ b.length) :
    b.take k ≠ [] := by
  apply List.ne_nil_of_length_pos
  rw [List.length_take]
  omega

theorem bodyFits_iff (env : Env) (s : Receiver) (b : List UInt8)
    (hh : env.infos.headerLgth ≤ s.received.lgth ∨ ¬ HeaderEnds env.infos s b) :
    (handleReceivedPart env s b).2.1.inBounds = true ↔ s.inBounds = true ∧ BodyFits env s b := by
  unfold HeaderEnds at hh
  by_cases ht : Ends s b
  · have hb : BodyFits env s b ↔ s.received.totalLgth ≤ dispBufLgth ∧
        CopyFits env (storeBytes s (b.take (s.received.totalLgth - s.received.lgth))) := by
      simp only [BodyFits, ht, true_implies, not_true_eq_false, false_implies, and_true]
    obtain ⟨hlt, hle⟩ := ht
    have hk : 0 < s.received.totalLgth - s.received.lgth := by omega
    have hkb : s.received.totalLgth - s.received.lgth ≤ b.length := by omega
    have hq : Quiet env.infos s (s.received.totalLgth - s.received.lgth - 1) := by
      intro i hi hi'
      exact ⟨by omega, by omega⟩
    have hlen : s.received.lgth + (b.take (s.received.totalLgth - s.received.lgth)).length =
        s.received.totalLgth := by
      rw [List.length_take]
      omega
    rw [handleReceivedPart_ends env s b _ hk hkb hq (by omega) (by omega),
      handleComplete_inBounds, storeBytes_inBounds, hlen, hb]
    simp only [take_ne_nil b _ hk hkb, false_or, and_assoc]
  · have hb : BodyFits env s b ↔ b = [] ∨ s.received.lgth + b.length ≤ dispBufLgth := by
      simp only [BodyFits, ht, false_implies, true_and, not_false_eq_true, true_implies]
    unfold Ends at ht
    have hq : Quiet env.infos s b.length := by
      intro i hi hi'
      exact ⟨by omega, by omega⟩
    rw [handleReceivedPart_all env s b hq, hb]
    exact storeBytes_inBounds s b

theorem headerFits_iff (env : Env) (s : Receiver) (b : List UInt8)
    (hc : HeaderEnds env.infos s b) :
    (handleReceivedPart env s b).2.1.inBounds = true ↔ s.inBounds = true ∧
      HeaderFits env (storeBytes s (b.take (env.infos.headerLgth - s.received.lgth)))
        (b.drop (env.infos.headerLgth - s.received.lgth)) := by
  obtain ⟨hlt, hle, hstale⟩ := hc
  have hk : 0 < env.infos.headerLgth - s.received.lgth := by omega
  have hkb : env.infos.headerLgth - s.received.lgth ≤ b.length := by omega
  have hne := take_ne_nil b _ hk hkb
  have hq : Quiet env.infos s (env.infos.headerLgth - s.received.lgth - 1) := by
    intro i hi hi'
    exact ⟨by omega, by omega⟩
  have hlen : s.received.lgth + (b.take (env.infos.headerLgth - s.received.lgth)).length =
      env.infos.headerLgth := by
    rw [List.length_take]
    omega
  rw [handleReceivedPart_parses env s b _ hk hkb hq (by omega)]
  have hstored := storeBytes_inBounds s (b.take (env.infos.headerLgth - s.received.lgth))
  have hlgth := storeBytes_lgth s (b.take (env.infos.headerLgth - s.received.lgth))
  rw [hlen] at hstored hlgth
  generalize storeBytes s (b.take (env.infos.headerLgth - s.received.lgth)) = x at hstored hlgth ⊢
  have hi := getHeaderIndex_inBounds env.infos x hlgth
  have hl := (getHeaderIndex_same env.infos x).lgth
  rw [hlgth] at hl
  rw [hstored] at hi
  unfold HeaderFits
  dsimp only
  split
  next e he =>
    rw [hi, he]
    simp only [hne, false_or, reduceCtorEq, false_implies, and_true, and_assoc]
  next he =>
    rw [he]
    simp only [true_implies, forall_eq]
    split
    next ht =>
      rw [handleComplete_inBounds, hi]
      simp only [hne, ← ht, false_or, true_implies, ne_eq, not_true_eq_false, false_implies,
        and_true, and_assoc]
    next ht =>
      rw [bodyFits_iff env _ _ (.inl (by rw [hl])), hi]
      simp only [hne, ht, false_or, false_implies, ne_eq, not_false_eq_true, true_implies, true_and,
        and_assoc]

/-- The bytes written by a call stay inside the buffers exactly if the call meets the condition. -/
theorem handleReceivedPart_inBounds (env : Env) (s : Receiver) (b : List UInt8) :
    (handleReceivedPart env s b).2.1.inBounds = true ↔
      s.inBounds = true ∧ BufferFits env s b := by
  by_cases hc : HeaderEnds env.infos s b
  · rw [headerFits_iff env s b hc]
    simp only [BufferFits, hc, true_implies, not_true_eq_false, false_implies, and_true]
  · rw [bodyFits_iff env s b (.inr hc)]
    simp only [BufferFits, hc, false_implies, true_and, not_false_eq_true, true_implies]

/-- No call writes outside the buffers. -/
def BufferSafe (env : Env) (s : Receiver) (buffers : List (List UInt8)) : Prop :=
  Along (feed env) (fun x b => (feed env x b).receiver.inBounds = true) (session s) buffers

/-- Every call meets the condition in the state it finds. -/
def AllFit (env : Env) (s : Receiver) (buffers : List (List UInt8)) : Prop :=
  Along (feed env) (fun x b => x.crashed = false → BufferFits env x.receiver b) (session s) buffers

theorem feed_inBounds (env : Env) (x : Session) (b : List UInt8)
    (hx : x.receiver.inBounds = true) :
    (feed env x b).receiver.inBounds = true ↔
      (x.crashed = false → BufferFits env x.receiver b) := by
  cases hc : x.crashed with
  | true => simp [feed, hc, hx]
  | false =>
    have h := handleReceivedPart_inBounds env x.receiver b
    simp only [hx, true_and] at h
    simpa [feed, hc] using h

theorem bufferSafe_iff (env : Env) (s : Receiver) (buffers : List (List UInt8))
    (hs : s.inBounds = true) : BufferSafe env s buffers ↔ AllFit env s buffers :=
  along_congr (feed env) _ _ (fun x => x.receiver.inBounds = true) (feed_inBounds env)
    (fun _ _ _ h => h) (session s) buffers hs

theorem forwardedMsg_allFit : AllFit forwardEnv forwardReceiver [[0, 2, 0, 1], [0, 8, 7, 7]] :=
  (bufferSafe_iff forwardEnv forwardReceiver [[0, 2, 0, 1], [0, 8, 7, 7]] rfl).mp
    ⟨by decide, by decide, trivial⟩

/-- What follows a header that announces less than itself, or more than the buffer holds, runs
over the end of the buffer. -/
theorem not_bufferFits (env : Env) (s : Receiver) (header rest : List UInt8)
    (hs : s.received.lgth < env.infos.headerLgth)
    (hstale : ¬(s.received.lgth < s.received.totalLgth ∧
      s.received.totalLgth < env.infos.headerLgth))
    (hheader : s.received.lgth + header.length = env.infos.headerLgth)
    (hok : (getHeaderIndexFromHeaderFields env.infos (storeBytes s header)).1 = .ok ())
    (hlgth : ∀ r, r = (getHeaderIndexFromHeaderFields env.infos (storeBytes s header)).2 →
      r.received.totalLgth < env.infos.headerLgth ∨ dispBufLgth < r.received.totalLgth)
    (hrest : dispBufLgth < env.infos.headerLgth + rest.length) :
    ¬ BufferFits env s (header ++ rest) := by
  intro hb
  have hk : env.infos.headerLgth - s.received.lgth = header.length := by omega
  have hl := (getHeaderIndex_same env.infos (storeBytes s header)).lgth
  rw [storeBytes_lgth, hheader] at hl
  have hin : HeaderEnds env.infos s (header ++ rest) := by
    refine ⟨hs, ?_, hstale⟩
    rw [List.length_append]
    omega
  have hf := hb.1 hin
  rw [hk, List.take_left, List.drop_left] at hf
  obtain ⟨hbuf, -, hbody⟩ := hf
  have hlgth := hlgth _ rfl
  obtain ⟨hends, hopen⟩ := (hbody hok _ rfl).2 (by omega)
  by_cases ht : Ends (getHeaderIndexFromHeaderFields env.infos (storeBytes s header)).2 rest
  · have hle := (hends ht).1
    have hlt := ht.1
    omega
  · cases hopen ht with
    | inl hnil =>
      rw [hnil, List.length_nil] at hrest
      omega
    | inr hle => omega

def longRest : List UInt8 := List.replicate 1019 7

theorem longRest_length : longRest.length = 1019 := List.length_replicate

/-- Five bytes announced, which the header is already longer than, and one byte more than the
buffer holds. -/
theorem badLgth_overflows :
    ¬ BufferSafe forwardEnv forwardReceiver [[0, 2, 0, 1, 0, 5] ++ longRest] ∧
      ¬ BufferSafe forwardEnv forwardReceiver [[0, 2, 0, 1, 4, 1] ++ longRest] := by
  have hrest : dispBufLgth < forwardEnv.infos.headerLgth + longRest.length := by
    rw [longRest_length]
    decide
  constructor
  · intro h
    refine not_bufferFits forwardEnv forwardReceiver [0, 2, 0, 1, 0, 5] longRest (by decide)
      (by decide) rfl (by decide) ?_ hrest
      ((feed_inBounds forwardEnv (session forwardReceiver) _ rfl).mp h.1 rfl)
    rintro r rfl
    exact .inl (by decide)
  · intro h
    refine not_bufferFits forwardEnv forwardReceiver [0, 2, 0, 1, 4, 1] longRest (by decide)
      (by decide) rfl (by decide) ?_ hrest
      ((feed_inBounds forwardEnv (session forwardReceiver) _ rfl).mp h.1 rfl)
    rintro r rfl
    exact .inr (by decide)

end NodeMcu.CompMsg.BufferSafety
