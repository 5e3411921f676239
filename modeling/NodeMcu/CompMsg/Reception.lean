import NodeMcu.CompMsg.Identify
import NodeMcu.Lib.Run

namespace NodeMcu.CompMsg.Reception

open NodeMcu.Lib.Memory
open NodeMcu.CompMsg.Codes NodeMcu.CompMsg.View NodeMcu.CompMsg.Headers NodeMcu.CompMsg.Layout
open NodeMcu.CompMsg.PrepareMsg NodeMcu.CompMsg.BuildMsg NodeMcu.CompMsg.Identify

theorem checkRet_eq_error (r : Result × Receiver) (next : Receiver → Ret × Receiver)
    (e : CompMsgErr) (h : (checkRet r next).1 = .error e) :
    (checkRet r next).2 = r.2 ∨ (checkRet r next = next r.2 ∧ (next r.2).1 = .error e) := by
  obtain ⟨result, state⟩ := r
  cases result with
  | ok u => exact .inr ⟨rfl, h⟩
  | error e' => exact .inl rfl

theorem checkRet_keeps (P : Receiver → Prop) (r : Result × Receiver)
    (next : Receiver → Ret × Receiver) (h : P r.2) (hn : ∀ s, P s → P (next s).2) :
    P (checkRet r next).2 := by
  obtain ⟨result, state⟩ := r
  cases result with
  | ok u => exact hn state h
  | error e => exact h

/-- What looking at the header of a message leaves alone. -/
structure SameBytes (s s' : Receiver) : Prop where
  buf : s'.received.buf = s.received.buf
  lgth : s'.received.lgth = s.received.lgth
  view : s'.view = s.view
  msg : s'.msg = s.msg
  handled : s'.handled = s.handled

/-- What looking for another entry leaves alone. -/
structure SameMsg (s s' : Receiver) : Prop extends SameBytes s s' where
  totalLgth : s'.received.totalLgth = s.received.totalLgth
  inBounds : s'.inBounds = s.inBounds

theorem SameBytes.trans {s s' s'' : Receiver} (h : SameBytes s s') (h' : SameBytes s' s'') :
    SameBytes s s'' :=
  ⟨h'.buf.trans h.buf, h'.lgth.trans h.lgth, h'.view.trans h.view, h'.msg.trans h.msg,
    h'.handled.trans h.handled⟩

theorem SameMsg.refl (s : Receiver) : SameMsg s s := ⟨⟨rfl, rfl, rfl, rfl, rfl⟩, rfl, rfl⟩

theorem SameMsg.trans {s s' s'' : Receiver} (h : SameMsg s s') (h' : SameMsg s' s'') :
    SameMsg s s'' :=
  ⟨h.toSameBytes.trans h'.toSameBytes, h'.totalLgth.trans h.totalLgth,
    h'.inBounds.trans h.inBounds⟩

theorem nextFittingEntry_same (infos : MsgHeaderInfos) (u16CmdKey : Nat) (s : Receiver) :
    SameMsg s (nextFittingEntry infos u16CmdKey s).2 := by
  unfold nextFittingEntry
  dsimp only
  split
  · exact ⟨⟨rfl, rfl, rfl, rfl, rfl⟩, rfl, rfl⟩
  · exact ⟨⟨rfl, rfl, rfl, rfl, rfl⟩, rfl, rfl⟩

theorem readNumber_same (n : Nat) (set : Received → Nat → Received) (s : Receiver)
    (hb : ∀ r v, (set r v).buf = r.buf) (hl : ∀ r v, (set r v).lgth = r.lgth) :
    SameBytes s (readNumber n set s).2 := by
  unfold readNumber
  dsimp only
  split
  · exact (SameMsg.refl s).toSameBytes
  · exact ⟨hb _ _, hl _ _, rfl, rfl, rfl⟩

theorem readVector_same (n room : Nat) (set : Received → List UInt8 → Received) (s : Receiver)
    (hb : ∀ r v, (set r v).buf = r.buf) (hl : ∀ r v, (set r v).lgth = r.lgth) :
    SameBytes s (readVector n room set s).2 := by
  unfold readVector
  dsimp only
  split
  · exact (SameMsg.refl s).toSameBytes
  · exact ⟨hb _ _, hl _ _, rfl, rfl, rfl⟩

theorem headerField_same (infos : MsgHeaderInfos) (s : Receiver) (e : SeqEntry) :
    SameBytes s (headerField infos s e).2 := by
  cases e with
  | u16Dst | u16Src | u16TotalLgth | u16SrcId | hdrReserve =>
    exact readNumber_same _ _ s (fun _ _ => rfl) (fun _ _ => rfl)
  | u8VectorGuid | u8VectorHdrFiller =>
    exact readVector_same _ _ _ s (fun _ _ => rfl) (fun _ _ => rfl)
  | _ => exact (SameMsg.refl s).toSameBytes

theorem headerFields_same (infos : MsgHeaderInfos) (s : Receiver) (es : List SeqEntry) :
    SameBytes s (headerFields infos s es).2 := by
  induction es generalizing s with
  | nil => exact (SameMsg.refl s).toSameBytes
  | cons e es ih =>
    refine checkErrOK_keeps (SameBytes s) _ _ (headerField_same infos s e) ?_
    intro t ht
    have hstep : SameBytes t { t with seqIdx := t.seqIdx + 1 } := ⟨rfl, rfl, rfl, rfl, rfl⟩
    exact (ht.trans hstep).trans (ih _)

theorem getHeaderIndex_same (infos : MsgHeaderInfos) (s : Receiver) :
    SameBytes s (getHeaderIndexFromHeaderFields infos s).2 := by
  refine checkErrOK_keeps (SameBytes s) _ _ ?_ ?_
  · have hstart : SameBytes s { s with
        received := { s.received with fieldOffset := 0 }, seqIdx := 0 } :=
      ⟨rfl, rfl, rfl, rfl, rfl⟩
    exact hstart.trans (headerFields_same infos _ infos.headerSequence)
  · intro t ht
    have hstep : SameBytes t { t with seqIdxAfterHeader := t.seqIdx, currPartIdx := 0 } :=
      ⟨rfl, rfl, rfl, rfl, rfl⟩
    exact (ht.trans hstep).trans (nextFittingEntry_same infos 0 _).toSameBytes

theorem cmdKeyLoop_same (infos : MsgHeaderInfos) (rounds : Nat) (s : Receiver) :
    SameMsg s (cmdKeyLoop infos rounds s).2 := by
  induction rounds generalizing s with
  | zero => exact SameMsg.refl s
  | succ rounds ih =>
    refine checkErrOK_keeps (SameMsg s) _ _ ?_ ?_
    · have hstep : SameMsg s { s with currPartIdx := (s.currPartIdx + 1) % 256 } :=
        ⟨⟨rfl, rfl, rfl, rfl, rfl⟩, rfl, rfl⟩
      exact hstep.trans (nextFittingEntry_same infos _ _)
    · intro t ht
      split
      · exact ht
      · split
        · exact ht
        · exact ht.trans (ih t)

theorem fieldLoop_same (env : Env) (u8TotalCrc : Bool) (restart : Receiver → Result × Receiver)
    (hr : ∀ s, SameMsg s (restart s).2) (hdr : HeaderPart) (es : List SeqEntry) (result : Result)
    (s : Receiver) : SameMsg s (fieldLoop env u8TotalCrc restart hdr es result s).2 := by
  induction es generalizing result s with
  | nil => exact SameMsg.refl s
  | cons e es ih =>
    have hnext : ∀ (result' : Result) (t : Receiver), SameMsg s t →
        SameMsg s (checkErrOK (result', t) fun t =>
          fieldLoop env u8TotalCrc restart hdr es result' { t with seqIdx := t.seqIdx + 1 }).2 := by
      intro result' t ht
      refine checkErrOK_keeps (SameMsg s) _ _ ht ?_
      intro t ht
      have hstep : SameMsg t { t with seqIdx := t.seqIdx + 1 } :=
        ⟨⟨rfl, rfl, rfl, rfl, rfl⟩, rfl, rfl⟩
      exact (ht.trans hstep).trans (ih _ _)
    unfold fieldLoop
    dsimp only
    split
    · split
      · exact hnext _ _ ⟨⟨rfl, rfl, rfl, rfl, rfl⟩, rfl, rfl⟩
      · refine checkErrOK_keeps (SameMsg s) _ _ ?_ ?_
        · refine SameMsg.trans ?_ (cmdKeyLoop_same env.infos _ _)
          exact ⟨⟨rfl, rfl, rfl, rfl, rfl⟩, rfl, rfl⟩
        · exact fun t ht => ht.trans (hr t)
    all_goals exact hnext _ _ ⟨⟨rfl, rfl, rfl, rfl, rfl⟩, rfl, rfl⟩

theorem entryLoop_same (env : Env) (u8TotalCrc : Bool) (n : Nat) (hdr : HeaderPart)
    (es : List SeqEntry) (result : Result) (s : Receiver) :
    SameMsg s (entryLoop env u8TotalCrc n hdr es result s).2 := by
  induction n generalizing hdr es result s with
  | zero => exact fieldLoop_same env u8TotalCrc _ SameMsg.refl hdr es result s
  | succ n ih =>
    refine fieldLoop_same env u8TotalCrc _ ?_ hdr es result s
    intro t
    split
    · exact SameMsg.refl t
    · refine SameMsg.trans ?_ (ih _ _ _ _)
      exact ⟨⟨rfl, rfl, rfl, rfl, rfl⟩, rfl, rfl⟩

/-- What is still there after the header of a complete message was handled. -/
structure HeaderDone (env : Env) (s s' : Receiver) : Prop where
  buf : s'.received.buf = s.received.buf
  lgth : s'.received.lgth = env.infos.headerLgth
  totalLgth : s'.received.totalLgth = s.received.totalLgth
  handled : s'.handled = s.handled
  inBounds : s'.inBounds = s.inBounds

theorem handleReceivedHeader_done (env : Env) (hdr : HeaderPart) (s : Receiver) :
    HeaderDone env s (handleReceivedHeader env hdr s).2 := by
  refine checkErrOK_keeps (HeaderDone env s) _ _ ?_ ?_
  · have h := entryLoop_same env hdr.u8TotalCrc env.infos.headerParts.length hdr
      (hdr.fieldSequence.drop s.seqIdx) env.unsetResult
      { s with received := { s.received with lgth := env.infos.headerLgth } }
    exact ⟨h.buf, h.lgth, h.totalLgth, h.handled, h.inBounds⟩
  · exact fun t ht => ⟨ht.buf, ht.lgth, ht.totalLgth, ht.handled, ht.inBounds⟩

/-- The receiver with more bytes in its buffer. -/
def storeBytes (s : Receiver) (bytes : List UInt8) : Receiver := bytes.foldl storeByte s

@[simp] theorem storeBytes_nil (s : Receiver) : storeBytes s [] = s := rfl

@[simp] theorem storeBytes_cons (s : Receiver) (c : UInt8) (bytes : List UInt8) :
    storeBytes s (c :: bytes) = storeBytes (storeByte s c) bytes := rfl

theorem storeBytes_append (s : Receiver) (xs ys : List UInt8) :
    storeBytes s (xs ++ ys) = storeBytes (storeBytes s xs) ys := by
  simp [storeBytes]

@[simp] theorem storeByte_lgth (s : Receiver) (c : UInt8) :
    (storeByte s c).received.lgth = s.received.lgth + 1 := rfl

@[simp] theorem storeByte_totalLgth (s : Receiver) (c : UInt8) :
    (storeByte s c).received.totalLgth = s.received.totalLgth := rfl

@[simp] theorem storeByte_handled (s : Receiver) (c : UInt8) :
    (storeByte s c).handled = s.handled := rfl

@[simp] theorem storeByte_inBounds (s : Receiver) (c : UInt8) :
    (storeByte s c).inBounds = (s.inBounds && decide (s.received.lgth < dispBufLgth)) := rfl

@[simp] theorem storeBytes_lgth (s : Receiver) (bytes : List UInt8) :
    (storeBytes s bytes).received.lgth = s.received.lgth + bytes.length := by
  induction bytes generalizing s with
  | nil => rfl
  | cons c bytes ih => simp [ih]; omega

@[simp] theorem storeBytes_totalLgth (s : Receiver) (bytes : List UInt8) :
    (storeBytes s bytes).received.totalLgth = s.received.totalLgth := by
  induction bytes generalizing s with
  | nil => rfl
  | cons c bytes ih => simp [ih]

@[simp] theorem storeBytes_handled (s : Receiver) (bytes : List UInt8) :
    (storeBytes s bytes).handled = s.handled := by
  induction bytes generalizing s with
  | nil => rfl
  | cons c bytes ih => simp [ih]

theorem storeBytes_inBounds (s : Receiver) (bytes : List UInt8) :
    (storeBytes s bytes).inBounds = true ↔
      s.inBounds = true ∧ (bytes = [] ∨ s.received.lgth + bytes.length ≤ dispBufLgth) := by
  induction bytes generalizing s with
  | nil => simp
  | cons c bytes ih =>
    rw [storeBytes_cons, ih]
    have hlen : bytes = [] ∨ 0 < bytes.length := by
      cases bytes with
      | nil => exact .inl rfl
      | cons c' bytes => exact .inr (Nat.zero_lt_succ _)
    cases hlen with
    | inl h => subst h; simp
    | inr h =>
      have hne : bytes ≠ [] := List.ne_nil_of_length_pos h
      simp only [storeByte_inBounds, Bool.and_eq_true, decide_eq_true_eq, storeByte_lgth, hne,
        false_or, List.length_cons, reduceCtorEq]
      constructor
      · rintro ⟨⟨hs, _⟩, hle⟩
        exact ⟨hs, by omega⟩
      · rintro ⟨hs, hle⟩
        exact ⟨⟨hs, by omega⟩, by omega⟩

/-- None of the next `n` bytes ends the header or the message. -/
def Quiet (infos : MsgHeaderInfos) (s : Receiver) (n : Nat) : Prop :=
  ∀ i, s.received.lgth < i → i ≤ s.received.lgth + n →
    i ≠ infos.headerLgth ∧ i ≠ s.received.totalLgth

theorem handleReceivedPart_quiet_cons (env : Env) (s : Receiver) (c : UInt8) (cs : List UInt8)
    (hh : s.received.lgth + 1 ≠ env.infos.headerLgth)
    (ht : s.received.lgth + 1 ≠ s.received.totalLgth) :
    handleReceivedPart env s (c :: cs) = handleReceivedPart env (storeByte s c) cs := by
  rw [handleReceivedPart]
  simp [hh, ht]

theorem handleReceivedPart_quiet (env : Env) (s : Receiver) (xs ys : List UInt8)
    (h : Quiet env.infos s xs.length) :
    handleReceivedPart env s (xs ++ ys) = handleReceivedPart env (storeBytes s xs) ys := by
  induction xs generalizing s with
  | nil => rfl
  | cons c xs ih =>
    have hc := h (s.received.lgth + 1) (by omega) (by simp)
    rw [List.cons_append, handleReceivedPart_quiet_cons env s c _ hc.1 hc.2, storeBytes_cons]
    apply ih
    intro i hi hle
    rw [storeByte_lgth] at hi hle
    exact h i (by omega) (by rw [List.length_cons]; omega)

theorem handleReceivedPart_complete (env : Env) (s : Receiver) (c : UInt8) (cs : List UInt8)
    (hh : s.received.lgth + 1 ≠ env.infos.headerLgth)
    (ht : s.received.lgth + 1 = s.received.totalLgth) :
    handleReceivedPart env s (c :: cs) =
      ((handleComplete env (storeByte s c)).1, (handleComplete env (storeByte s c)).2, cs) := by
  rw [handleReceivedPart]
  simp only [storeByte_lgth, hh, if_false, storeByte_totalLgth]
  simp [ht]

/-- The byte that completes the header. -/
theorem handleReceivedPart_header (env : Env) (s : Receiver) (c : UInt8) (cs : List UInt8)
    (hh : s.received.lgth + 1 = env.infos.headerLgth) :
    handleReceivedPart env s (c :: cs) =
      let h := getHeaderIndexFromHeaderFields env.infos (storeByte s c)
      match h.1 with
      | .error e => (.error e, h.2, cs)
      | .ok _ =>
        if env.infos.headerLgth = h.2.received.totalLgth then
          ((handleComplete env h.2).1, (handleComplete env h.2).2, cs)
        else handleReceivedPart env h.2 cs := by
  have hl := (getHeaderIndex_same env.infos (storeByte s c)).lgth
  rw [storeByte_lgth, hh] at hl
  rw [handleReceivedPart]
  cases hr : (getHeaderIndexFromHeaderFields env.infos (storeByte s c)).1 with
  | error e => simp only [storeByte_lgth, hh, if_true, hr]
  | ok u => simp only [storeByte_lgth, hh, if_true, hr, hl]

/-- A buffer is cut behind its first `k` bytes. -/
theorem exists_cut (b : List UInt8) (k : Nat) (h0 : 0 < k) (hk : k ≤ b.length) :
    ∃ xs c cs, b = xs ++ c :: cs ∧ xs.length + 1 = k ∧ b.take k = xs ++ [c] ∧ b.drop k = cs := by
  have hlt : k - 1 < b.length := by omega
  have hk1 : k - 1 + 1 = k := by omega
  refine ⟨b.take (k - 1), b[k - 1], b.drop k, ?_, ?_, ?_, rfl⟩
  · have hd := List.drop_eq_getElem_cons hlt
    rw [hk1] at hd
    rw [← hd, List.take_append_drop]
  · rw [List.length_take]
    omega
  · have ht := List.take_concat_get' b (k - 1) hlt
    rw [hk1] at ht
    exact ht.symm

/-- A call whose `k`-th byte is the last one of the message in the buffer. -/
theorem handleReceivedPart_ends (env : Env) (s : Receiver) (b : List UInt8) (k : Nat)
    (h0 : 0 < k) (hk : k ≤ b.length) (hq : Quiet env.infos s (k - 1))
    (hh : s.received.lgth + k ≠ env.infos.headerLgth)
    (ht : s.received.lgth + k = s.received.totalLgth) :
    handleReceivedPart env s b = ((handleComplete env (storeBytes s (b.take k))).1,
      (handleComplete env (storeBytes s (b.take k))).2, b.drop k) := by
  obtain ⟨xs, c, cs, hb, hl, htake, hdrop⟩ := exists_cut b k h0 hk
  have hxs : xs.length = k - 1 := by omega
  rw [htake, hdrop, storeBytes_append, hb, handleReceivedPart_quiet env s xs _ (by rwa [hxs])]
  apply handleReceivedPart_complete
  · rw [storeBytes_lgth]; omega
  · rw [storeBytes_lgth, storeBytes_totalLgth]; omega

/-- A call whose `k`-th byte completes the header. -/
theorem handleReceivedPart_parses (env : Env) (s : Receiver) (b : List UInt8) (k : Nat)
    (h0 : 0 < k) (hk : k ≤ b.length) (hq : Quiet env.infos s (k - 1))
    (hh : s.received.lgth + k = env.infos.headerLgth) :
    handleReceivedPart env s b =
      let h := getHeaderIndexFromHeaderFields env.infos (storeBytes s (b.take k))
      match h.1 with
      | .error e => (.error e, h.2, b.drop k)
      | .ok _ =>
        if env.infos.headerLgth = h.2.received.totalLgth then
          ((handleComplete env h.2).1, (handleComplete env h.2).2, b.drop k)
        else handleReceivedPart env h.2 (b.drop k) := by
  obtain ⟨xs, c, cs, hb, hl, htake, hdrop⟩ := exists_cut b k h0 hk
  have hxs : xs.length = k - 1 := by omega
  rw [htake, hdrop, storeBytes_append, hb, handleReceivedPart_quiet env s xs _ (by rwa [hxs])]
  apply handleReceivedPart_header
  rw [storeBytes_lgth]
  omega

/-- A call in which nothing ends. -/
theorem handleReceivedPart_all (env : Env) (s : Receiver) (b : List UInt8)
    (h : Quiet env.infos s b.length) :
    handleReceivedPart env s b = (.ok, storeBytes s b, []) := by
  have hq := handleReceivedPart_quiet env s b [] h
  rwa [List.append_nil] at hq

/-- The receiver of a new dispatcher, which `os_zalloc` has cleared. -/
def newReceiver (counters : Counters) : Receiver where
  received := ⟨0, 0, 0, [], 0, 0, [], 0, 0, 0, 0, Char.ofNat 0, 0, fun _ => 0⟩
  currPartIdx := 0
  seqIdx := 0
  seqIdxAfterHeader := 0
  view := none
  msg := ⟨[], 0, 0, 0, 0, 0, ⟨fun _ => 0, 0⟩, ⟨0, 0, 0, 0, Char.ofNat 0, Char.ofNat 0, 0, []⟩⟩
  fieldsNull := true
  counters := counters
  handled := []
  inBounds := true

/-- Several calls after one another. The bytes that no call looks at are collected. -/
structure Session where
  receiver : Receiver
  crashed : Bool
  unread : List UInt8

def session (s : Receiver) : Session := ⟨s, false, []⟩

def feed (env : Env) (x : Session) (buffer : List UInt8) : Session :=
  if x.crashed then { x with unread := x.unread ++ buffer }
  else
    let r := handleReceivedPart env x.receiver buffer
    ⟨r.2.1, r.1 == .crash, x.unread ++ r.2.2⟩

end NodeMcu.CompMsg.Reception
