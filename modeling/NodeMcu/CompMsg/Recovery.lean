import NodeMcu.CompMsg.Reception

namespace NodeMcu.CompMsg.Recovery

open NodeMcu.Lib.Memory NodeMcu.Lib.Run
open NodeMcu.CompMsg.Codes NodeMcu.CompMsg.View NodeMcu.CompMsg.Headers NodeMcu.CompMsg.Layout
open NodeMcu.CompMsg.Crc NodeMcu.CompMsg.Crypto NodeMcu.CompMsg.BuildMsg
open NodeMcu.CompMsg.Identify NodeMcu.CompMsg.Reception

/-- What an error should leave: the view as it was, and the reassembly as `resetMsgInfo` sets it. -/
structure Recovered (s s' : Receiver) : Prop where
  view : s'.view = s.view
  lgth : s'.received.lgth = 0
  totalLgth : s'.received.totalLgth = 0

theorem checkTotalCrc_received (hdr : HeaderPart) (s : Receiver) :
    (checkTotalCrc hdr s).2.received = s.received := by
  unfold checkTotalCrc
  dsimp only
  split
  · rfl
  · split <;> rfl

theorem decryptReceived_totalLgth (env : Env) (hdr : HeaderPart) (s : Receiver) :
    (decryptReceived env hdr s).2.received.totalLgth = s.received.totalLgth := by
  unfold decryptReceived
  dsimp only
  split
  · split <;> rfl
  · rfl

theorem prepareAnswerMsg_received (env : Env) (s : Receiver) :
    (prepareAnswerMsg env s).2.received = s.received := rfl

theorem storeReceivedMsg_error (env : Env) (hdr : HeaderPart) (s : Receiver) (e : CompMsgErr)
    (h : (storeReceivedMsg env hdr s).1 = .error e) :
    (storeReceivedMsg env hdr s).2.received.totalLgth = s.received.totalLgth := by
  have hd := (handleReceivedHeader_done env hdr s).totalLgth
  unfold storeReceivedMsg at h ⊢
  obtain h1 | ⟨h1, he⟩ := checkRet_eq_error _ _ e h
  · rw [h1, hd]
  rw [h1]
  dsimp only at he ⊢
  split at he
  · cases he
  next hc =>
    rw [if_neg hc]
    obtain h2 | ⟨h2, he⟩ := checkRet_eq_error _ _ e he
    · rw [h2]
      exact hd
    rw [h2]
    obtain h3 | ⟨h3, he⟩ := checkRet_eq_error _ _ e he
    · rw [h3, prepareAnswerMsg_received]
      exact hd
    · cases he

/-- No error exit behind the last byte of a message sets the total length back. -/
theorem handleComplete_error (env : Env) (s : Receiver) (e : CompMsgErr)
    (h : (handleComplete env s).1 = .error e) :
    (handleComplete env s).2.received.totalLgth = s.received.totalLgth := by
  unfold handleComplete at h ⊢
  split at h
  · rfl
  next hdr _ =>
    dsimp only at h ⊢
    have hstore : ∀ (h : (checkRet (checkTotalCrc hdr s) fun s =>
        checkRet (decryptReceived env hdr s) fun s => storeReceivedMsg env hdr s).1 = .error e),
        (checkRet (checkTotalCrc hdr s) fun s => checkRet (decryptReceived env hdr s) fun s =>
          storeReceivedMsg env hdr s).2.received.totalLgth = s.received.totalLgth := by
      intro h
      have hcrc := congrArg Received.totalLgth (checkTotalCrc_received hdr s)
      obtain h1 | ⟨h1, he⟩ := checkRet_eq_error _ _ e h
      · rw [h1, hcrc]
      rw [h1]
      have hdec := decryptReceived_totalLgth env hdr (checkTotalCrc hdr s).2
      obtain h2 | ⟨h2, he⟩ := checkRet_eq_error _ _ e he
      · rw [h2, hdec, hcrc]
      · rw [h2, storeReceivedMsg_error env hdr _ e he, hdec, hcrc]
    split at h
    · exact hstore h
    · exact hstore h
    · exact hstore h
    · cases h
    · cases h
    · rfl

/-- An error of the header leaves the header in the buffer, any other one the total length. -/
theorem handleReceivedPart_error (env : Env) (s : Receiver) (buffer : List UInt8) (e : CompMsgErr)
    (h : (handleReceivedPart env s buffer).1 = .error e) :
    (handleReceivedPart env s buffer).2.1.received.lgth ≠ 0 ∨
      (handleReceivedPart env s buffer).2.1.received.totalLgth ≠ 0 := by
  induction buffer generalizing s with
  | nil => cases h
  | cons c cs ih =>
    by_cases hh : s.received.lgth + 1 = env.infos.headerLgth
    · have hs := (getHeaderIndex_same env.infos (storeByte s c)).lgth
      rw [handleReceivedPart_header env s c cs hh] at h ⊢
      dsimp only at h ⊢
      split at h
      · rw [hs, storeByte_lgth]
        exact .inl (Nat.succ_ne_zero _)
      · split at h
        next ht =>
          rw [if_pos ht, handleComplete_error env _ e h]
          exact .inr (by omega)
        next ht =>
          rw [if_neg ht]
          exact ih _ h
    · by_cases ht : s.received.lgth + 1 = s.received.totalLgth
      · rw [handleReceivedPart_complete env s c cs hh ht] at h ⊢
        rw [handleComplete_error env _ e h, storeByte_totalLgth]
        exact .inr (by omega)
      · rw [handleReceivedPart_quiet_cons env s c cs hh ht] at h ⊢
        exact ih _ h

theorem error_not_recovered (env : Env) (s : Receiver) (buffer : List UInt8) (e : CompMsgErr)
    (h : (handleReceivedPart env s buffer).1 = .error e) :
    ¬ Recovered s (handleReceivedPart env s buffer).2.1 := by
  intro hr
  cases handleReceivedPart_error env s buffer e h with
  | inl hl => exact hl hr.lgth
  | inr ht => exact ht hr.totalLgth

/-- One entry for the messages from 1 to 2, of any length. -/
def forwardInfos : MsgHeaderInfos :=
  ⟨[.u16Dst, .u16Src, .u16TotalLgth], 6, [⟨1, 2, 0, 0, 'N', 'U', 0, []⟩]⟩

def forwardEnv : Env :=
  ⟨forwardInfos, ⟨fun _ => true, fun _ => none, fun _ => none⟩, ⟨fun _ => 0, fun _ => 0⟩,
    fun _ => .ok (), .ok (), 0⟩

def forwardReceiver : Receiver := newReceiver ⟨fun _ => 0, 0, false, 0⟩

def foreignHeader : List UInt8 := [0, 9, 0, 1, 0, 8]

def forwardedMsg : List UInt8 := [0, 2, 0, 1, 0, 8, 7, 7]

/-- The message that follows a foreign header is lost, and its first bytes pass for the rest of the
foreign message. -/
theorem foreignHeader_not_recovered :
    let failed := handleReceivedPart forwardEnv forwardReceiver foreignHeader
    failed.1 = .error .headerNotFound ∧ ¬ Recovered forwardReceiver failed.2.1 ∧
      (handleReceivedPart forwardEnv forwardReceiver forwardedMsg).2.1.handled =
        [.forwarded forwardedMsg] ∧
      (handleReceivedPart forwardEnv failed.2.1 forwardedMsg).2.1.handled =
        [.forwarded [0, 9, 0, 1, 0, 8, 0, 2]] := by
  refine ⟨by decide, ?_, by decide, by decide⟩
  intro h
  have hl :
      (handleReceivedPart forwardEnv forwardReceiver foreignHeader).2.1.received.lgth = 6 := by
    decide
  have h0 := h.lgth
  rw [hl] at h0
  cases h0

theorem foreignHeader_error :
    ¬ Recovered forwardReceiver
      (handleReceivedPart forwardEnv forwardReceiver foreignHeader).2.1 :=
  error_not_recovered forwardEnv forwardReceiver foreignHeader .headerNotFound (by decide)

/-- A receiver that has passed both lengths stores what comes and never handles a message again. -/
theorem never_handles (env : Env) (s : Receiver) (buffers : List (List UInt8))
    (hh : env.infos.headerLgth ≤ s.received.lgth)
    (ht : s.received.totalLgth ≤ s.received.lgth) :
    (run (feed env) (session s) buffers).receiver.handled = s.handled := by
  have hrun := preserved (feed env)
    (fun x => x.crashed = false ∧ env.infos.headerLgth ≤ x.receiver.received.lgth ∧
      x.receiver.received.totalLgth ≤ x.receiver.received.lgth ∧ x.receiver.handled = s.handled)
    ?_ (session s) buffers ⟨rfl, hh, ht, rfl⟩
  · exact hrun.2.2.2
  · intro x buffer hx
    obtain ⟨hc, hxh, hxt, hxs⟩ := hx
    have hq : Quiet env.infos x.receiver buffer.length := by
      intro i hi _
      exact ⟨by omega, by omega⟩
    have hp := handleReceivedPart_all env x.receiver buffer hq
    simp only [feed, hc, hp, Bool.false_eq_true, if_false, storeBytes_lgth, storeBytes_totalLgth,
      storeBytes_handled]
    exact ⟨rfl, by omega, by omega, hxs⟩

/-- A wrong total CRC leaves the view on the receive buffer and the receiver deaf. -/
theorem badTotalCrc_left (env : Env) (s : Receiver) (hdr : HeaderPart) (e : CompMsgErr)
    (hhdr : env.infos.headerParts[s.currPartIdx]? = some hdr)
    (htype : hdr.hdrHandleType = 'G' ∨ hdr.hdrHandleType = 'R' ∨ hdr.hdrHandleType = 'D')
    (hlgth : s.received.lgth = s.received.totalLgth)
    (hh : env.infos.headerLgth ≤ s.received.totalLgth)
    (hcrc : (checkTotalCrc hdr s).1 = .error e) (buffers : List (List UInt8)) :
    (handleComplete env s).1 = .error e ∧
      (handleComplete env s).2.view = some ⟨.receivedBuf, s.received.totalLgth⟩ ∧
      (run (feed env) (session (handleComplete env s).2) buffers).receiver.handled =
        s.handled := by
  have hret : checkRet (checkTotalCrc hdr s) (fun s => checkRet (decryptReceived env hdr s)
      fun s => storeReceivedMsg env hdr s) = (.error e, (checkTotalCrc hdr s).2) := by
    rw [checkRet, hcrc]
  have hc : handleComplete env s = (.error e, (checkTotalCrc hdr s).2) := by
    unfold handleComplete
    rw [hhdr]
    dsimp only
    rcases htype with ht | ht | ht <;> rw [ht] <;> exact hret
  have hr := checkTotalCrc_received hdr s
  have hv : (checkTotalCrc hdr s).2.view = some ⟨.receivedBuf, s.received.totalLgth⟩ ∧
      (checkTotalCrc hdr s).2.handled = s.handled := by
    unfold checkTotalCrc at hcrc ⊢
    dsimp only at hcrc ⊢
    split at hcrc
    · exact ⟨by rw [hlgth], rfl⟩
    · split at hcrc
      · exact ⟨rfl, rfl⟩
      · cases hcrc
  rw [hc]
  refine ⟨rfl, hv.1, ?_⟩
  rw [never_handles env _ buffers (by rw [hr]; omega) (by rw [hr]; omega), hv.2]

end NodeMcu.CompMsg.Recovery
