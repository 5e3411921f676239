import NodeMcu.CompMsg.Selection

namespace NodeMcu.CompMsg.Answers

open NodeMcu.Lib.Memory NodeMcu.Lib.FirstIndex
open NodeMcu.CompMsg.Codes NodeMcu.CompMsg.View NodeMcu.CompMsg.Headers NodeMcu.CompMsg.Layout
open NodeMcu.CompMsg.Identify NodeMcu.CompMsg.Reception NodeMcu.CompMsg.Recovery
open NodeMcu.CompMsg.HeaderChecks NodeMcu.CompMsg.Selection

/-- A receiver and the number of calls of `prepareAnswerMsg`. -/
structure Answering where
  receiver : Receiver
  answers : Nat

def retOf : Result → Ret
  | .ok _ => .ok
  | .error e => .error e

/-- `answer` is what `prepareAnswerMsg` does. It may run any callback of the message. -/
def prepareAnswer (answer : Receiver → Ret × Receiver) (a : Answering) : Ret × Answering :=
  let r := answer a.receiver
  (r.1, ⟨r.2, a.answers + 1⟩)

/-- The result of `handleReceivedHeader` is overwritten by that of `prepareAnswerMsg`. -/
def handleReceivedMsg (env : Env) (answer : Receiver → Ret × Receiver) (hdr : HeaderPart)
    (a : Answering) : Ret × Answering :=
  let h := handleReceivedHeader env hdr a.receiver
  checkRetOK (prepareAnswer answer { a with receiver := h.2 }) fun a =>
    (.ok, { a with receiver := resetMsgInfo a.receiver })

/-- `storeReceivedMsg` behind `handleReceivedHeader`. -/
def storeAndAnswer (answer : Receiver → Ret × Receiver) (a : Answering) : Ret × Answering :=
  let r := a.receiver.received
  let s := { a.receiver with
    view := some ⟨.receivedBuf, r.totalLgth⟩
    handled := a.receiver.handled ++ [.stored (read r.buf 0 r.totalLgth)] }
  if !hasFlag s.msg.flags isInitted && !s.msg.fields.isEmpty && s.fieldsNull then
    (.crash, { a with receiver := s })
  else
    checkRetOK (retOf (initReceivedMsg s.msg).1,
        { a with receiver := { s with msg := (initReceivedMsg s.msg).2 } }) fun a =>
      checkRetOK (prepareAnswer answer { a with receiver := deleteMsg a.receiver }) fun a =>
        (.ok, { a with receiver := resetMsgInfo a.receiver })

/-- `storeReceivedMsg` with the calls of `prepareAnswerMsg` counted. -/
def storeReceivedMsgCounted (env : Env) (answer : Receiver → Ret × Receiver) (hdr : HeaderPart)
    (a : Answering) : Ret × Answering :=
  let h := handleReceivedHeader env hdr a.receiver
  checkRetOK (retOf h.1, { a with receiver := h.2 }) (storeAndAnswer answer)

theorem checkRet_eq (r : Result × Receiver) (next : Receiver → Ret × Receiver) (n : Nat)
    (nextCounted : Answering → Ret × Answering)
    (h : ((nextCounted ⟨r.2, n⟩).1, (nextCounted ⟨r.2, n⟩).2.receiver) = next r.2) :
    ((checkRetOK (retOf r.1, (⟨r.2, n⟩ : Answering)) nextCounted).1,
      (checkRetOK (retOf r.1, (⟨r.2, n⟩ : Answering)) nextCounted).2.receiver) =
        checkRet r next := by
  obtain ⟨result, state⟩ := r
  cases result with
  | ok u => exact h
  | error e => rfl

/-- The `prepareAnswerMsg` of the receiver. -/
def ownAnswer (env : Env) (s : Receiver) : Ret × Receiver :=
  (retOf (prepareAnswerMsg env s).1, (prepareAnswerMsg env s).2)

/-- Counting leaves `storeReceivedMsg` as it is. -/
theorem storeReceivedMsgCounted_eq (env : Env) (hdr : HeaderPart) (s : Receiver) (n : Nat) :
    ((storeReceivedMsgCounted env (ownAnswer env) hdr ⟨s, n⟩).1,
      (storeReceivedMsgCounted env (ownAnswer env) hdr ⟨s, n⟩).2.receiver) =
        storeReceivedMsg env hdr s := by
  rw [storeReceivedMsgCounted, storeReceivedMsg]
  apply checkRet_eq
  rw [storeAndAnswer]
  dsimp only
  split
  · rfl
  · refine checkRet_eq (_, _) _ n _ ?_
    exact checkRet_eq (prepareAnswerMsg env _) _ (n + 1) _ rfl

/-- The header of a message passes all checks: those of its entry, or those in front of its
command key and of the first entry behind that fits and has the key. -/
inductive Accepted (env : Env) (hdr : HeaderPart) (s : Receiver) : Prop
  | kept (hkey : .u16CmdKey ∈ fieldsBehind hdr s → receivedKey env s = hdr.hdrU16CmdKey)
      (hpassed : fieldChecks env hdr.u8TotalCrc hdr (messageView s) env.unsetResult
        (fieldsBehind hdr s) = .ok ())
  | found (h : KeySearched env hdr s) (j : Nat) (final : HeaderPart)
      (hj : FirstFrom (fitsKey s.received (receivedKey env s)) env.infos.headerParts
        (s.currPartIdx + 1) j)
      (hfinal : env.infos.headerParts[j]? = some final)
      (hpassed : fieldChecks env hdr.u8TotalCrc final (messageView s) (.ok ())
        (final.fieldSequence.drop (s.seqIdxAfterHeader + 1)) = .ok ())

/-- Nothing but an accepted message is answered, whatever the answer does. -/
structure AnswersAccepted (env : Env) (hdr : HeaderPart) (s : Receiver) : Prop where
  handled : ∀ answer, (handleReceivedMsg env answer hdr ⟨s, 0⟩).2.answers ≠ 0 →
    (handleReceivedHeader env hdr s).1 = .ok () ∧ Accepted env hdr s
  stored : ∀ answer, (storeReceivedMsgCounted env answer hdr ⟨s, 0⟩).2.answers ≠ 0 →
    (handleReceivedHeader env hdr s).1 = .ok () ∧ Accepted env hdr s

/-- `handleReceivedHeader` returns OK if and only if the header is accepted. -/
theorem header_ok_iff (env : Env) (hdr : HeaderPart) (s : Receiver)
    (hlen : env.infos.headerParts.length < 256)
    (hcur : s.currPartIdx < env.infos.headerParts.length) :
    (handleReceivedHeader env hdr s).1 = .ok () ↔ Accepted env hdr s := by
  constructor
  · intro hok
    by_cases hkey : .u16CmdKey ∈ fieldsBehind hdr s → receivedKey env s = hdr.hdrU16CmdKey
    · exact .kept hkey ((header_kept env hdr s hkey).result.symm.trans hok)
    · obtain ⟨hmem, hne⟩ := Classical.not_imp.mp hkey
      cases hpre : fieldChecks env hdr.u8TotalCrc hdr (messageView s) env.unsetResult
          (beforeKey (fieldsBehind hdr s)) with
      | error e =>
        rw [(header_failed env hdr s e hmem hpre).result] at hok
        cases hok
      | ok u =>
        have hs : KeySearched env hdr s := ⟨hmem, hpre, hne⟩
        rcases firstFrom_or_noneFrom (fitsKey s.received (receivedKey env s))
          env.infos.headerParts (s.currPartIdx + 1) with ⟨j, hj⟩ | hnone
        · obtain ⟨final, hfinal, -⟩ := hj.holds
          have hends := header_found env hdr final s j hlen hcur hs hj hfinal
          exact .found hs j final hj hfinal (hends.result.symm.trans hok)
        · rw [header_missing env hdr s hlen hcur hs hnone] at hok
          cases hok
  · intro h
    cases h with
    | kept hkey hpassed => exact (header_kept env hdr s hkey).result.trans hpassed
    | found h j final hj hfinal hpassed =>
      exact (header_found env hdr final s j hlen hcur h hj hfinal).result.trans hpassed

/-- `handleReceivedMsg` answers every message. -/
theorem handleReceivedMsg_answers (env : Env) (answer : Receiver → Ret × Receiver)
    (hdr : HeaderPart) (a : Answering) :
    (handleReceivedMsg env answer hdr a).2.answers = a.answers + 1 := by
  rw [handleReceivedMsg]
  exact checkRetOK_keeps (fun b : Answering => b.answers = a.answers + 1) _ _ rfl fun _ hb => hb

/-- `storeReceivedMsg` answers only behind the check of the header. -/
theorem storeReceivedMsgCounted_answers (env : Env) (answer : Receiver → Ret × Receiver)
    (hdr : HeaderPart) (a : Answering)
    (h : (storeReceivedMsgCounted env answer hdr a).2.answers ≠ a.answers) :
    (handleReceivedHeader env hdr a.receiver).1 = .ok () := by
  revert h
  rw [storeReceivedMsgCounted]
  cases (handleReceivedHeader env hdr a.receiver).1 with
  | ok u => exact fun _ => rfl
  | error e => exact fun h => absurd rfl h

/-- Only accepted messages are answered if and only if the message is accepted. -/
theorem answersAccepted_iff (env : Env) (hdr : HeaderPart) (s : Receiver)
    (hlen : env.infos.headerParts.length < 256)
    (hentry : env.infos.headerParts[s.currPartIdx]? = some hdr) :
    AnswersAccepted env hdr s ↔ Accepted env hdr s := by
  have hcur : s.currPartIdx < env.infos.headerParts.length :=
    (List.getElem?_eq_some_iff.mp hentry).1
  have hok := header_ok_iff env hdr s hlen hcur
  constructor
  · intro h
    refine (h.handled (fun s => (.ok, s)) ?_).2
    rw [handleReceivedMsg_answers]
    exact Nat.succ_ne_zero 0
  · intro h
    exact ⟨fun _ _ => ⟨hok.mpr h, h⟩, fun _ _ => ⟨hok.mpr h, h⟩⟩

/-- A message whose command key is the one of the second entry. -/
theorem keyReceiver_answersAccepted :
    AnswersAccepted (keyEnv [.u16CmdKey]) (keyHdr [.u16CmdKey]) (keyReceiver [.u16CmdKey]) :=
  (answersAccepted_iff (keyEnv [.u16CmdKey]) (keyHdr [.u16CmdKey]) (keyReceiver [.u16CmdKey])
    (by decide) (by decide +kernel)).mpr
      (.found ⟨by decide +kernel, by decide +kernel, by decide +kernel⟩ 1 _
        (firstFrom_of_findIdx _ _ 1 0 (by decide +kernel)) rfl (by decide +kernel))

/-- A table without an entry for the command key of the message. -/
def oneKeyEnv : Env :=
  { forwardEnv with infos := ⟨[.u16Dst, .u16Src, .u16TotalLgth], 6, [keyHdr [.u16CmdKey]]⟩ }

/-- The header is not found, and the message is answered. -/
theorem unknownKey_answered :
    (handleReceivedHeader oneKeyEnv (keyHdr [.u16CmdKey]) (keyReceiver [.u16CmdKey])).1 =
        .error .headerNotFound ∧
      ¬ AnswersAccepted oneKeyEnv (keyHdr [.u16CmdKey]) (keyReceiver [.u16CmdKey]) := by
  have hnot : (handleReceivedHeader oneKeyEnv (keyHdr [.u16CmdKey])
      (keyReceiver [.u16CmdKey])).1 = .error .headerNotFound := by decide +kernel
  refine ⟨hnot, fun h => ?_⟩
  have hok := (h.handled (fun s => (.ok, s)) (by rw [handleReceivedMsg_answers]; decide)).1
  rw [hnot] at hok
  cases hok

end NodeMcu.CompMsg.Answers
