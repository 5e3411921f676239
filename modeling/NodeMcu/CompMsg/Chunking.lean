import NodeMcu.CompMsg.Recovery

namespace NodeMcu.CompMsg.Chunking

open NodeMcu.Lib.Memory NodeMcu.Lib.Run
open NodeMcu.CompMsg.Codes NodeMcu.CompMsg.Headers NodeMcu.CompMsg.Identify
open NodeMcu.CompMsg.Reception NodeMcu.CompMsg.Recovery

/-- The receiver after the header of the message `m`. -/
def headerRead (env : Env) (s : Receiver) (m : List UInt8) : Result × Receiver :=
  getHeaderIndexFromHeaderFields env.infos (storeBytes s (m.take env.infos.headerLgth))

/-- A message that a receiver between two messages recognises by its header, with the length that
the header announces. -/
structure WellFormed (env : Env) (s : Receiver) (m : List UInt8) : Prop where
  header : env.infos.headerLgth ≤ m.length
  room : m.length ≤ dispBufLgth
  known : (headerRead env s m).1 = .ok ()
  announced : (headerRead env s m).2.received.totalLgth = m.length

/-- The receiver that waits for the first byte of a message. -/
structure AtStart (env : Env) (s : Receiver) : Prop where
  lgth : s.received.lgth = 0
  totalLgth : s.received.totalLgth = 0
  header : 0 < env.infos.headerLgth

/-- The session after a whole message. -/
def afterMsg (env : Env) (s : Receiver) (m : List UInt8) : Session :=
  let x := handleComplete env
    (storeBytes (headerRead env s m).2 (m.drop env.infos.headerLgth))
  ⟨x.2, x.1 == .crash, []⟩

/-- Every way of cutting the messages gives the same handled messages, and no byte is dropped. -/
def ChunkIndependent (env : Env) (s : Receiver) (ms : List (List UInt8)) : Prop :=
  ∀ cs cs', cs.flatten = ms.flatten → cs'.flatten = ms.flatten →
    (run (feed env) (session s) cs).receiver.handled =
        (run (feed env) (session s) cs').receiver.handled ∧
      (run (feed env) (session s) cs).unread = [] ∧ (run (feed env) (session s) cs').unread = []

theorem handleReceivedPart_nil (env : Env) (s : Receiver) :
    handleReceivedPart env s [] = (.ok, s, []) := rfl

theorem feed_nil (env : Env) (x : Session) : feed env x [] = x := by
  cases x with
  | mk s crashed unread =>
    cases crashed with
    | true => simp [feed]
    | false => simp [feed, handleReceivedPart_nil]

theorem run_empty (env : Env) (x : Session) (cs : List (List UInt8)) (h : cs.flatten = []) :
    run (feed env) x cs = x := by
  induction cs with
  | nil => rfl
  | cons c cs ih =>
    rw [List.flatten_cons, List.append_eq_nil_iff] at h
    rw [h.1, run_cons, feed_nil, ih h.2]

theorem feed_quiet (env : Env) (s : Receiver) (c : List UInt8) (h : Quiet env.infos s c.length) :
    feed env (session s) c = session (storeBytes s c) := by
  rw [session, feed, handleReceivedPart_all env s c h]
  rfl

/-- However the rest of a message is cut behind its header, the message is handled at its end. -/
theorem run_body (env : Env) (s : Receiver) (cs : List (List UInt8))
    (hh : env.infos.headerLgth ≤ s.received.lgth)
    (hlt : s.received.lgth < s.received.totalLgth)
    (hlen : s.received.lgth + cs.flatten.length = s.received.totalLgth) :
    run (feed env) (session s) cs =
      ⟨(handleComplete env (storeBytes s cs.flatten)).2,
        (handleComplete env (storeBytes s cs.flatten)).1 == .crash, []⟩ := by
  induction cs generalizing s with
  | nil =>
    rw [List.flatten_nil, List.length_nil] at hlen
    omega
  | cons c cs ih =>
    rw [List.flatten_cons, List.length_append] at hlen
    rw [run_cons, List.flatten_cons]
    by_cases hc : s.received.lgth + c.length < s.received.totalLgth
    · have hq : Quiet env.infos s c.length := by
        intro i hi hi'
        exact ⟨by omega, by omega⟩
      rw [feed_quiet env s c hq, storeBytes_append]
      apply ih
      · rw [storeBytes_lgth]; omega
      · rw [storeBytes_lgth, storeBytes_totalLgth]; omega
      · rw [storeBytes_lgth, storeBytes_totalLgth]; omega
    · have hnil : cs.flatten = [] := List.length_eq_zero_iff.mp (by omega)
      have hq : Quiet env.infos s (c.length - 1) := by
        intro i hi hi'
        exact ⟨by omega, by omega⟩
      have hf := handleReceivedPart_ends env s c c.length (by omega) (Nat.le_refl _) hq
        (by omega) (by omega)
      rw [List.take_length, List.drop_length] at hf
      rw [run_empty env _ cs hnil, hnil, List.append_nil, session, feed, hf]
      rfl

/-- The piece in which the header ends, and the pieces behind it. -/
theorem run_header (env : Env) (s r : Receiver) (c : List UInt8) (cs : List (List UInt8))
    (hlt : s.received.lgth < env.infos.headerLgth)
    (hstale : s.received.totalLgth ≤ s.received.lgth)
    (hk : env.infos.headerLgth - s.received.lgth ≤ c.length)
    (hparse : getHeaderIndexFromHeaderFields env.infos
      (storeBytes s (c.take (env.infos.headerLgth - s.received.lgth))) = (.ok (), r))
    (hle : env.infos.headerLgth ≤ r.received.totalLgth)
    (hlen : s.received.lgth + (c.length + cs.flatten.length) = r.received.totalLgth) :
    let x := handleComplete env
      (storeBytes r (c.drop (env.infos.headerLgth - s.received.lgth) ++ cs.flatten))
    run (feed env) (session s) (c :: cs) = ⟨x.2, x.1 == .crash, []⟩ := by
  have hq : Quiet env.infos s (env.infos.headerLgth - s.received.lgth - 1) := by
    intro i hi hi'
    exact ⟨by omega, by omega⟩
  have hl : r.received.lgth = env.infos.headerLgth := by
    have hsame := (getHeaderIndex_same env.infos
      (storeBytes s (c.take (env.infos.headerLgth - s.received.lgth)))).lgth
    rw [hparse, storeBytes_lgth, List.length_take, Nat.min_eq_left hk] at hsame
    dsimp only at hsame
    omega
  have hp := handleReceivedPart_parses env s c _ (by omega) hk hq (by omega)
  rw [hparse] at hp
  dsimp only at hp
  by_cases ht : env.infos.headerLgth = r.received.totalLgth
  · have hnil : cs.flatten = [] := List.length_eq_zero_iff.mp (by omega)
    have hdrop : c.drop (env.infos.headerLgth - s.received.lgth) = [] := by
      apply List.drop_of_length_le
      omega
    rw [if_pos ht, hdrop] at hp
    rw [run_cons, run_empty env _ cs hnil, hnil, hdrop, session, feed, hp]
    rfl
  · rw [if_neg ht] at hp
    have hfeed : feed env (session s) c =
        feed env (session r) (c.drop (env.infos.headerLgth - s.received.lgth)) := by
      rw [session, feed, hp]
      rfl
    have hbody := run_body env r (c.drop (env.infos.headerLgth - s.received.lgth) :: cs)
      (by omega) (by omega)
      (by rw [List.flatten_cons, List.length_append, List.length_drop]; omega)
    rw [run_cons, hfeed, ← run_cons, hbody, List.flatten_cons]

/-- The same from a place in the header. -/
theorem run_msg (env : Env) (s r : Receiver) (cs : List (List UInt8))
    (hlt : s.received.lgth < env.infos.headerLgth)
    (hstale : s.received.totalLgth ≤ s.received.lgth)
    (hparse : getHeaderIndexFromHeaderFields env.infos
      (storeBytes s (cs.flatten.take (env.infos.headerLgth - s.received.lgth))) = (.ok (), r))
    (hle : env.infos.headerLgth ≤ r.received.totalLgth)
    (hlen : s.received.lgth + cs.flatten.length = r.received.totalLgth) :
    let x := handleComplete env
      (storeBytes r (cs.flatten.drop (env.infos.headerLgth - s.received.lgth)))
    run (feed env) (session s) cs = ⟨x.2, x.1 == .crash, []⟩ := by
  induction cs generalizing s with
  | nil =>
    rw [List.flatten_nil, List.length_nil] at hlen
    omega
  | cons c cs ih =>
    rw [List.flatten_cons] at hparse hlen ⊢
    rw [List.length_append] at hlen
    by_cases hc : s.received.lgth + c.length < env.infos.headerLgth
    · have hq : Quiet env.infos s c.length := by
        intro i hi hi'
        exact ⟨by omega, by omega⟩
      have hk : env.infos.headerLgth - s.received.lgth - c.length =
          env.infos.headerLgth - (s.received.lgth + c.length) := by omega
      rw [List.take_append, List.take_of_length_le (by omega), storeBytes_append, hk] at hparse
      rw [run_cons, feed_quiet env s c hq, List.drop_append, List.drop_of_length_le (by omega),
        List.nil_append, hk]
      have h := ih (storeBytes s c) (by rw [storeBytes_lgth]; omega)
        (by rw [storeBytes_lgth, storeBytes_totalLgth]; omega) (by rwa [storeBytes_lgth])
        (by rw [storeBytes_lgth]; omega)
      rwa [storeBytes_lgth] at h
    · have hk : env.infos.headerLgth - s.received.lgth ≤ c.length := by omega
      rw [List.take_append_of_le_length hk] at hparse
      rw [List.drop_append_of_le_length hk]
      exact run_header env s r c cs hlt hstale hk hparse hle hlen

/-- However one message is cut, the outcome is the same. -/
theorem run_wellFormed (env : Env) (s : Receiver) (m : List UInt8) (hs : AtStart env s)
    (hw : WellFormed env s m) (cs : List (List UInt8)) (hcs : cs.flatten = m) :
    run (feed env) (session s) cs = afterMsg env s m := by
  have hparse : getHeaderIndexFromHeaderFields env.infos
      (storeBytes s (cs.flatten.take (env.infos.headerLgth - s.received.lgth))) =
        (.ok (), (headerRead env s m).2) := by
    rw [hcs, hs.lgth, Nat.sub_zero, ← hw.known]
    rfl
  have hlt := hs.header
  have hle := hw.header
  have h := run_msg env s (headerRead env s m).2 cs (by rw [hs.lgth]; exact hlt)
    (by rw [hs.totalLgth]; exact Nat.zero_le _) hparse (by rw [hw.announced]; exact hle)
    (by rw [hw.announced, hcs, hs.lgth, Nat.zero_add])
  rwa [hcs, hs.lgth, Nat.sub_zero] at h

/-- A call stops at the end of a message, whatever follows in its buffer. -/
theorem unread_tail (env : Env) (s : Receiver) (m tail : List UInt8) (hs : AtStart env s)
    (hw : WellFormed env s m) : (handleReceivedPart env s (m ++ tail)).2.2 = tail := by
  have hs0 := hs.lgth
  have ht0 := hs.totalLgth
  have hlt := hs.header
  have hle := hw.header
  have hann := hw.announced
  have hlen : (m ++ tail).length = m.length + tail.length := List.length_append
  have hl := (getHeaderIndex_same env.infos (storeBytes s (m.take env.infos.headerLgth))).lgth
  rw [storeBytes_lgth, List.length_take, Nat.min_eq_left hle] at hl
  have hq : Quiet env.infos s (env.infos.headerLgth - 1) := by
    intro i hi hi'
    exact ⟨by omega, by omega⟩
  have hp := handleReceivedPart_parses env s (m ++ tail) env.infos.headerLgth hlt (by omega) hq
    (by omega)
  have hread : getHeaderIndexFromHeaderFields env.infos
      (storeBytes s (m.take env.infos.headerLgth)) = (.ok (), (headerRead env s m).2) := by
    rw [← hw.known]
    rfl
  rw [hread] at hl
  rw [List.take_append_of_le_length hle, List.drop_append_of_le_length hle, hread] at hp
  dsimp only at hp hl
  rw [hp]
  by_cases ht : env.infos.headerLgth = (headerRead env s m).2.received.totalLgth
  · rw [if_pos ht]
    dsimp only
    rw [List.drop_of_length_le (by omega), List.nil_append]
  · rw [if_neg ht]
    have hq' : Quiet env.infos (headerRead env s m).2
        (m.length - env.infos.headerLgth - 1) := by
      intro i hi hi'
      exact ⟨by omega, by omega⟩
    have he := handleReceivedPart_ends env (headerRead env s m).2
      (m.drop env.infos.headerLgth ++ tail) (m.length - env.infos.headerLgth) (by omega)
      (by rw [List.length_append, List.length_drop]; omega) hq' (by omega) (by omega)
    rw [he]
    dsimp only
    rw [List.drop_append_of_le_length (by rw [List.length_drop]),
      List.drop_of_length_le (by rw [List.length_drop]), List.nil_append]

theorem chunkIndependent_iff (env : Env) (s : Receiver) (ms : List (List UInt8))
    (hs : AtStart env s) (hw : ∀ m ∈ ms, WellFormed env s m) :
    ChunkIndependent env s ms ↔ ms.length ≤ 1 := by
  cases ms with
  | nil =>
    refine ⟨fun _ => Nat.zero_le _, fun _ cs cs' hcs hcs' => ?_⟩
    rw [run_empty env _ cs hcs, run_empty env _ cs' hcs']
    exact ⟨rfl, rfl, rfl⟩
  | cons m ms =>
    have hm := hw m List.mem_cons_self
    cases ms with
    | nil =>
      refine ⟨fun _ => Nat.le_refl _, fun _ cs cs' hcs hcs' => ?_⟩
      rw [List.flatten_cons, List.flatten_nil, List.append_nil] at hcs hcs'
      rw [run_wellFormed env s m hs hm cs hcs, run_wellFormed env s m hs hm cs' hcs']
      exact ⟨rfl, rfl, rfl⟩
    | cons m' ms =>
      constructor
      · intro h
        have hm' := hw m' (List.mem_cons_of_mem _ List.mem_cons_self)
        have hone : [(m :: m' :: ms).flatten].flatten = (m :: m' :: ms).flatten := by simp
        have hread : (run (feed env) (session s) [(m :: m' :: ms).flatten]).unread =
            (m' :: ms).flatten := unread_tail env s m (m' :: ms).flatten hs hm
        have hnil := (h _ _ hone hone).2.1
        rw [hread, List.flatten_cons, List.append_eq_nil_iff] at hnil
        have hlen := congrArg List.length hnil.1
        have hpos := hs.header
        have hle := hm'.header
        rw [List.length_nil] at hlen
        omega
      · intro h
        simp at h

theorem forwardedMsg_chunkIndependent :
    ChunkIndependent forwardEnv forwardReceiver [forwardedMsg] :=
  (chunkIndependent_iff forwardEnv forwardReceiver [forwardedMsg] ⟨rfl, rfl, by decide⟩ (by
    intro m hm
    rw [List.mem_singleton.mp hm]
    exact ⟨by decide, by decide, by decide, by decide⟩)).mpr (Nat.le_refl _)

/-- A message without a command part, which its destination makes equal to its own total CRC. -/
def crcMsg : List UInt8 := [0xFE, 0x64, 0, 49, 0, 8, 0xFE, 0x64]

def crcMsgEnv : Env :=
  { forwardEnv with infos := ⟨[.u16Dst, .u16Src, .u16TotalLgth], 6,
    [⟨49, 0xFE64, 0, 0, 'N', 'G', dispTotalCrc,
      [.u16Dst, .u16Src, .u16TotalLgth, .u16TotalCrc]⟩]⟩ }

/-- Two messages in one buffer are one message, in two buffers they are two. -/
theorem crcMsg_not_chunkIndependent :
    (∀ m ∈ [crcMsg, crcMsg], WellFormed crcMsgEnv forwardReceiver m) ∧
      (run (feed crcMsgEnv) (session forwardReceiver) [crcMsg ++ crcMsg]).receiver.handled =
        [.stored crcMsg] ∧
      (run (feed crcMsgEnv) (session forwardReceiver) [crcMsg ++ crcMsg]).unread = crcMsg ∧
      (run (feed crcMsgEnv) (session forwardReceiver) [crcMsg, crcMsg]).receiver.handled =
        [.stored crcMsg, .stored crcMsg] ∧
      ¬ ChunkIndependent crcMsgEnv forwardReceiver [crcMsg, crcMsg] := by
  have h1 :
      (run (feed crcMsgEnv) (session forwardReceiver) [crcMsg ++ crcMsg]).unread = crcMsg := by
    decide +kernel
  refine ⟨?_, by decide +kernel, h1, by decide +kernel, ?_⟩
  · intro m hm
    have hm : m = crcMsg := by simpa using hm
    rw [hm]
    exact ⟨by decide, by decide, by decide, by decide⟩
  · intro h
    have hnil := (h [crcMsg ++ crcMsg] [crcMsg ++ crcMsg] (by decide) (by decide)).2.1
    rw [h1] at hnil
    cases hnil

end NodeMcu.CompMsg.Chunking
