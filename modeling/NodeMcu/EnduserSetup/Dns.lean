import NodeMcu.Lib.Block
import NodeMcu.Mdns.Questions
import NodeMcu.Mdns.ServiceAnswer

namespace NodeMcu.EnduserSetup.Dns

open NodeMcu.Lib.Block NodeMcu.Lib.Text
open NodeMcu.Mdns.Names NodeMcu.Mdns.Comparison NodeMcu.Mdns.Receive NodeMcu.Mdns.Questions
open NodeMcu.Mdns.ServiceAnswer (Rr RecordsAt Names mdnsAnswer offsetPointer holds_self
  endsAt_pointer names_pointer recordsAt_cons_iff)

/-! ## The name server of the setup network -/

/-- The flags and the counts: one question and one answer. -/
def dnsHeader : List UInt8 := [0x80, 0, 0, 1, 0, 1, 0, 0, 0, 0]

/-- Type and class of the question, then the answer up to its address. -/
def dnsBody : List UInt8 := [0, 1, 0, 1, 0xC0, 0x0C, 0, 1, 0, 1, 0, 0, 0, 0x78, 0, 4]

def stationMode : Nat := 1
def softapMode : Nat := 2

inductive Err
  | outOfMemory | connectionNotFound | unknownError
  deriving DecidableEq

/-- What comes of a packet: a reply that is sent, or an error. A fatal one stops the setup. -/
inductive Outcome
  | reply (bytes : List UInt8)
  | error (err : Err) (fatal : Bool)
  deriving DecidableEq

/-- What `espconn_send` answers. -/
inductive Sent
  | ok | mem | arg | other
  deriving DecidableEq

def Sent.outcome (bytes : List UInt8) : Sent → Outcome
  | .ok => .reply bytes
  | .mem => .error .outOfMemory true
  | .arg => .error .connectionNotFound true
  | .other => .error .unknownError true

/-- What the callback finds: the mode of the interfaces, the address of the access point, the
content of new memory, the address of the asker, and how sending goes. -/
structure World where
  ifMode : Nat
  ipInfo : Nat → Option (Vector UInt8 4)
  malloc : Option (Nat → UInt8)
  hasConnectionInfo : Bool
  send : Sent

/-- With its zero. There is none where the packet has no zero behind its header. -/
def qnameLen (recvData : List UInt8) : Option Nat :=
  if 0 ∈ recvData.drop 12 then some ((cString (recvData.drop 12)).length + 1) else none

def dnsReplyStaticLen : Nat := dnsHeader.length + dnsBody.length + 2 + 4

/-- There is no result where a byte outside a block is read or written. -/
def enduserSetupDnsRecvCallback (w : World) (recvData : List UInt8) : Option Outcome :=
  (qnameLen recvData).bind fun qnameLen =>
    let dnsReplyLen := dnsReplyStaticLen + qnameLen
    if w.ifMode &&& softapMode = 0 then some (.error .unknownError true)
    else
      match w.ipInfo (if w.ifMode = stationMode then 0 else 1) with
      | none => some (.error .unknownError true)
      | some ip =>
        match w.malloc with
        | none => some (.error .outOfMemory false)
        | some junk =>
          (slice recvData 0 2).bind fun id =>
            (slice recvData 12 qnameLen).bind fun qname =>
              (putAll (fresh junk dnsReplyLen) 0 [id, dnsHeader, qname, dnsBody, ip.toList]).map
                fun dnsReply =>
                  if w.hasConnectionInfo then w.send.outcome dnsReply
                  else .error .connectionNotFound true

/-! ## The query and the reply -/

/-- A query: its identifier, the rest of its header, the labels of its name, which have no zero,
and what follows the name. -/
structure Query where
  id : List UInt8
  id_length : id.length = 2
  header : List UInt8
  header_length : header.length = 10
  labels : List (List UInt8)
  sized : ∀ l ∈ labels, 1 ≤ l.length ∧ l.length ≤ 63
  plain : ∀ l ∈ labels, 0 ∉ l
  rest : List UInt8

def Query.bytes (q : Query) : List UInt8 := q.id ++ q.header ++ (encodeLabels q.labels ++ q.rest)

/-- Where the name of a query is asked for: type and class of an address. -/
def Query.asked (q : Query) : Question := ⟨q.labels, 1, 1, q.sized⟩

/-- A reply with the identifier of the query, one question and one record, which take the whole
of it. Both have the name of the query, and the record holds the address. -/
structure Replies (q : Query) (ip : Vector UInt8 4) (reply : List UInt8) : Prop where
  id : reply.take 2 = q.id
  response : readWord (bytesIn reply) 2 = .ends 0x8000
  counts : readWord (bytesIn reply) 4 = .ends 1 ∧ readWord (bytesIn reply) 6 = .ends 1 ∧
    readWord (bytesIn reply) 8 = .ends 0 ∧ readWord (bytesIn reply) 10 = .ends 0
  sections : ∃ (behind : Nat) (r : Rr),
    QuestionsAt (bytesIn reply) 12 [(12, q.asked)] behind ∧
    RecordsAt (bytesIn reply) behind [r] reply.length ∧
    r.type = dnsRrtypeA ∧ r.size = 4 ∧ Names (bytesIn reply) r.place q.labels ∧
    Holds (bytesIn reply) r.data ip.toList

variable (q : Query) (ip : Vector UInt8 4) (w : World)

def replyBytes : List UInt8 :=
  q.id ++ (dnsHeader ++ (encodeLabels q.labels ++ (dnsBody ++ ip.toList)))

theorem length_byte {l : List UInt8} (h : 1 ≤ l.length ∧ l.length ≤ 63) :
    UInt8.ofNat l.length ≠ 0 := by
  intro hzero
  have := toNat_length l h.2
  rw [hzero] at this
  exact absurd this (by change 0 ≠ _; omega)

theorem zero_not_mem_flat : 0 ∉ flat q.labels := by
  rw [flat, List.mem_flatMap]
  rintro ⟨l, hl, hzero⟩
  obtain hzero | hzero := List.mem_cons.mp hzero
  · exact length_byte (q.sized l hl) hzero.symm
  · exact q.plain l hl hzero

theorem drop_query : q.bytes.drop 12 = flat q.labels ++ 0 :: q.rest := by
  have hlength : (q.id ++ q.header).length = 12 := by
    rw [List.length_append, q.id_length, q.header_length]
  rw [Query.bytes, List.drop_left' hlength, encodeLabels_eq, List.append_assoc]
  rfl

theorem qnameLen_query : qnameLen q.bytes = some (encodeLabels q.labels).length := by
  have hzero : 0 ∈ flat q.labels ++ 0 :: q.rest := by simp
  have hname : cString (flat q.labels ++ 0 :: q.rest) = flat q.labels := by
    rw [cString, List.takeWhile_append_of_pos]
    · simp
    · intro c hc
      rw [bne_iff_ne]
      rintro rfl
      exact zero_not_mem_flat q hc
  rw [qnameLen, drop_query, if_pos hzero, hname, encodeLabels_eq, List.length_append]
  rfl

theorem slice_id : slice q.bytes 0 2 = some q.id := by
  rw [slice_of_le, List.drop_zero, Query.bytes, List.append_assoc, List.take_left' q.id_length]
  simp [Query.bytes, q.id_length]

theorem slice_qname :
    slice q.bytes 12 (encodeLabels q.labels).length = some (encodeLabels q.labels) := by
  have hbytes : flat q.labels ++ 0 :: q.rest = encodeLabels q.labels ++ q.rest := by
    simp [encodeLabels_eq]
  rw [slice_of_le, drop_query, hbytes]
  · rw [List.take_left]
  · simp only [Query.bytes, List.length_append, q.id_length, q.header_length]
    omega

theorem putAll_reply (junk : Nat → UInt8) :
    putAll (fresh junk (dnsReplyStaticLen + (encodeLabels q.labels).length)) 0
      [q.id, dnsHeader, encodeLabels q.labels, dnsBody, ip.toList] = some (replyBytes q ip) := by
  have hroom : (fresh junk (dnsReplyStaticLen + (encodeLabels q.labels).length)).length =
      [q.id, dnsHeader, encodeLabels q.labels, dnsBody, ip.toList].flatten.length := by
    simp [dnsReplyStaticLen, dnsHeader, dnsBody, q.id_length]
    omega
  have h := @putAll_exact _ _ [] _ hroom
  simpa [replyBytes] using h

theorem dnsBody_eq :
    dnsBody = word 1 ++ word 1 ++ (offsetPointer 12 ++ mdnsAnswer dnsRrtypeA 1 120 4) := by decide

theorem length_replyBytes : (replyBytes q ip).length = (encodeLabels q.labels).length + 32 := by
  simp [replyBytes, dnsHeader, dnsBody, q.id_length]
  omega

/-- The pieces of the reply where they are. -/
theorem holds_reply :
    Holds (bytesIn (replyBytes q ip)) 2 dnsHeader ∧
      Holds (bytesIn (replyBytes q ip)) 12 (encodeLabels q.labels) ∧
      Holds (bytesIn (replyBytes q ip)) (12 + (encodeLabels q.labels).length) dnsBody ∧
      Holds (bytesIn (replyBytes q ip)) (12 + (encodeLabels q.labels).length + 16) ip.toList := by
  have h := holds_self (replyBytes q ip)
  generalize bytesIn (replyBytes q ip) = m at h
  rw [replyBytes, holds_append, holds_append, holds_append, holds_append, q.id_length] at h
  exact ⟨h.2.1, h.2.2.1, h.2.2.2.1, h.2.2.2.2⟩

/-- The words of the header. -/
theorem header_words {m : Bytes} (h : Holds m 2 dnsHeader) :
    readWord m 2 = .ends 0x8000 ∧ readWord m 4 = .ends 1 ∧ readWord m 6 = .ends 1 ∧
      readWord m 8 = .ends 0 ∧ readWord m 10 = .ends 0 := by
  have hwords : dnsHeader = word 0x8000 ++ (word 1 ++ (word 1 ++ (word 0 ++ word 0))) := by decide
  simp only [hwords, holds_append, word_length] at h
  obtain ⟨hflags, hquestions, hanswers, hauthorities, hmore⟩ := h
  exact ⟨readWord_word m 2 _ hflags, readWord_word m 4 _ hquestions, readWord_word m 6 _ hanswers,
    readWord_word m 8 _ hauthorities, readWord_word m 10 _ hmore⟩

/-- The question, and the record whose name points back to that of the question. -/
theorem sections_of_holds {m : Bytes} (hname : Holds m 12 (encodeLabels q.labels))
    (hbody : Holds m (12 + (encodeLabels q.labels).length) dnsBody)
    (hip : Holds m (12 + (encodeLabels q.labels).length + 16) ip.toList) :
    ∃ (behind : Nat) (r : Rr), QuestionsAt m 12 [(12, q.asked)] behind ∧
      RecordsAt m behind [r] ((encodeLabels q.labels).length + 32) ∧
      r.type = dnsRrtypeA ∧ r.size = 4 ∧ Names m r.place q.labels ∧ Holds m r.data ip.toList := by
  rw [dnsBody_eq, holds_append, holds_append m _ (offsetPointer 12)] at hbody
  obtain ⟨hwords, hpointer, hfixed⟩ := hbody
  have hspells := spells_encodeLabels m 0x4000 12 q.labels q.sized hname
  have hends := endsAt_encodeLabels m 12 q.labels q.sized hname
  refine ⟨12 + (encodeLabels q.labels).length + 4, ⟨12 + (encodeLabels q.labels).length + 4,
    dnsRrtypeA, 12 + (encodeLabels q.labels).length + 4 + 2 + 10, 4⟩, ?_, ?_, rfl, rfl, ?_, hip⟩
  · exact .cons hspells hends hwords .nil
  · have hend := endsAt_pointer m _ 12 (by omega) hpointer
    have hlast : (encodeLabels q.labels).length + 32 =
        12 + (encodeLabels q.labels).length + 4 + 2 + 10 + 4 := by omega
    rw [hlast]
    exact (recordsAt_cons_iff m _ _ _ _ _ _ _ _ _ hend hfixed (by decide) (by omega)).mpr
      ⟨rfl, .nil⟩
  · exact names_pointer m _ 12 _ (by omega) (by dsimp only; omega) hpointer hspells

theorem replies : Replies q ip (replyBytes q ip) := by
  obtain ⟨hheader, hname, hbody, hip⟩ := holds_reply q ip
  obtain ⟨hresponse, hcounts⟩ := header_words hheader
  refine ⟨List.take_left' q.id_length, hresponse, hcounts, ?_⟩
  rw [length_replyBytes]
  exact sections_of_holds q ip hname hbody hip

/-- Every query is answered as long as the access point is there, there is memory and the asker is
known; the reply fills its block exactly and says where the access point is. -/
theorem answers_query :
    ∃ outcome, enduserSetupDnsRecvCallback w q.bytes = some outcome ∧
      (∀ reply, outcome = .reply reply →
        ∃ ip, w.ipInfo 1 = some ip ∧ Replies q ip reply) ∧
      ((∃ reply, outcome = .reply reply) ↔ w.ifMode &&& softapMode ≠ 0 ∧ (w.ipInfo 1).isSome ∧
        w.malloc.isSome ∧ w.hasConnectionInfo = true ∧ w.send = .ok) := by
  rw [enduserSetupDnsRecvCallback, qnameLen_query, Option.bind_some]
  by_cases hmode : w.ifMode &&& softapMode = 0
  · exact ⟨_, if_pos hmode, nofun, by simp [hmode]⟩
  have hstation : w.ifMode ≠ stationMode := fun hstation => by
    rw [hstation] at hmode
    exact hmode rfl
  simp only [if_neg hmode, if_neg hstation]
  cases hip : w.ipInfo 1 with
  | none => exact ⟨_, rfl, nofun, by simp⟩
  | some ip =>
    cases hmem : w.malloc with
    | none => exact ⟨_, rfl, nofun, by simp⟩
    | some junk =>
      simp only [slice_id, slice_qname, Option.bind_some, putAll_reply, Option.map_some]
      refine ⟨_, rfl, ?_, ?_⟩
      · intro reply hreply
        have hbytes : reply = replyBytes q ip := by
          split at hreply
          · cases hsend : w.send <;> rw [hsend] at hreply <;> cases hreply
            rfl
          · cases hreply
        exact ⟨ip, rfl, hbytes ▸ replies q ip⟩
      · cases w.hasConnectionInfo <;> cases w.send <;> simp [Sent.outcome, hmode]

end NodeMcu.EnduserSetup.Dns
