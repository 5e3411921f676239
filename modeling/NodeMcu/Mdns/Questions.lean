import NodeMcu.Mdns.Comparison
import NodeMcu.Mdns.Receive

namespace NodeMcu.Mdns.Questions

open NodeMcu.Lib.Text NodeMcu.Mdns.Names NodeMcu.Mdns.Comparison NodeMcu.Mdns.Receive

structure Question where
  labels : List (List UInt8)
  qryType : UInt16
  qryClass : UInt16
  sized : ∀ l ∈ labels, 1 ≤ l.length ∧ l.length ≤ 63

def word (w : UInt16) : List UInt8 := [UInt8.ofNat (w.toNat / 256), UInt8.ofNat (w.toNat % 256)]

/-- The bit that asks for a unicast reply is not set. -/
def Question.ForGroup (q : Question) : Prop := q.qryClass.toNat &&& 0x8000 = 0

instance (q : Question) : Decidable q.ForGroup := inferInstanceAs (Decidable (_ = _))

/-- Questions one after the other, each with the place where it begins. -/
inductive QuestionsAt (packet : Bytes) : Nat → List (Nat × Question) → Nat → Prop
  | nil {p : Nat} : QuestionsAt packet p [] p
  | cons {p e last : Nat} {q : Question} {rest : List (Nat × Question)}
      (hspells : Spells packet 0x4000 p q.labels) (hends : EndsAt packet p e)
      (hwords : Holds packet e (word q.qryType ++ word q.qryClass))
      (hrest : QuestionsAt packet (e + 4) rest last) : QuestionsAt packet p ((p, q) :: rest) last

/-- A packet of well-formed questions. -/
structure QuestionPacket where
  bytes : List UInt8
  questions : List (Nat × Question)
  counted : (bytes.getD 4 0).toNat * 256 + (bytes.getD 5 0).toNat = questions.length
  placed : QuestionsAt (bytesIn bytes) sizeofDnsHdr questions bytes.length

/-- A question alone, behind the same header but for the count. -/
def QuestionPacket.alone (m : QuestionPacket) (q : Question) : List UInt8 :=
  m.bytes.take 4 ++ [0, 1] ++ (m.bytes.drop 6).take 6 ++
    (encodeLabels q.labels ++ (word q.qryType ++ word q.qryClass))

/-- The memory from a text on. -/
def textBytes (text : List UInt8) (after : Nat → UInt8) : Bytes :=
  fun i => some ((text ++ [0]).getD i (after i))

/-- The names in memory, with whatever is behind them. -/
def namesInMemory (info : Info) (after : NameKind → Nat → UInt8) : Queries where
  serviceType := textBytes dnsSdService (after .serviceType)
  service := textBytes info.serviceNameWithSuffix (after .service)
  host := textBytes (tmpName info.hostName mdnsLocal) (after .host)
  desc := textBytes (tmpName info.hostDesc info.serviceNameWithSuffix) (after .desc)

/-- The buffer with a packet, and what an earlier packet has left behind it. -/
def buffered (packet : List UInt8) (stale : Nat → UInt8) : Bytes :=
  fun i => some (packet.getD i (stale i))

/-- Each question gets the answer that it gets alone. -/
def Independent (queries : Queries) (stale : Nat → UInt8) (m : QuestionPacket) (port : Nat) :
    Prop :=
  ∃ steps answers,
    mdnsRecv steps queries (buffered m.bytes stale) m.bytes.length port = .ends answers ∧
      ∀ i p q, m.questions[i]? = some (p, q) → ∃ steps' alone,
        mdnsRecv steps' queries (buffered (m.alone q) stale) (m.alone q).length port =
          .ends alone ∧ answers.getD i none = alone.getD 0 none

/-- A packet of this size is not looked at. -/
def Ignored (size : Nat) : Prop :=
  dnsMsgSize < size ∨ size < sizeofDnsHdr + sizeofDnsQuery + sizeofDnsAnswer

instance (size : Nat) : Decidable (Ignored size) := inferInstanceAs (Decidable (_ ∨ _))

/-- The name that a question of a packet is taken for, if it is looked at. -/
def Named (queries : Queries) (stale : Nat → UInt8) (packet : List UInt8) (p : Nat)
    (name : Option NameKind) : Prop :=
  if Ignored packet.length then name = none else Taken queries (buffered packet stale) p name

/-- What makes the answer to the question the same: its name is taken for the same one, or for one
with the same records for its type, and if it is for the asker the earlier questions are, too. -/
def Alike (queries : Queries) (stale : Nat → UInt8) (m : QuestionPacket) (port i p : Nat)
    (q : Question) : Prop :=
  ∃ here own, Named queries stale m.bytes p here ∧
    Named queries stale (m.alone q) sizeofDnsHdr own ∧
    here.map (recordsFor q.qryType.toNat) = own.map (recordsFor q.qryType.toNat) ∧
    (here ≠ none → port = dnsMdnsPort → ¬ q.ForGroup →
      ∀ x ∈ m.questions.take i, ¬ x.2.ForGroup)

section reading

theorem buffered_of_bytesIn (packet : List UInt8) (stale : Nat → UInt8) (i : Nat) (c : UInt8)
    (h : bytesIn packet i = some c) : buffered packet stale i = some c := by
  rw [bytesIn] at h
  rw [buffered, List.getD_eq_getElem?_getD, h]
  rfl

theorem endsAt_buffered (packet : List UInt8) (stale : Nat → UInt8) (p e : Nat)
    (h : EndsAt (bytesIn packet) p e) : EndsAt (buffered packet stale) p e := by
  induction h with
  | pointer hp hc => exact .pointer (buffered_of_bytesIn packet stale _ _ hp) hc
  | zero hp hc => exact .zero (buffered_of_bytesIn packet stale _ _ hp) hc
  | label hp hc _ ih => exact .label (buffered_of_bytesIn packet stale _ _ hp) hc ih

theorem holds_buffered (packet : List UInt8) (stale : Nat → UInt8) (a : Nat) (bytes : List UInt8)
    (h : Holds (bytesIn packet) a bytes) : Holds (buffered packet stale) a bytes := by
  intro i hi
  have hbyte := h i hi
  rw [List.getElem?_eq_getElem hi] at hbyte ⊢
  exact buffered_of_bytesIn packet stale _ _ hbyte

theorem word_length (w : UInt16) : (word w).length = 2 := rfl

theorem readWord_word (m : Bytes) (a : Nat) (w : UInt16) (h : Holds m a (word w)) :
    readWord m a = .ends w.toNat := by
  rw [word, holds_cons, holds_cons] at h
  have hlt := w.toNat_lt
  rw [readWord, readByte, h.1, ends_bind, readByte, h.2.1, ends_bind, pure_eq_ends,
    UInt8.toNat_ofNat', UInt8.toNat_ofNat']
  congr 1
  omega

theorem questionsAt_le (packet : Bytes) (p last : Nat) (qs : List (Nat × Question))
    (h : QuestionsAt packet p qs last) : p + 5 * qs.length ≤ last := by
  induction h with
  | nil => exact Nat.le_refl _
  | cons _ hends _ _ ih =>
    have hgt := endsAt_gt packet _ _ hends
    rw [List.length_cons]
    omega

theorem endsAt_encodeLabels (packet : Bytes) (p : Nat) (labels : List (List UInt8))
    (hsized : ∀ l ∈ labels, 1 ≤ l.length ∧ l.length ≤ 63)
    (h : Holds packet p (encodeLabels labels)) :
    EndsAt packet p (p + (encodeLabels labels).length) := by
  rw [encodeLabels_eq, holds_append, flat_length, holds_cons] at h
  rw [encodeLabels_eq, List.length_append, flat_length, ← Nat.add_assoc]
  exact endsAt_flat packet p _ labels hsized h.1 (.zero h.2.1 (.inl rfl))

theorem holds_bytesIn (before bytes after : List UInt8) :
    Holds (bytesIn (before ++ bytes ++ after)) before.length bytes := by
  intro i hi
  rw [bytesIn, List.append_assoc, List.getElem?_append_right (Nat.le_add_right _ _),
    Nat.add_sub_cancel_left, List.getElem?_append_left hi]

end reading

section loop

variable (queries : Queries) (stale : Nat → UInt8) (port : Nat)

/-- What is left of the asker's address behind some questions. -/
def reply (addr : Bool) (qs : List (Nat × Question)) : Bool :=
  qs.foldl (fun addr x => if port = dnsMdnsPort ∧ x.2.ForGroup then false else addr) addr

theorem reply_eq_true_iff (addr : Bool) (qs : List (Nat × Question)) :
    reply port addr qs = true ↔
      addr = true ∧ (port = dnsMdnsPort → ∀ x ∈ qs, ¬ x.2.ForGroup) := by
  induction qs generalizing addr with
  | nil => simp [reply]
  | cons x qs ih =>
    have hcons : reply port addr (x :: qs) =
        reply port (if port = dnsMdnsPort ∧ x.2.ForGroup then false else addr) qs := rfl
    rw [hcons, ih, List.forall_mem_cons]
    split
    · next h =>
      constructor
      · rintro ⟨h0, -⟩
        cases h0
      · rintro ⟨-, hall⟩
        exact absurd h.2 (hall h.1).1
    · next h =>
      constructor
      · rintro ⟨haddr, hall⟩
        exact ⟨haddr, fun hport => ⟨fun hx => h ⟨hport, hx⟩, hall hport⟩⟩
      · rintro ⟨haddr, hall⟩
        exact ⟨haddr, fun hport => (hall hport).2⟩

/-- The answers to questions, one after the other. -/
inductive Answers (packet : Bytes) (id : Nat) :
    Bool → List (Nat × Question) → List (Option Answer) → Prop
  | nil {addr : Bool} : Answers packet id addr [] []
  | cons {addr : Bool} {p : Nat} {q : Question} {rest : List (Nat × Question)}
      {answers : List (Option Answer)} {name : Option NameKind} (h : Taken queries packet p name)
      (hrest : Answers packet id (reply port addr [(p, q)]) rest answers) :
      Answers packet id addr ((p, q) :: rest)
        (name.map (fun name => ⟨id, recordsFor q.qryType.toNat name, reply port addr [(p, q)]⟩) ::
          answers)

theorem readWords (m : Bytes) (e : Nat) (q : Question)
    (h : Holds m e (word q.qryType ++ word q.qryClass)) :
    readWord m e = .ends q.qryType.toNat ∧ readWord m (e + 2) = .ends q.qryClass.toNat := by
  rw [holds_append, word_length] at h
  exact ⟨readWord_word m e _ h.1, readWord_word m (e + 2) _ h.2⟩

/-- The loop over the questions of a packet. -/
theorem questionLoop_iff (packet : List UInt8) (id p last : Nat) (qs : List (Nat × Question))
    (h : QuestionsAt (bytesIn packet) p qs last) (hlast : last = packet.length) (addr : Bool)
    (answers : List (Option Answer)) :
    (∃ steps, questionLoop steps queries (buffered packet stale) id packet.length port qs.length p
      addr = .ends answers) ↔
      Answers queries port (buffered packet stale) id addr qs answers := by
  induction h generalizing addr answers with
  | nil =>
    constructor
    · rintro ⟨steps, hrun⟩
      obtain rfl := Run.ends.inj hrun
      exact .nil
    · intro hanswers
      cases hanswers
      exact ⟨0, rfl⟩
  | @cons p e last q rest hspells hends hwords hrest ih =>
    have hgt := endsAt_gt _ _ _ hends
    have hle := questionsAt_le _ _ _ _ hrest
    have hlen := mdnsNamelen_of_endsAt _ p e (packet.length - p)
      (endsAt_buffered packet stale p e hends)
    rw [if_pos (by omega)] at hlen
    have hplace : ((p : Int) + ((e - p : Nat) : Int)).toNat = e := by omega
    obtain ⟨htype, hclass⟩ := readWords _ e q (holds_buffered packet stale e _ hwords)
    have hreply : (if port = dnsMdnsPort ∧ q.qryClass.toNat &&& 0x8000 = 0 then false else addr) =
        reply port addr [(p, q)] := rfl
    have hloop : ∀ steps, questionLoop steps queries (buffered packet stale) id packet.length port
        ((p, q) :: rest).length p addr =
          handleQuestion steps queries (buffered packet stale) p q.qryType.toNat >>= fun records =>
            questionLoop steps queries (buffered packet stale) id packet.length port rest.length
              (e + 4) (reply port addr [(p, q)]) >>= fun more =>
                .ends (records.map (fun records =>
                  (⟨id, records, reply port addr [(p, q)]⟩ : Answer)) :: more) := by
      intro steps
      rw [List.length_cons, questionLoop, if_pos (by omega), hlen, ends_bind]
      dsimp only
      rw [hplace, htype, ends_bind, hclass, ends_bind, hreply]
      rfl
    constructor
    · rintro ⟨steps, hrun⟩
      rw [hloop] at hrun
      obtain ⟨records, hrecords, hrun⟩ := (bind_ends_iff _ _ _).mp hrun
      obtain ⟨more, hmore, hrun⟩ := (bind_ends_iff _ _ _).mp hrun
      obtain ⟨name, hname, rfl⟩ := (handleQuestion_iff queries _ p _ records).mp ⟨steps, hrecords⟩
      rw [← Run.ends.inj hrun, Option.map_map]
      exact .cons hname ((ih hlast _ more).mp ⟨steps, hmore⟩)
    · intro hanswers
      cases hanswers with
      | cons hname hmore =>
        obtain ⟨k, hk⟩ := (handleQuestion_iff queries _ p q.qryType.toNat _).mpr ⟨_, hname, rfl⟩
        obtain ⟨j, hj⟩ := (ih hlast _ _).mpr hmore
        refine ⟨k + j, ?_⟩
        rw [hloop, handleQuestion_le queries _ k (k + j) p _ _ hk (Nat.le_add_right _ _), ends_bind,
          questionLoop_le queries _ j (k + j) _ _ _ _ _ _ _ hj (Nat.le_add_left _ _), ends_bind,
          Option.map_map]
        rfl

theorem answers_getD (packet : Bytes) (id : Nat) (addr : Bool) (qs : List (Nat × Question))
    (answers : List (Option Answer)) (h : Answers queries port packet id addr qs answers)
    (i p : Nat) (q : Question) (hi : qs[i]? = some (p, q)) :
    ∃ name, Taken queries packet p name ∧ answers.getD i none =
      name.map fun name =>
        ⟨id, recordsFor q.qryType.toNat name, reply port addr (qs.take (i + 1))⟩ := by
  induction h generalizing i with
  | nil => cases hi
  | @cons addr p' q' rest answers name htaken hrest ih =>
    cases i with
    | zero =>
      obtain ⟨rfl, rfl⟩ := Prod.mk.inj (Option.some.inj hi)
      exact ⟨name, htaken, rfl⟩
    | succ i =>
      obtain ⟨name, hname, hanswer⟩ := ih i hi
      exact ⟨name, hname, hanswer⟩

theorem exists_answers (packet : Bytes) (id : Nat) (addr : Bool) (qs : List (Nat × Question))
    (h : ∀ x ∈ qs, ∃ name, Taken queries packet x.1 name) :
    ∃ answers, Answers queries port packet id addr qs answers := by
  induction qs generalizing addr with
  | nil => exact ⟨[], .nil⟩
  | cons x rest ih =>
    obtain ⟨name, hname⟩ := h x List.mem_cons_self
    obtain ⟨answers, hanswers⟩ := ih (reply port addr [(x.1, x.2)])
      fun y hy => h y (List.mem_cons_of_mem _ hy)
    exact ⟨_, .cons hname hanswers⟩

end loop

section packets

variable (queries : Queries) (stale : Nat → UInt8) (port : Nat)

def headerId (packet : List UInt8) : Nat := (packet.getD 0 0).toNat * 256 + (packet.getD 1 0).toNat

theorem readWord_buffered (packet : List UInt8) (i : Nat) (h : i + 1 < packet.length) :
    readWord (buffered packet stale) i =
      .ends ((packet.getD i 0).toNat * 256 + (packet.getD (i + 1) 0).toNat) := by
  have hread : ∀ j, j < packet.length → readByte (buffered packet stale) j =
      .ends (packet.getD j 0) := by
    intro j hj
    rw [readByte, buffered, List.getD_eq_getElem?_getD, List.getD_eq_getElem?_getD,
      List.getElem?_eq_getElem hj]
    rfl
  rw [readWord, hread i (Nat.lt_of_succ_lt h), hread (i + 1) h]
  rfl

/-- The receive function on a packet of questions. -/
theorem mdnsRecv_iff (m : QuestionPacket) (answers : List (Option Answer)) :
    (∃ steps, mdnsRecv steps queries (buffered m.bytes stale) m.bytes.length port =
      .ends answers) ↔
      if Ignored m.bytes.length then answers = []
      else Answers queries port (buffered m.bytes stale) (headerId m.bytes) true m.questions
        answers := by
  unfold mdnsRecv
  by_cases hbig : dnsMsgSize < m.bytes.length
  · rw [if_pos (.inl hbig)]
    simp only [if_pos hbig, Run.ends.injEq, exists_const, eq_comm]
  · by_cases hsmall : m.bytes.length < sizeofDnsHdr + sizeofDnsQuery + sizeofDnsAnswer
    · rw [if_pos (.inr hsmall)]
      simp only [if_neg hbig, if_pos hsmall, Run.ends.injEq, exists_const, eq_comm]
    · have hnot : ¬ Ignored m.bytes.length := by
        rintro (h | h)
        · exact hbig h
        · exact hsmall h
      have hsize : 26 ≤ m.bytes.length := Nat.not_lt.mp hsmall
      have hmax : m.bytes.length ≤ 512 := Nat.not_lt.mp hbig
      have hcount := questionsAt_le _ _ _ _ m.placed
      have hnumber : ((m.bytes.getD 4 0).toNat * 256 + (m.bytes.getD 5 0).toNat) % 256 =
          m.questions.length := by
        rw [m.counted]
        exact Nat.mod_eq_of_lt (by omega)
      rw [if_neg hnot]
      simp only [if_neg hbig, if_neg hsmall, readWord_buffered stale m.bytes 0 (by omega),
        readWord_buffered stale m.bytes 4 (by omega), ends_bind, hnumber]
      exact questionLoop_iff queries stale port m.bytes (headerId m.bytes) sizeofDnsHdr _
        m.questions m.placed rfl true answers

def QuestionPacket.header (m : QuestionPacket) : List UInt8 :=
  m.bytes.take 4 ++ [0, 1] ++ (m.bytes.drop 6).take 6

theorem QuestionPacket.length_ge (m : QuestionPacket) : 12 ≤ m.bytes.length :=
  Nat.le_trans (Nat.le_add_right _ _) (questionsAt_le _ _ _ _ m.placed)

theorem QuestionPacket.header_length (m : QuestionPacket) : m.header.length = 12 := by
  have := m.length_ge
  simp only [QuestionPacket.header, List.length_append, List.length_take, List.length_drop,
    List.length_cons, List.length_nil]
  omega

theorem QuestionPacket.alone_eq (m : QuestionPacket) (q : Question) :
    m.alone q = m.header ++ (encodeLabels q.labels ++ (word q.qryType ++ word q.qryClass)) := rfl

theorem QuestionPacket.header_getD (m : QuestionPacket) (q : Question) :
    (m.alone q).getD 4 0 = 0 ∧ (m.alone q).getD 5 0 = 1 ∧
      headerId (m.alone q) = headerId m.bytes := by
  have hlen := m.length_ge
  match hbytes : m.bytes, hlen with
  | b₀ :: b₁ :: b₂ :: b₃ :: rest, _ =>
    rw [QuestionPacket.alone, headerId, headerId, hbytes]
    exact ⟨rfl, rfl, rfl⟩

/-- The packet with a question alone. -/
def QuestionPacket.single (m : QuestionPacket) (q : Question) : QuestionPacket where
  bytes := m.alone q
  questions := [(sizeofDnsHdr, q)]
  counted := by
    obtain ⟨h4, h5, -⟩ := m.header_getD q
    rw [h4, h5]
    rfl
  placed := by
    have hheader := m.header_length
    have hholds : Holds (bytesIn (m.alone q)) 12
        (encodeLabels q.labels ++ (word q.qryType ++ word q.qryClass)) := by
      have h := holds_bytesIn m.header
        (encodeLabels q.labels ++ (word q.qryType ++ word q.qryClass)) []
      rwa [List.append_nil, hheader, ← m.alone_eq] at h
    rw [holds_append] at hholds
    have hlength : (m.alone q).length = 12 + (encodeLabels q.labels).length + 4 := by
      rw [m.alone_eq, List.length_append, List.length_append, List.length_append, hheader,
        word_length, word_length]
      omega
    rw [hlength]
    exact .cons (spells_encodeLabels _ _ _ _ q.sized hholds.1)
      (endsAt_encodeLabels _ _ _ q.sized hholds.1) hholds.2 .nil

theorem reply_single (q : Question) :
    reply port true [(sizeofDnsHdr, q)] = true ↔ (port = dnsMdnsPort → ¬ q.ForGroup) := by
  rw [reply_eq_true_iff]
  simp

/-- The reply to a question goes to the asker here and alone, or neither. -/
theorem reply_eq_iff (qs : List (Nat × Question)) (i p : Nat) (q : Question)
    (hi : qs[i]? = some (p, q)) :
    reply port true (qs.take (i + 1)) = reply port true [(sizeofDnsHdr, q)] ↔
      (port = dnsMdnsPort → ¬ q.ForGroup → ∀ x ∈ qs.take i, ¬ x.2.ForGroup) := by
  have hall : reply port true (qs.take (i + 1)) = true ↔ (port = dnsMdnsPort →
      (∀ x ∈ qs.take i, ¬ x.2.ForGroup) ∧ ¬ q.ForGroup) := by
    rw [reply_eq_true_iff, List.take_add_one, hi]
    simp [or_imp, forall_and]
  rw [Bool.eq_iff_iff, hall, reply_single]
  tauto

theorem taken_unique (packet : Bytes) (p : Nat) (a b : Option NameKind)
    (ha : Taken queries packet p a) (hb : Taken queries packet p b) : a = b := by
  have h₁ := not_both queries.serviceType packet p
  have h₂ := not_both queries.service packet p
  have h₃ := not_both queries.host packet p
  have h₄ := not_both queries.desc packet p
  cases ha <;> cases hb <;> first | rfl | (exfalso; tauto)

theorem named_unique (packet : List UInt8) (p : Nat) (a b : Option NameKind)
    (ha : Named queries stale packet p a) (hb : Named queries stale packet p b) : a = b := by
  unfold Named at ha hb
  split at ha
  · next hignored =>
    rw [if_pos hignored] at hb
    rw [ha, hb]
  · next hseen =>
    rw [if_neg hseen] at hb
    exact taken_unique queries _ p a b ha hb

/-- The answer to a question of a packet. -/
theorem answer_named (m : QuestionPacket) (steps : Nat) (answers : List (Option Answer))
    (hrun : mdnsRecv steps queries (buffered m.bytes stale) m.bytes.length port = .ends answers)
    (i p : Nat) (q : Question) (hi : m.questions[i]? = some (p, q)) :
    ∃ name, Named queries stale m.bytes p name ∧ answers.getD i none = name.map fun name =>
      ⟨headerId m.bytes, recordsFor q.qryType.toNat name,
        reply port true (m.questions.take (i + 1))⟩ := by
  have hanswers := (mdnsRecv_iff queries stale port m answers).mp ⟨steps, hrun⟩
  by_cases hignored : Ignored m.bytes.length
  · rw [if_pos hignored] at hanswers
    rw [hanswers]
    refine ⟨none, ?_, rfl⟩
    rw [Named, if_pos hignored]
  · rw [if_neg hignored] at hanswers
    obtain ⟨name, hname, hanswer⟩ := answers_getD queries port _ _ true _ _ hanswers i p q hi
    refine ⟨name, ?_, hanswer⟩
    rw [Named, if_neg hignored]
    exact hname

/-- A packet is handled if each of its questions is taken for a name or for none. -/
theorem exists_run (m : QuestionPacket)
    (h : ∀ x ∈ m.questions, ∃ name, Named queries stale m.bytes x.1 name) :
    ∃ steps answers, mdnsRecv steps queries (buffered m.bytes stale) m.bytes.length port =
      .ends answers := by
  have hrun := fun answers => (mdnsRecv_iff queries stale port m answers).mpr
  by_cases hignored : Ignored m.bytes.length
  · obtain ⟨steps, hsteps⟩ := hrun [] (by rw [if_pos hignored])
    exact ⟨steps, [], hsteps⟩
  · obtain ⟨answers, hanswers⟩ := exists_answers queries port (buffered m.bytes stale)
      (headerId m.bytes) true m.questions (by
        intro x hx
        obtain ⟨name, hname⟩ := h x hx
        rw [Named, if_neg hignored] at hname
        exact ⟨name, hname⟩)
    obtain ⟨steps, hsteps⟩ := hrun answers (by rw [if_neg hignored]; exact hanswers)
    exact ⟨steps, answers, hsteps⟩

/-- Two answers from the names. -/
theorem answers_eq_iff (id t : Nat) (r r' : Bool) (here own : Option NameKind) :
    (here.map fun name => (⟨id, recordsFor t name, r⟩ : Answer)) =
        (own.map fun name => ⟨id, recordsFor t name, r'⟩) ↔
      here.map (recordsFor t) = own.map (recordsFor t) ∧ (here ≠ none → r = r') := by
  cases here with
  | none => cases own <;> simp
  | some here => cases own <;> simp

/-- Where pointers are below 256 a comparison depends on the labels alone. -/
theorem compares_iff_of_near (query packet : Bytes) (p d : Nat) (labels : List (List UInt8))
    (h : Spells packet 256 p labels) (hroot : packet p ≠ some 0) :
    Compares query packet p d ↔
      (comparePlaces query (placesOf 0 labels) = .ends true ∧ d = 0 ∨
        comparePlaces query (placesOf 0 labels) = .ends false ∧ d = 1) := by
  obtain ⟨k, hk⟩ := walk_spells packet p labels h hroot
  have hcompare : ∀ j, mdnsCompareName query packet (k + j) p =
      comparePlaces query (placesOf 0 labels) >>= fun same =>
        if same then .ends 0 else .ends 1 := by
    intro j
    rw [mdnsCompareName, compareLoop_eq, hk j]
    rfl
  constructor
  · rintro ⟨j, hj⟩
    have hmore := compareName_le query packet j (k + j) p d hj (Nat.le_add_left _ _)
    rw [hcompare] at hmore
    obtain ⟨same, hsame, hd⟩ := (bind_ends_iff _ _ _).mp hmore
    cases same with
    | true => exact .inl ⟨hsame, (Run.ends.inj hd).symm⟩
    | false => exact .inr ⟨hsame, (Run.ends.inj hd).symm⟩
  · rintro (⟨hsame, rfl⟩ | ⟨hsame, rfl⟩)
    · exact ⟨k + 0, by rw [hcompare, hsame]; rfl⟩
    · exact ⟨k + 0, by rw [hcompare, hsame]; rfl⟩

/-- A name of labels whose pointers are below 256 is taken for the same name in both packets. -/
theorem taken_iff_of_near (packet packet' : Bytes) (p p' : Nat) (labels : List (List UInt8))
    (name : Option NameKind) (h : Spells packet 256 p labels) (hroot : packet p ≠ some 0)
    (h' : Spells packet' 256 p' labels) (hroot' : packet' p' ≠ some 0) :
    Taken queries packet p name ↔ Taken queries packet' p' name := by
  have hsame : ∀ query d, Compares query packet p d ↔ Compares query packet' p' d := by
    intro query d
    rw [compares_iff_of_near query packet p d labels h hroot,
      compares_iff_of_near query packet' p' d labels h' hroot']
  constructor
  · intro htaken
    cases htaken with
    | serviceType h => exact .serviceType ((hsame _ _).mp h)
    | service h₁ h => exact .service ((hsame _ _).mp h₁) ((hsame _ _).mp h)
    | host h₁ h₂ h => exact .host ((hsame _ _).mp h₁) ((hsame _ _).mp h₂) ((hsame _ _).mp h)
    | desc h₁ h₂ h₃ h =>
      exact .desc ((hsame _ _).mp h₁) ((hsame _ _).mp h₂) ((hsame _ _).mp h₃) ((hsame _ _).mp h)
    | none h₁ h₂ h₃ h =>
      exact .none ((hsame _ _).mp h₁) ((hsame _ _).mp h₂) ((hsame _ _).mp h₃) ((hsame _ _).mp h)
  · intro htaken
    cases htaken with
    | serviceType h => exact .serviceType ((hsame _ _).mpr h)
    | service h₁ h => exact .service ((hsame _ _).mpr h₁) ((hsame _ _).mpr h)
    | host h₁ h₂ h => exact .host ((hsame _ _).mpr h₁) ((hsame _ _).mpr h₂) ((hsame _ _).mpr h)
    | desc h₁ h₂ h₃ h =>
      exact .desc ((hsame _ _).mpr h₁) ((hsame _ _).mpr h₂) ((hsame _ _).mpr h₃) ((hsame _ _).mpr h)
    | none h₁ h₂ h₃ h =>
      exact .none ((hsame _ _).mpr h₁) ((hsame _ _).mpr h₂) ((hsame _ _).mpr h₃) ((hsame _ _).mpr h)

end packets

section cleared

def secondQuestion : Question :=
  ⟨[[0x68, 0x6F], [0x6C, 0x6F, 0x63, 0x61, 0x6C]], 1, 0x8001, by decide⟩

/-- A question for "x" that asks for no unicast reply, and one for "ho.local" that does. -/
def twoQuestions : QuestionPacket where
  bytes := [0, 7, 0, 0, 0, 2, 0, 0, 0, 0, 0, 0, 1, 0x78, 0, 0, 1, 0, 1,
    2, 0x68, 0x6F, 5, 0x6C, 0x6F, 0x63, 0x61, 0x6C, 0, 0, 1, 0x80, 1]
  questions := [(12, ⟨[[0x78]], 1, 1, by decide⟩), (19, secondQuestion)]
  counted := by decide
  placed := by
    refine .cons (e := 15) ?_ ?_ ?_ (.cons (e := 29) ?_ ?_ ?_ .nil)
    · exact .label rfl (by decide) rfl (.root rfl)
    · exact .label rfl (by decide) (.zero rfl (.inl rfl))
    · intro i hi
      match i, hi with
      | 0, _ | 1, _ | 2, _ | 3, _ => rfl
    · exact .label rfl (by decide) rfl (.label rfl (by decide) rfl (.root rfl))
    · exact .label rfl (by decide) (.label rfl (by decide) (.zero rfl (.inl rfl)))
    · intro i hi
      match i, hi with
      | 0, _ | 1, _ | 2, _ | 3, _ => rfl

theorem mdnsRecv_le (queries : Queries) (packet : Bytes) (k j size port : Nat)
    (answers : List (Option Answer)) (h : mdnsRecv k queries packet size port = .ends answers)
    (hle : k ≤ j) : mdnsRecv j queries packet size port = .ends answers := by
  unfold mdnsRecv at h ⊢
  split
  · next hbig => rwa [if_pos hbig] at h
  · next hbig =>
    rw [if_neg hbig] at h
    split
    · next hsmall => rwa [if_pos hsmall] at h
    · next hsmall =>
      rw [if_neg hsmall] at h
      obtain ⟨id, hid, h⟩ := (bind_ends_iff _ _ _).mp h
      obtain ⟨n, hn, h⟩ := (bind_ends_iff _ _ _).mp h
      rw [hid, ends_bind, hn, ends_bind]
      exact questionLoop_le queries packet k j _ _ _ _ _ _ answers h hle

theorem mdnsRecv_unique (queries : Queries) (packet : Bytes) (k j size port : Nat)
    (a b : List (Option Answer)) (ha : mdnsRecv k queries packet size port = .ends a)
    (hb : mdnsRecv j queries packet size port = .ends b) : a = b := by
  have ha := mdnsRecv_le queries packet k (k + j) size port a ha (Nat.le_add_right _ _)
  have hb := mdnsRecv_le queries packet j (k + j) size port b hb (Nat.le_add_left _ _)
  exact Run.ends.inj (ha.symm.trans hb)

def registered : Queries :=
  namesInMemory ⟨bytesOf "ho", bytesOf "d", bytesOf "_s._tcp.local"⟩ fun _ _ => 0

end cleared

end NodeMcu.Mdns.Questions
