import NodeMcu.Mdns.Names

namespace NodeMcu.Mdns.Receive

open NodeMcu.Lib.Text NodeMcu.Mdns.Names

def dnsMsgSize : Nat := 512
def sizeofDnsHdr : Nat := 12
def sizeofDnsQuery : Nat := 4
def sizeofDnsAnswer : Nat := 10
def dnsRrtypeA : Nat := 1
def dnsRrtypePtr : Nat := 12
def dnsRrtypeTxt : Nat := 16
def dnsRrtypeSrv : Nat := 33
def dnsRrtypeAny : Nat := 255
def dnsMdnsPort : Nat := 5353

/-- The size of `tmpBuf`. -/
def tmpBufSize : Nat := 126

def dnsSdService : List UInt8 := bytesOf "_services._dns-sd._udp.local"
def mdnsLocal : List UInt8 := bytesOf "local"

def strlcpy (src : List UInt8) (size : Nat) : List UInt8 := src.take (size - 1)

def strlcat (dst src : List UInt8) (size : Nat) : List UInt8 :=
  dst ++ src.take (size - 1 - dst.length)

/-- Two texts with a dot between them in `tmpBuf`. -/
def tmpName (a b : List UInt8) : List UInt8 :=
  strlcat (strlcat (strlcpy a tmpBufSize) [dot] tmpBufSize) b tmpBufSize

/-- What is registered. -/
structure Info where
  hostName : List UInt8
  hostDesc : List UInt8
  serviceNameWithSuffix : List UInt8

/-- The names that a question is compared with, each from its first byte on. -/
structure Queries where
  serviceType : Bytes
  service : Bytes
  host : Bytes
  desc : Bytes

/-- The bytes of a list, and none behind them. -/
def bytesIn (bytes : List UInt8) : Bytes := fun i => bytes[i]?

/-- The names with their terminators. -/
def Info.queries (info : Info) : Queries where
  serviceType := bytesIn (dnsSdService ++ [0])
  service := bytesIn (info.serviceNameWithSuffix ++ [0])
  host := bytesIn (tmpName info.hostName mdnsLocal ++ [0])
  desc := bytesIn (tmpName info.hostDesc info.serviceNameWithSuffix ++ [0])

inductive NameKind
  | serviceType
  | service
  | host
  | desc
  deriving DecidableEq

/-- What is sent: the records of one of the senders, or that a name has only others. -/
inductive Records
  | serviceType
  | service
  | hostAddress
  | noRecord (name : NameKind) (actual : Nat)
  deriving DecidableEq

structure Answer where
  id : Nat
  records : Records
  toAsker : Bool
  deriving DecidableEq

def readWord (m : Bytes) (i : Nat) : Run Nat := do
  let hi ← readByte m i
  let lo ← readByte m (i + 1)
  return hi.toNat * 256 + lo.toNat

section code

variable (steps : Nat) (queries : Queries) (packet : Bytes)

/-- Which records a question gets. -/
def handleQuestion (qptr qryType : Nat) : Run (Option Records) := do
  let d ← mdnsCompareName queries.serviceType packet steps qptr
  if d = 0 then
    if qryType = dnsRrtypePtr ∨ qryType = dnsRrtypeAny then return some .serviceType
    else return some (.noRecord .serviceType dnsRrtypePtr)
  else
    let d ← mdnsCompareName queries.service packet steps qptr
    if d = 0 then
      if qryType = dnsRrtypePtr ∨ qryType = dnsRrtypeAny then return some .service
      else return some (.noRecord .service dnsRrtypePtr)
    else
      let d ← mdnsCompareName queries.host packet steps qptr
      if d = 0 then
        if qryType = dnsRrtypeA ∨ qryType = dnsRrtypeAny then return some .hostAddress
        else return some (.noRecord .host dnsRrtypeA)
      else
        let d ← mdnsCompareName queries.desc packet steps qptr
        if d = 0 then
          if qryType = dnsRrtypeTxt ∨ qryType = dnsRrtypeSrv ∨ qryType = dnsRrtypeAny then
            return some .service
          else return some (.noRecord .desc (dnsRrtypeTxt * 256 + dnsRrtypeSrv))
        else return none

/-- The loop over the questions that are left, with what it sends for each of them. The reply goes
to the asker as long as `addr` is not cleared. -/
def questionLoop (id qend port : Nat) : Nat → Nat → Bool → Run (List (Option Answer))
  | 0, _, _ => .ends []
  | n + 1, qptr, addr =>
    if qptr < qend then do
      let namelen ← mdnsNamelen packet qptr (qend - qptr)
      let qry := (qptr + namelen).toNat
      let qryType ← readWord packet qry
      let qryClass ← readWord packet (qry + 2)
      let addr := if port = dnsMdnsPort ∧ qryClass &&& 0x8000 = 0 then false else addr
      let records ← handleQuestion steps queries packet qptr qryType
      let rest ← questionLoop id qend port n (qry + sizeofDnsQuery) addr
      return records.map (fun records => ⟨id, records, addr⟩) :: rest
    else .ends []

/-- The number of questions is kept in a byte. -/
def mdnsRecv (totLen port : Nat) : Run (List (Option Answer)) :=
  if dnsMsgSize < totLen then .ends []
  else if totLen < sizeofDnsHdr + sizeofDnsQuery + sizeofDnsAnswer then .ends []
  else do
    let id ← readWord packet 0
    let nquestions ← readWord packet 4
    questionLoop steps queries packet id totLen port (nquestions % 256) sizeofDnsHdr true

end code

section lengths

/-- Where an encoded name ends: behind a pointer, or behind the first byte that is no length. -/
inductive EndsAt (packet : Bytes) : Nat → Nat → Prop
  | pointer {p : Nat} {c : UInt8} (hp : packet p = some c) (hc : 192 ≤ c.toNat) :
      EndsAt packet p (p + 2)
  | zero {p : Nat} {c : UInt8} (hp : packet p = some c)
      (hc : c.toNat = 0 ∨ 63 < c.toNat ∧ c.toNat < 192) : EndsAt packet p (p + 1)
  | label {p e : Nat} {c : UInt8} (hp : packet p = some c) (hc : 0 < c.toNat ∧ c.toNat ≤ 63)
      (h : EndsAt packet (p + (c.toNat + 1)) e) : EndsAt packet p e

theorem endsAt_gt (packet : Bytes) (p e : Nat) (h : EndsAt packet p e) : p < e := by
  induction h with
  | pointer hp hc => omega
  | zero hp hc => omega
  | label hp hc h ih => omega

theorem endsAt_unique (packet : Bytes) (p e e' : Nat) (h : EndsAt packet p e)
    (h' : EndsAt packet p e') : e = e' := by
  induction h generalizing e' with
  | @pointer p c hp hc =>
    cases h' with
    | pointer => rfl
    | zero hp' hc' =>
      obtain rfl := Option.some.inj (hp.symm.trans hp')
      omega
    | label hp' hc' =>
      obtain rfl := Option.some.inj (hp.symm.trans hp')
      omega
  | @zero p c hp hc =>
    cases h' with
    | zero => rfl
    | pointer hp' hc' =>
      obtain rfl := Option.some.inj (hp.symm.trans hp')
      omega
    | label hp' hc' =>
      obtain rfl := Option.some.inj (hp.symm.trans hp')
      omega
  | @label p e c hp hc h ih =>
    cases h' with
    | pointer hp' hc' =>
      obtain rfl := Option.some.inj (hp.symm.trans hp')
      omega
    | zero hp' hc' =>
      obtain rfl := Option.some.inj (hp.symm.trans hp')
      omega
    | label hp' hc' h' =>
      obtain rfl := Option.some.inj (hp.symm.trans hp')
      exact ih e' h'

theorem endsAt_flat (m : Bytes) (p e : Nat) (labels : List (List UInt8)) (hsized : Sized labels)
    (h : Holds m p (flat labels)) (hend : EndsAt m (p + total labels) e) : EndsAt m p e := by
  induction labels generalizing p with
  | nil => exact hend
  | cons l ls ih =>
    have hl := hsized l List.mem_cons_self
    have hlength := toNat_length l hl.2
    rw [flat_cons, holds_cons, holds_append] at h
    apply EndsAt.label h.1
    · rw [hlength]
      omega
    · rw [hlength]
      have hplace : p + (l.length + 1) = p + 1 + l.length := by omega
      rw [hplace]
      apply ih _ (fun l' h' => hsized l' (List.mem_cons_of_mem _ h')) h.2.2
      rw [total_cons] at hend
      have hplace : p + (l.length + 1 + total ls) = p + 1 + l.length + total ls := by omega
      rwa [hplace] at hend

theorem isLabel_iff (c : UInt8) : c ≠ 0 ∧ c ≤ 63 ↔ 0 < c.toNat ∧ c.toNat ≤ 63 := by
  have hzero : c = 0 ↔ c.toNat = 0 := by
    constructor
    · rintro rfl
      rfl
    · intro h
      exact UInt8.toNat_inj.mp h
  rw [ne_eq, hzero, UInt8.le_iff_toNat_le, Nat.pos_iff_ne_zero]
  rfl

theorem isPointerByte_iff (c : UInt8) : 0xC0 ≤ c ↔ 192 ≤ c.toNat := by
  rw [UInt8.le_iff_toNat_le]
  rfl

/-- The length of a name that ends in the packet, and -1 for one that ends behind it. -/
theorem namelenLoop_of_endsAt (packet : Bytes) (orig maxlen k p e : Nat)
    (h : EndsAt packet p e) (hp : orig ≤ p) (hk : maxlen + 2 ≤ k + (p - orig)) (hpos : 0 < k) :
    namelenLoop packet orig maxlen k p =
      .ends (if e - orig ≤ maxlen then ((e - orig : Nat) : Int) else -1) := by
  induction h generalizing k with
  | @pointer p c hc hpointer =>
    obtain ⟨m, rfl⟩ := Nat.exists_eq_succ_of_ne_zero (Nat.ne_zero_of_lt hpos)
    have hno : ¬ (c ≠ 0 ∧ c ≤ 63) := by
      rw [isLabel_iff]
      omega
    rw [namelenLoop, readByte, hc]
    simp only [ends_bind, if_neg hno, if_pos ((isPointerByte_iff c).mpr hpointer)]
    split
    · next hlt => rw [if_neg (by omega)]
    · next hle => rw [if_pos (by omega)]
  | @zero p c hc hend =>
    obtain ⟨m, rfl⟩ := Nat.exists_eq_succ_of_ne_zero (Nat.ne_zero_of_lt hpos)
    have hno : ¬ (c ≠ 0 ∧ c ≤ 63) := by
      rw [isLabel_iff]
      omega
    have hplain : ¬ 0xC0 ≤ c := by
      rw [isPointerByte_iff]
      omega
    rw [namelenLoop, readByte, hc]
    simp only [ends_bind, if_neg hno, if_neg hplain]
    split
    · next hlt => rw [if_neg (by omega)]
    · next hle => rw [if_pos (by omega)]
  | @label p e c hc hlabel h ih =>
    obtain ⟨m, rfl⟩ := Nat.exists_eq_succ_of_ne_zero (Nat.ne_zero_of_lt hpos)
    have hgt := endsAt_gt packet _ _ h
    rw [namelenLoop, readByte, hc]
    simp only [ends_bind, if_pos ((isLabel_iff c).mpr hlabel)]
    by_cases hlt : maxlen < p - orig
    · rw [if_pos hlt, if_neg (by omega)]
    · rw [if_neg hlt]
      exact ih m (by omega) (by omega) (by omega)

theorem mdnsNamelen_of_endsAt (packet : Bytes) (p e maxlen : Nat) (h : EndsAt packet p e) :
    mdnsNamelen packet p maxlen =
      .ends (if e - p ≤ maxlen then ((e - p : Nat) : Int) else -1) := by
  apply namelenLoop_of_endsAt packet p maxlen _ p e h
  · exact Nat.le_refl _
  · omega
  · omega

/-- If the length is found inside the packet the name ends. -/
theorem endsAt_of_namelenLoop (packet : Bytes) (orig maxlen k p : Nat) (v : Int)
    (hin : ∀ i, packet i ≠ none → i < orig + maxlen)
    (h : namelenLoop packet orig maxlen k p = .ends v) : ∃ e, EndsAt packet p e := by
  induction k generalizing p with
  | zero => cases h
  | succ k ih =>
    rw [namelenLoop, readByte] at h
    cases hc : packet p with
    | none =>
      rw [hc] at h
      cases h
    | some c =>
      rw [hc] at h
      simp only [ends_bind] at h
      have hlt := hin p (by rw [hc]; exact Option.some_ne_none c)
      by_cases hlabel : c ≠ 0 ∧ c ≤ 63
      · rw [if_pos hlabel, if_neg (by omega)] at h
        obtain ⟨e, he⟩ := ih _ h
        exact ⟨e, .label hc ((isLabel_iff c).mp hlabel) he⟩
      · rw [isLabel_iff] at hlabel
        by_cases hpointer : 192 ≤ c.toNat
        · exact ⟨p + 2, .pointer hc hpointer⟩
        · exact ⟨p + 1, .zero hc (by omega)⟩

end lengths

section comparing

/-- The comparisons that are made for a question are decided. -/
def Comparable (queries : Queries) (packet : Bytes) (p : Nat) : Prop :=
  Decided queries.serviceType packet p ∧ (¬ Equals queries.serviceType packet p →
    Decided queries.service packet p ∧ (¬ Equals queries.service packet p →
      Decided queries.host packet p ∧ (¬ Equals queries.host packet p →
        Decided queries.desc packet p)))

/-- Names of a bounded length. -/
structure Bounded (queries : Queries) (bound : Nat) : Prop where
  serviceType : ∀ i, bound ≤ i → queries.serviceType i = none
  service : ∀ i, bound ≤ i → queries.service i = none
  host : ∀ i, bound ≤ i → queries.host i = none
  desc : ∀ i, bound ≤ i → queries.desc i = none

theorem bytesIn_none (bytes : List UInt8) (i : Nat) (h : bytes.length ≤ i) :
    bytesIn bytes i = none := List.getElem?_eq_none h

theorem Info.bounded (info : Info) : ∃ bound, Bounded info.queries bound := by
  refine ⟨(dnsSdService ++ [0]).length + (info.serviceNameWithSuffix ++ [0]).length +
    (tmpName info.hostName mdnsLocal ++ [0]).length +
      (tmpName info.hostDesc info.serviceNameWithSuffix ++ [0]).length, ?_, ?_, ?_, ?_⟩
  · exact fun i hi => bytesIn_none _ i (by omega)
  · exact fun i hi => bytesIn_none _ i (by omega)
  · exact fun i hi => bytesIn_none _ i (by omega)
  · exact fun i hi => bytesIn_none _ i (by omega)

theorem compareName_le (query packet : Bytes) (k j r d : Nat)
    (h : mdnsCompareName query packet k r = .ends d) (hle : k ≤ j) :
    mdnsCompareName query packet j r = .ends d := by
  obtain ⟨i, rfl⟩ := Nat.exists_eq_add_of_le hle
  rw [compareName_add query packet k i r (by rw [h]; exact nofun), h]

/-- With enough steps a comparison gives this. -/
def Compares (query packet : Bytes) (p d : Nat) : Prop :=
  ∃ k, mdnsCompareName query packet k p = .ends d

/-- The first name that the name of a question is taken for. -/
inductive Taken (queries : Queries) (packet : Bytes) (p : Nat) : Option NameKind → Prop
  | serviceType (h : Compares queries.serviceType packet p 0) :
      Taken queries packet p (some .serviceType)
  | service (h₁ : Compares queries.serviceType packet p 1)
      (h : Compares queries.service packet p 0) : Taken queries packet p (some .service)
  | host (h₁ : Compares queries.serviceType packet p 1) (h₂ : Compares queries.service packet p 1)
      (h : Compares queries.host packet p 0) : Taken queries packet p (some .host)
  | desc (h₁ : Compares queries.serviceType packet p 1) (h₂ : Compares queries.service packet p 1)
      (h₃ : Compares queries.host packet p 1) (h : Compares queries.desc packet p 0) :
      Taken queries packet p (some .desc)
  | none (h₁ : Compares queries.serviceType packet p 1) (h₂ : Compares queries.service packet p 1)
      (h₃ : Compares queries.host packet p 1) (h₄ : Compares queries.desc packet p 1) :
      Taken queries packet p none

/-- The records for a type under a name. -/
def recordsFor (qryType : Nat) : NameKind → Records
  | .serviceType =>
    if qryType = dnsRrtypePtr ∨ qryType = dnsRrtypeAny then .serviceType
    else .noRecord .serviceType dnsRrtypePtr
  | .service =>
    if qryType = dnsRrtypePtr ∨ qryType = dnsRrtypeAny then .service
    else .noRecord .service dnsRrtypePtr
  | .host =>
    if qryType = dnsRrtypeA ∨ qryType = dnsRrtypeAny then .hostAddress
    else .noRecord .host dnsRrtypeA
  | .desc =>
    if qryType = dnsRrtypeTxt ∨ qryType = dnsRrtypeSrv ∨ qryType = dnsRrtypeAny then .service
    else .noRecord .desc (dnsRrtypeTxt * 256 + dnsRrtypeSrv)

theorem compareName_cases (query packet : Bytes) (k p d : Nat)
    (h : mdnsCompareName query packet k p = .ends d) : d = 0 ∨ d = 1 := by
  rw [mdnsCompareName, compareLoop_eq] at h
  obtain ⟨same, -, h⟩ := (bind_ends_iff _ _ _).mp h
  cases same with
  | false => exact .inr (Run.ends.inj h).symm
  | true =>
    cases hend : (walk packet k p).ending with
    | root =>
      rw [hend] at h
      exact .inl (Run.ends.inj h).symm
    | refused =>
      rw [hend] at h
      exact .inr (Run.ends.inj h).symm
    | itself | outside part | more =>
      rw [hend] at h
      cases h

theorem compares_of_nonzero (query packet : Bytes) (k p d : Nat)
    (h : mdnsCompareName query packet k p = .ends d) (hne : ¬ d = 0) :
    Compares query packet p 1 := by
  obtain rfl := (compareName_cases query packet k p d h).resolve_left hne
  exact ⟨k, h⟩

theorem ite_pure (c : Prop) [Decidable c] (a b : Records) :
    (if c then (pure (some a) : Run (Option Records)) else pure (some b)) =
      .ends (some (if c then a else b)) := by
  split <;> rfl

/-- One comparison, with what is taken if the names are equal. -/
def askName (query packet : Bytes) (k p : Nat) (taken : Option Records)
    (next : Run (Option Records)) : Run (Option Records) :=
  mdnsCompareName query packet k p >>= fun d => if d = 0 then .ends taken else next

theorem handleQuestion_eq (queries : Queries) (packet : Bytes) (k p t : Nat) :
    handleQuestion k queries packet p t =
      askName queries.serviceType packet k p (some (recordsFor t .serviceType))
        (askName queries.service packet k p (some (recordsFor t .service))
          (askName queries.host packet k p (some (recordsFor t .host))
            (askName queries.desc packet k p (some (recordsFor t .desc)) (.ends none)))) := by
  simp only [handleQuestion, ite_pure]
  rfl

theorem askName_le (query packet : Bytes) (k j p : Nat) (taken x : Option Records)
    (next next' : Run (Option Records)) (hle : k ≤ j) (hnext : next = .ends x → next' = .ends x)
    (h : askName query packet k p taken next = .ends x) :
    askName query packet j p taken next' = .ends x := by
  obtain ⟨d, hd, h⟩ := (bind_ends_iff _ _ _).mp h
  rw [askName, compareName_le query packet k j p d hd hle, ends_bind]
  split
  · next h0 => rwa [if_pos h0] at h
  · next h0 =>
    rw [if_neg h0] at h
    exact hnext h

theorem askName_iff (query packet : Bytes) (p : Nat) (taken x : Option Records)
    (next : Nat → Run (Option Records))
    (hnext : ∀ k j, k ≤ j → next k = .ends x → next j = .ends x) :
    (∃ k, askName query packet k p taken (next k) = .ends x) ↔
      Compares query packet p 0 ∧ x = taken ∨
        Compares query packet p 1 ∧ ∃ k, next k = .ends x := by
  constructor
  · rintro ⟨k, h⟩
    obtain ⟨d, hd, h⟩ := (bind_ends_iff _ _ _).mp h
    by_cases h0 : d = 0
    · subst h0
      exact .inl ⟨⟨k, hd⟩, (Run.ends.inj h).symm⟩
    · rw [if_neg h0] at h
      exact .inr ⟨compares_of_nonzero query packet k p d hd h0, k, h⟩
  · rintro (⟨⟨k, hk⟩, rfl⟩ | ⟨⟨k, hk⟩, j, hj⟩)
    · refine ⟨k, ?_⟩
      rw [askName, hk]
      rfl
    · refine ⟨k + j, ?_⟩
      rw [askName, compareName_le query packet k (k + j) p 1 hk (Nat.le_add_right k j), ends_bind,
        if_neg Nat.one_ne_zero]
      exact hnext j (k + j) (Nat.le_add_left j k) hj

theorem handleQuestion_le (queries : Queries) (packet : Bytes) (k j p t : Nat)
    (x : Option Records) (h : handleQuestion k queries packet p t = .ends x) (hle : k ≤ j) :
    handleQuestion j queries packet p t = .ends x := by
  rw [handleQuestion_eq] at h ⊢
  refine askName_le _ packet k j p _ x _ _ hle ?_ h
  refine askName_le _ packet k j p _ x _ _ hle ?_
  refine askName_le _ packet k j p _ x _ _ hle ?_
  exact askName_le _ packet k j p _ x _ _ hle id

/-- A question gets the records of the name that it is taken for. -/
theorem handleQuestion_iff (queries : Queries) (packet : Bytes) (p t : Nat) (x : Option Records) :
    (∃ k, handleQuestion k queries packet p t = .ends x) ↔
      ∃ name, Taken queries packet p name ∧ x = name.map (recordsFor t) := by
  simp only [handleQuestion_eq]
  rw [askName_iff, askName_iff, askName_iff, askName_iff]
  · constructor
    · rintro (⟨h, rfl⟩ | ⟨h₁, ⟨h, rfl⟩ | ⟨h₂, ⟨h, rfl⟩ | ⟨h₃, ⟨h, rfl⟩ | ⟨h₄, -, hx⟩⟩⟩⟩)
      · exact ⟨some .serviceType, .serviceType h, rfl⟩
      · exact ⟨some .service, .service h₁ h, rfl⟩
      · exact ⟨some .host, .host h₁ h₂ h, rfl⟩
      · exact ⟨some .desc, .desc h₁ h₂ h₃ h, rfl⟩
      · exact ⟨none, .none h₁ h₂ h₃ h₄, (Run.ends.inj hx).symm⟩
    · rintro ⟨name, htaken, rfl⟩
      cases htaken with
      | serviceType h => exact .inl ⟨h, rfl⟩
      | service h₁ h => exact .inr ⟨h₁, .inl ⟨h, rfl⟩⟩
      | host h₁ h₂ h => exact .inr ⟨h₁, .inr ⟨h₂, .inl ⟨h, rfl⟩⟩⟩
      | desc h₁ h₂ h₃ h => exact .inr ⟨h₁, .inr ⟨h₂, .inr ⟨h₃, .inl ⟨h, rfl⟩⟩⟩⟩
      | none h₁ h₂ h₃ h₄ => exact .inr ⟨h₁, .inr ⟨h₂, .inr ⟨h₃, .inr ⟨h₄, 0, rfl⟩⟩⟩⟩
  · exact fun _ _ _ h => h
  · exact fun k j hle => askName_le _ packet k j p _ x _ _ hle id
  · exact fun k j hle => askName_le _ packet k j p _ x _ _ hle
      (askName_le _ packet k j p _ x _ _ hle id)
  · exact fun k j hle => askName_le _ packet k j p _ x _ _ hle
      (askName_le _ packet k j p _ x _ _ hle (askName_le _ packet k j p _ x _ _ hle id))

theorem decided_of_compares (query packet : Bytes) (p d : Nat) (h : Compares query packet p d) :
    Decided query packet p :=
  h.elim fun k hk => decided_of_ends query packet k p d hk

theorem equals_iff_compares (query packet : Bytes) (p : Nat) :
    Equals query packet p ↔ Compares query packet p 0 := by
  constructor
  · rintro ⟨k, hk⟩
    exact ⟨k, (compareName_zero_iff query packet k p).mpr hk⟩
  · rintro ⟨k, hk⟩
    exact ⟨k, (compareName_zero_iff query packet k p).mp hk⟩

/-- What is decided is equal or differs. -/
theorem compares_of_decided (query packet : Bytes) (bound p : Nat)
    (hbound : ∀ i, bound ≤ i → query i = none) (h : Decided query packet p) :
    Compares query packet p 0 ∨ Compares query packet p 1 := by
  obtain ⟨k, d, hd⟩ := ends_of_decided query packet bound p hbound h
  obtain rfl | rfl := compareName_cases query packet k p d hd
  · exact .inl ⟨k, hd⟩
  · exact .inr ⟨k, hd⟩

theorem not_both (query packet : Bytes) (p : Nat) (h : Compares query packet p 1) :
    ¬ Compares query packet p 0 := by
  rintro ⟨j, hj⟩
  obtain ⟨k, hk⟩ := h
  have hk := compareName_le query packet k (k + j) p 1 hk (Nat.le_add_right _ _)
  have hj := compareName_le query packet j (k + j) p 0 hj (Nat.le_add_left _ _)
  exact absurd (Run.ends.inj (hk.symm.trans hj)) Nat.one_ne_zero

/-- A question is taken for a name or for none if its comparisons are decided. -/
theorem taken_iff_comparable (queries : Queries) (packet : Bytes) (bound p : Nat)
    (hbound : Bounded queries bound) :
    (∃ name, Taken queries packet p name) ↔ Comparable queries packet p := by
  unfold Comparable
  simp only [equals_iff_compares]
  constructor
  · rintro ⟨name, htaken⟩
    cases htaken with
    | serviceType h => exact ⟨decided_of_compares _ _ _ _ h, fun hne => absurd h hne⟩
    | service h₁ h =>
      exact ⟨decided_of_compares _ _ _ _ h₁, fun _ => ⟨decided_of_compares _ _ _ _ h,
        fun hne => absurd h hne⟩⟩
    | host h₁ h₂ h =>
      exact ⟨decided_of_compares _ _ _ _ h₁, fun _ => ⟨decided_of_compares _ _ _ _ h₂,
        fun _ => ⟨decided_of_compares _ _ _ _ h, fun hne => absurd h hne⟩⟩⟩
    | desc h₁ h₂ h₃ h =>
      exact ⟨decided_of_compares _ _ _ _ h₁, fun _ => ⟨decided_of_compares _ _ _ _ h₂,
        fun _ => ⟨decided_of_compares _ _ _ _ h₃, fun _ => decided_of_compares _ _ _ _ h⟩⟩⟩
    | none h₁ h₂ h₃ h =>
      exact ⟨decided_of_compares _ _ _ _ h₁, fun _ => ⟨decided_of_compares _ _ _ _ h₂,
        fun _ => ⟨decided_of_compares _ _ _ _ h₃, fun _ => decided_of_compares _ _ _ _ h⟩⟩⟩
  · rintro ⟨h₁, hrest⟩
    obtain h₁ | h₁ := compares_of_decided _ packet bound p hbound.serviceType h₁
    · exact ⟨_, .serviceType h₁⟩
    obtain ⟨h₂, hrest⟩ := hrest (not_both _ packet p h₁)
    obtain h₂ | h₂ := compares_of_decided _ packet bound p hbound.service h₂
    · exact ⟨_, .service h₁ h₂⟩
    obtain ⟨h₃, hrest⟩ := hrest (not_both _ packet p h₂)
    obtain h₃ | h₃ := compares_of_decided _ packet bound p hbound.host h₃
    · exact ⟨_, .host h₁ h₂ h₃⟩
    obtain h₄ | h₄ := compares_of_decided _ packet bound p hbound.desc
      (hrest (not_both _ packet p h₃))
    · exact ⟨_, .desc h₁ h₂ h₃ h₄⟩
    · exact ⟨_, .none h₁ h₂ h₃ h₄⟩

/-- A question is handled if its comparisons are decided. -/
theorem handleQuestion_ends_iff (queries : Queries) (packet : Bytes) (bound p t : Nat)
    (hbound : Bounded queries bound) :
    (∃ k x, handleQuestion k queries packet p t = .ends x) ↔ Comparable queries packet p := by
  rw [← taken_iff_comparable queries packet bound p hbound]
  constructor
  · rintro ⟨k, x, h⟩
    obtain ⟨name, htaken, -⟩ := (handleQuestion_iff queries packet p t x).mp ⟨k, h⟩
    exact ⟨name, htaken⟩
  · rintro ⟨name, htaken⟩
    obtain ⟨k, h⟩ := (handleQuestion_iff queries packet p t _).mpr ⟨name, htaken, rfl⟩
    exact ⟨k, _, h⟩

end comparing

section safety

/-- A received packet is handled, and all that is read for it lies inside it and inside the names
with their terminators. -/
def Safe (info : Info) (packet : List UInt8) (port : Nat) : Prop :=
  ∃ steps answers, mdnsRecv steps info.queries (bytesIn packet) packet.length port = .ends answers

/-- Where the type of a question is read, by the end of its name. The length of a name that ends
behind the packet is -1. -/
def typeAt (size p e : Nat) : Nat := if e ≤ size then e else p - 1

/-- Where the questions of a packet begin, from the one at `start` on. -/
inductive QuestionFrom (packet : List UInt8) : Nat → Nat → Nat → Prop
  | here {start : Nat} : QuestionFrom packet start 0 start
  | next {start k p e : Nat} (h : QuestionFrom packet start k p) (hp : p < packet.length)
      (he : EndsAt (bytesIn packet) p e) :
      QuestionFrom packet start (k + 1) (typeAt packet.length p e + sizeofDnsQuery)

/-- What a question needs: its name ends, its type and class are in the packet, and each comparison
of its name is decided. -/
structure Handled (queries : Queries) (packet : List UInt8) (p : Nat) : Prop where
  copied : ∃ e, EndsAt (bytesIn packet) p e ∧
    typeAt packet.length p e + sizeofDnsQuery ≤ packet.length
  compared : Comparable queries (bytesIn packet) p

def AllHandled (queries : Queries) (packet : List UInt8) (n start : Nat) : Prop :=
  ∀ k p, QuestionFrom packet start k p → k < n → p < packet.length → Handled queries packet p

theorem questionFrom_succ_iff (packet : List UInt8) (start k p : Nat) :
    QuestionFrom packet start (k + 1) p ↔ start < packet.length ∧
      ∃ e, EndsAt (bytesIn packet) start e ∧
        QuestionFrom packet (typeAt packet.length start e + sizeofDnsQuery) k p := by
  constructor
  · intro h
    induction k generalizing p with
    | zero =>
      obtain _ | ⟨h, hp, he⟩ := h
      cases h
      exact ⟨hp, _, he, .here⟩
    | succ k ih =>
      obtain _ | ⟨h, hp, he⟩ := h
      obtain ⟨hstart, e, hends, hfrom⟩ := ih _ h
      exact ⟨hstart, e, hends, .next hfrom hp he⟩
  · rintro ⟨hstart, e, hends, h⟩
    induction h with
    | here => exact .next .here hstart hends
    | next _ hp he ih => exact .next ih hp he

theorem allHandled_succ_iff (queries : Queries) (packet : List UInt8) (n start : Nat)
    (hstart : start < packet.length) :
    AllHandled queries packet (n + 1) start ↔ Handled queries packet start ∧
      ∀ e, EndsAt (bytesIn packet) start e →
        AllHandled queries packet n (typeAt packet.length start e + sizeofDnsQuery) := by
  constructor
  · intro h
    refine ⟨h 0 start .here (Nat.succ_pos n) hstart, ?_⟩
    intro e he k p hfrom hk hp
    exact h (k + 1) p ((questionFrom_succ_iff packet start k p).mpr ⟨hstart, e, he, hfrom⟩)
      (Nat.succ_lt_succ hk) hp
  · rintro ⟨hhere, hrest⟩ k p hfrom hk hp
    cases k with
    | zero =>
      cases hfrom
      exact hhere
    | succ k =>
      obtain ⟨-, e, he, hfrom⟩ := (questionFrom_succ_iff packet start k p).mp hfrom
      exact hrest e he k p hfrom (Nat.lt_of_succ_lt_succ hk) hp

theorem bytesIn_ne_none (bytes : List UInt8) (i : Nat) :
    bytesIn bytes i ≠ none ↔ i < bytes.length := by
  rw [bytesIn, ne_eq, List.getElem?_eq_none_iff, Nat.not_le]

theorem readWord_ends_iff (bytes : List UInt8) (i : Nat) :
    (∃ w, readWord (bytesIn bytes) i = .ends w) ↔ i + 1 < bytes.length := by
  rw [readWord, ← bytesIn_ne_none bytes (i + 1)]
  have hfirst := bytesIn_ne_none bytes i
  have hsecond := bytesIn_ne_none bytes (i + 1)
  unfold readByte
  cases hi : bytesIn bytes i with
  | none =>
    rw [hi] at hfirst
    simp only [outside_bind, reduceCtorEq, exists_false, false_iff, ne_eq, not_not]
    by_contra hne
    have := hsecond.mp hne
    have := hfirst.mpr (by omega)
    exact this rfl
  | some c =>
    cases bytesIn bytes (i + 1) with
    | none => simp
    | some d => simp

/-- The place of a question's type. -/
theorem place_of_length (size p e : Nat) (hp : 0 < p) (he : p < e) (hlt : p < size) :
    ((p : Int) + if e - p ≤ size - p then ((e - p : Nat) : Int) else -1).toNat =
      typeAt size p e := by
  unfold typeAt
  by_cases hle : e ≤ size
  · rw [if_pos hle, if_pos (by omega)]
    omega
  · rw [if_neg hle, if_neg (by omega)]
    omega

theorem questionLoop_le (queries : Queries) (packet : Bytes) (k j id qend port n qptr : Nat)
    (addr : Bool) (answers : List (Option Answer))
    (h : questionLoop k queries packet id qend port n qptr addr = .ends answers) (hle : k ≤ j) :
    questionLoop j queries packet id qend port n qptr addr = .ends answers := by
  induction n generalizing qptr addr answers with
  | zero => exact h
  | succ n ih =>
    rw [questionLoop] at h ⊢
    split
    · next hlt =>
      rw [if_pos hlt] at h
      obtain ⟨v, hv, h⟩ := (bind_ends_iff _ _ _).mp h
      obtain ⟨t, ht, h⟩ := (bind_ends_iff _ _ _).mp h
      obtain ⟨c, hc, h⟩ := (bind_ends_iff _ _ _).mp h
      obtain ⟨x, hx, h⟩ := (bind_ends_iff _ _ _).mp h
      obtain ⟨rest, hrest, h⟩ := (bind_ends_iff _ _ _).mp h
      rw [hv, ends_bind]
      dsimp only
      rw [ht, ends_bind, hc, ends_bind,
        handleQuestion_le queries packet k j qptr t x hx hle, ends_bind, ih _ _ _ hrest, ends_bind]
      exact h
    · next hge => rwa [if_neg hge] at h

/-- The loop ends inside if and only if all its questions are handled. -/
theorem questionLoop_ends_iff (queries : Queries) (packet : List UInt8)
    (bound id port n qptr : Nat) (addr : Bool) (hbound : Bounded queries bound)
    (hpos : 0 < qptr) :
    (∃ steps answers, questionLoop steps queries (bytesIn packet) id packet.length port n qptr
      addr = .ends answers) ↔ AllHandled queries packet n qptr := by
  induction n generalizing qptr addr with
  | zero => exact ⟨fun _ k p _ hk => absurd hk (Nat.not_lt_zero k), fun _ => ⟨0, [], rfl⟩⟩
  | succ n ih =>
    by_cases hlt : qptr < packet.length
    · rw [allHandled_succ_iff queries packet n qptr hlt]
      constructor
      · rintro ⟨steps, answers, h⟩
        rw [questionLoop, if_pos hlt] at h
        obtain ⟨v, hv, h⟩ := (bind_ends_iff _ _ _).mp h
        obtain ⟨t, ht, h⟩ := (bind_ends_iff _ _ _).mp h
        obtain ⟨c, hc, h⟩ := (bind_ends_iff _ _ _).mp h
        obtain ⟨x, hx, h⟩ := (bind_ends_iff _ _ _).mp h
        obtain ⟨rest, hrest, -⟩ := (bind_ends_iff _ _ _).mp h
        have hin : ∀ i, bytesIn packet i ≠ none → i < qptr + (packet.length - qptr) := by
          intro i hi
          have := (bytesIn_ne_none packet i).mp hi
          omega
        obtain ⟨e, he⟩ := endsAt_of_namelenLoop (bytesIn packet) qptr _ _ qptr v hin hv
        have hgt := endsAt_gt _ _ _ he
        have hlen := mdnsNamelen_of_endsAt (bytesIn packet) qptr e (packet.length - qptr) he
        have hplace := place_of_length packet.length qptr e hpos hgt hlt
        rw [← Run.ends.inj (hv.symm.trans hlen)] at hplace
        rw [hplace] at ht hc hrest
        have hcopy := (readWord_ends_iff packet _).mp ⟨c, hc⟩
        refine ⟨⟨⟨e, he, ?_⟩, (handleQuestion_ends_iff queries _ bound qptr t hbound).mp
          ⟨steps, x, hx⟩⟩, ?_⟩
        · rw [sizeofDnsQuery]
          omega
        · intro e' he'
          rw [← endsAt_unique _ _ _ _ he he']
          exact (ih _ _ (by rw [sizeofDnsQuery]; omega)).mp ⟨steps, rest, hrest⟩
      · rintro ⟨⟨⟨e, he, hcopy⟩, hcompared⟩, hrest⟩
        have hgt := endsAt_gt _ _ _ he
        have hlen := mdnsNamelen_of_endsAt (bytesIn packet) qptr e (packet.length - qptr) he
        have hplace := place_of_length packet.length qptr e hpos hgt hlt
        rw [sizeofDnsQuery] at hcopy
        obtain ⟨t, ht⟩ := (readWord_ends_iff packet (typeAt packet.length qptr e)).mpr (by omega)
        obtain ⟨c, hc⟩ :=
          (readWord_ends_iff packet (typeAt packet.length qptr e + 2)).mpr (by omega)
        obtain ⟨k, x, hx⟩ := (handleQuestion_ends_iff queries _ bound qptr t hbound).mpr hcompared
        obtain ⟨j, rest, hj⟩ := (ih (typeAt packet.length qptr e + sizeofDnsQuery)
          (if port = dnsMdnsPort ∧ c &&& 0x8000 = 0 then false else addr)
          (by rw [sizeofDnsQuery]; omega)).mpr (hrest e he)
        refine ⟨k + j, x.map (fun records =>
          ⟨id, records, if port = dnsMdnsPort ∧ c &&& 0x8000 = 0 then false else addr⟩) :: rest, ?_⟩
        rw [questionLoop, if_pos hlt, hlen, ends_bind]
        dsimp only
        rw [hplace, ht, ends_bind, hc, ends_bind,
          handleQuestion_le queries _ k (k + j) qptr t x hx (Nat.le_add_right _ _), ends_bind,
          questionLoop_le queries _ j (k + j) _ _ _ _ _ _ rest hj (Nat.le_add_left _ _), ends_bind]
        rfl
    · constructor
      · rintro - k p hfrom - hp
        cases k with
        | zero =>
          cases hfrom
          exact absurd hp hlt
        | succ k => exact absurd ((questionFrom_succ_iff packet qptr k p).mp hfrom).1 hlt
      · rintro -
        refine ⟨0, [], ?_⟩
        rw [questionLoop, if_neg hlt]

/-- The number of questions is the low byte of the header's. -/
def numQuestions (packet : List UInt8) : Nat := (packet.getD 5 0).toNat

theorem readWord_bytesIn (bytes : List UInt8) (i : Nat) (h : i + 1 < bytes.length) :
    readWord (bytesIn bytes) i =
      .ends ((bytes.getD i 0).toNat * 256 + (bytes.getD (i + 1) 0).toNat) := by
  have hread : ∀ j, j < bytes.length → readByte (bytesIn bytes) j = .ends (bytes.getD j 0) := by
    intro j hj
    rw [readByte, bytesIn, List.getD_eq_getElem?_getD, List.getElem?_eq_getElem hj]
    rfl
  rw [readWord, hread i (Nat.lt_of_succ_lt h), hread (i + 1) h]
  rfl

theorem mdnsRecv_eq (steps : Nat) (queries : Queries) (packet : List UInt8) (port : Nat)
    (hsmall : sizeofDnsHdr + sizeofDnsQuery + sizeofDnsAnswer ≤ packet.length)
    (hbig : packet.length ≤ dnsMsgSize) :
    mdnsRecv steps queries (bytesIn packet) packet.length port =
      questionLoop steps queries (bytesIn packet)
        ((packet.getD 0 0).toNat * 256 + (packet.getD 1 0).toNat) packet.length port
        (numQuestions packet) sizeofDnsHdr true := by
  have hsize : 26 ≤ packet.length := hsmall
  have hnumber : ((packet.getD 4 0).toNat * 256 + (packet.getD 5 0).toNat) % 256 =
      numQuestions packet := by
    have := (packet.getD 5 0).toNat_lt
    rw [numQuestions]
    omega
  rw [mdnsRecv, if_neg (Nat.not_lt.mpr hbig), if_neg (Nat.not_lt.mpr hsmall),
    readWord_bytesIn packet 0 (by omega), ends_bind, readWord_bytesIn packet 4 (by omega),
    ends_bind, hnumber]

/-- The receive function is safe for a packet just if it is out of the sizes or all its questions
are handled. -/
theorem mdnsRecv_safe_iff (info : Info) (packet : List UInt8) (port : Nat) :
    Safe info packet port ↔
      (sizeofDnsHdr + sizeofDnsQuery + sizeofDnsAnswer ≤ packet.length →
        packet.length ≤ dnsMsgSize →
          AllHandled info.queries packet (numQuestions packet) sizeofDnsHdr) := by
  obtain ⟨bound, hbound⟩ := info.bounded
  have hloop := fun id => questionLoop_ends_iff info.queries packet bound id port
    (numQuestions packet) sizeofDnsHdr true hbound (by decide)
  constructor
  · rintro ⟨steps, answers, h⟩ hsmall hbig
    rw [mdnsRecv_eq steps info.queries packet port hsmall hbig] at h
    exact (hloop _).mp ⟨steps, answers, h⟩
  · intro h
    by_cases hbig : dnsMsgSize < packet.length
    · exact ⟨0, [], by rw [mdnsRecv, if_pos hbig]⟩
    · by_cases hsmall : packet.length < sizeofDnsHdr + sizeofDnsQuery + sizeofDnsAnswer
      · exact ⟨0, [], by rw [mdnsRecv, if_neg hbig, if_pos hsmall]⟩
      · obtain ⟨steps, answers, hrun⟩ :=
          (hloop _).mpr (h (Nat.not_lt.mp hsmall) (Nat.not_lt.mp hbig))
        refine ⟨steps, answers, ?_⟩
        rw [mdnsRecv_eq steps info.queries packet port (Nat.not_lt.mp hsmall) (Nat.not_lt.mp hbig)]
        exact hrun

/-- A question whose name is a pointer to itself is compared for ever. -/
theorem pointerToItself_not_safe :
    ¬ Safe ⟨bytesOf "host", bytesOf "desc", bytesOf "_http._tcp.local"⟩
      ([0, 0, 0, 0, 0, 1, 0, 0, 0, 0, 0, 0, 0xC0, 12, 0, 1, 0, 1] ++ List.replicate 8 0) 5353 := by
  rintro ⟨steps, answers, h⟩
  rw [mdnsRecv_eq steps _ _ _ (by decide) (by decide)] at h
  have hone : numQuestions ([0, 0, 0, 0, 0, 1, 0, 0, 0, 0, 0, 0, 0xC0, 12, 0, 1, 0, 1] ++
      List.replicate 8 0) = 1 := rfl
  rw [hone, questionLoop, if_pos (by decide)] at h
  obtain ⟨v, -, h⟩ := (bind_ends_iff _ _ _).mp h
  obtain ⟨t, -, h⟩ := (bind_ends_iff _ _ _).mp h
  obtain ⟨c, -, h⟩ := (bind_ends_iff _ _ _).mp h
  obtain ⟨x, hx, -⟩ := (bind_ends_iff _ _ _).mp h
  obtain ⟨d, hd, -⟩ := (bind_ends_iff _ _ _).mp hx
  rw [mdnsCompareName, sizeofDnsHdr, compareLoop_itself _ _ steps 0 12 0xC0 12 rfl (by decide) rfl
    rfl] at hd
  cases hd

end safety

end NodeMcu.Mdns.Receive
