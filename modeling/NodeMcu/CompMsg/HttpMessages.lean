import NodeMcu.CompMsg.HttpSafety

namespace NodeMcu.CompMsg.HttpMessages

open NodeMcu.Lib.Text NodeMcu.CompMsg.HttpParse NodeMcu.CompMsg.HttpLines
open NodeMcu.CompMsg.HttpWalk NodeMcu.CompMsg.HttpSafety

/-! ## Messages -/

def carriageReturn : UInt8 := 0x0D

def lineEnd : List UInt8 := [carriageReturn, newLine]

/-- A header line with a name of the table, in any case. -/
structure HeaderLine where
  entry : HttpHeaderKeyInfo
  mem : entry ∈ httpHeaderKeyInfos
  name : List UInt8
  cased : name.map toLower = (bytesOf entry.key).map toLower
  value : List UInt8
  plain : newLine ∉ value ∧ carriageReturn ∉ value

def HeaderLine.bytes (h : HeaderLine) : List UInt8 := h.name ++ colon :: h.value

/-- The value without the spaces in front. -/
def HeaderLine.text (h : HeaderLine) : List UInt8 := h.value.dropWhile (· == space)

structure Message where
  line : List UInt8
  plain : newLine ∉ line ∧ carriageReturn ∉ line
  headers : List HeaderLine
  body : List UInt8

def headerBytes (headers : List HeaderLine) : List UInt8 :=
  headers.flatMap fun h => h.bytes ++ lineEnd

def Message.bytes (m : Message) : List UInt8 :=
  m.line ++ lineEnd ++ headerBytes m.headers ++ lineEnd ++ m.body

/-- The numbers of the content length headers. -/
def Message.contentLengths (m : Message) : List Nat :=
  (m.headers.filter fun h => h.entry.id = contentLengthId).map fun h => strtoul10 h.text

theorem keys_known : ∀ e ∈ httpHeaderKeyInfos,
    getHttpHeaderKeyIdFromLowerKey ((bytesOf e.key).map toLower) = some e.id := by decide +kernel

theorem keys_plain : ∀ e ∈ httpHeaderKeyInfos, ∀ c ∈ [newLine, colon, 0],
    toLower c ∉ (bytesOf e.key).map toLower := by decide +kernel

namespace HeaderLine

variable (h : HeaderLine)

theorem not_mem_name (c : UInt8) (hc : c ∈ [newLine, colon, 0]) : c ∉ h.name := by
  intro hmem
  apply keys_plain h.entry h.mem c hc
  rw [← h.cased]
  exact List.mem_map_of_mem hmem

theorem known : getHttpHeaderKeyIdFromLowerKey (cString (h.name.map toLower)) =
    some h.entry.id := by
  have hzero : (0 : UInt8) ∉ h.name.map toLower := by
    rw [h.cased]
    exact keys_plain h.entry h.mem 0 (by simp)
  rw [(cString_eq_self _).mpr hzero, h.cased]
  exact keys_known h.entry h.mem

theorem newLine_not_mem : newLine ∉ h.name ++ colon :: (h.value ++ [carriageReturn]) := by
  simp only [List.mem_append, List.mem_cons, List.not_mem_nil, or_false]
  rintro (hmem | hmem | hmem | hmem)
  · exact h.not_mem_name newLine (by simp) hmem
  · cases hmem
  · exact h.plain.1 hmem
  · cases hmem

end HeaderLine

/-! ## The lines of a message -/

def headerLinesOf (headers : List HeaderLine) : List (List UInt8) :=
  headers.map (fun h => h.name ++ colon :: (h.value ++ [carriageReturn])) ++ [[carriageReturn]]

theorem headerBytes_cons (h : HeaderLine) (headers : List HeaderLine) (t : List UInt8) :
    headerBytes (h :: headers) ++ t =
      (h.name ++ colon :: (h.value ++ [carriageReturn])) ++
        newLine :: (headerBytes headers ++ t) := by
  simp [headerBytes, HeaderLine.bytes, lineEnd]

theorem headers_header (headers : List HeaderLine) (body : List UInt8) :
    Header 2 (headerBytes headers ++ (lineEnd ++ body)) (headerLinesOf headers) (some body) := by
  induction headers with
  | nil => exact .ended 2 [carriageReturn] body (by decide) (by decide)
  | cons h headers ih =>
    rw [headerBytes_cons]
    refine .line 2 _ _ _ _ h.newLine_not_mem ?_ ih
    simp only [List.length_append, List.length_cons]
    omega

section Lines

variable (m : Message)

theorem line_newLine : newLine ∉ m.line ++ [carriageReturn] := by
  rw [List.mem_append, List.mem_singleton]
  rintro (hmem | hmem)
  · exact m.plain.1 hmem
  · cases hmem

theorem bytes_eq : m.bytes = (m.line ++ [carriageReturn]) ++ newLine ::
    (headerBytes m.headers ++ (lineEnd ++ m.body)) := by
  simp [Message.bytes, lineEnd]

theorem message_header (hline : 2 ≤ m.line.length) :
    Header 3 m.bytes ((m.line ++ [carriageReturn]) :: headerLinesOf m.headers) (some m.body) := by
  rw [bytes_eq]
  refine .line 3 _ _ _ _ (line_newLine m) ?_ (headers_header m.headers m.body)
  simpa using hline

/-- A first line that is too short is taken for the end of the header. -/
theorem short_header (hline : m.line.length < 2) :
    Header 3 m.bytes [m.line ++ [carriageReturn]]
      (some (headerBytes m.headers ++ (lineEnd ++ m.body))) := by
  rw [bytes_eq]
  refine .ended 3 _ _ (line_newLine m) ?_
  rw [List.length_append, List.length_singleton]
  omega

end Lines

/-- The lines of a message are gone through where there is a part for each header. -/
theorem walk_headers_iff (n h : Nat) (headers : List HeaderLine) (hn : h ≤ n) :
    walk n h (headerLinesOf headers) ≠ .outside ↔ h + headers.length ≤ n := by
  induction headers generalizing h with
  | nil =>
    have hended : walk n h (headerLinesOf []) = .ended := rfl
    rw [hended]
    exact iff_of_true (by simp) hn
  | cons e headers ih =>
    have hname := lineName_append e.name (e.value ++ [carriageReturn])
      (e.not_mem_name colon (by simp))
    rw [headerLinesOf, List.map_cons, List.cons_append,
      walk_known _ _ _ _ _ hname e.entry.id e.known, List.length_cons]
    by_cases hlt : h < n
    · rw [if_pos hlt, ← headerLinesOf, ih (h + 1) hlt]
      omega
    · rw [if_neg hlt]
      exact iff_of_false (by simp) (by omega)

theorem numParts_message (m : Message) (hline : 2 ≤ m.line.length) :
    numParts m.bytes = (m.headers.length + 1) % 256 := by
  rw [numParts, (message_header m hline).headerLines_eq]
  simp [headerLinesOf]

/-- The parser stays inside for a message with a first line that is not too short, and with no more
headers than are counted. -/
theorem message_inside_iff (heap : Heap) (httpMsgInfo : HttpMsgInfo) (m : Message) :
    Inside heap httpMsgInfo m.bytes ↔
      heap.lowerData = true ∧ 2 ≤ m.line.length ∧ m.headers.length < 255 := by
  by_cases hline : 2 ≤ m.line.length
  · have hheader := (message_header m hline).headerLines_eq
    have hEnds : Ends m.bytes = true := by rw [Ends, hheader]; rfl
    have hparts := numParts_message m hline
    have hlines : walkedLines httpMsgInfo.content m.bytes = headerLinesOf m.headers := by
      rw [walkedLines, hEnds, if_pos rfl, hheader]
      rfl
    constructor
    · intro h
      have hknown := h.known
      rw [hlines, walk_headers_iff _ 1 m.headers h.part, hparts] at hknown
      refine ⟨h.memory.resolve_right fun hmemory => ?_, hline, by omega⟩
      rw [hEnds] at hmemory
      cases hmemory.1
    · rintro ⟨hlower, -, hfew⟩
      have hpart : 0 < numParts m.bytes := by omega
      refine ⟨hpart, .inl hlower, ?_, .inr (.inl hEnds)⟩
      rw [hlines, walk_headers_iff _ 1 m.headers hpart]
      omega
  · refine iff_of_false (fun h => ?_) fun h => hline h.2.1
    have hpart := h.part
    rw [numParts, (short_header m (Nat.not_le.mp hline)).headerLines_eq] at hpart
    simp at hpart

/-! ## What is recorded of the headers -/

/-- The part holds the id of the header and points to its value, whatever comes behind `bytes`. -/
def Recorded (bytes : List UInt8) (h : HeaderLine) (p : HttpHeaderPart) : Prop :=
  p.httpHeaderId = h.entry.id ∧ ∃ idx, p.httpHeaderValue = .data idx ∧
    ∀ t, cString ((bytes ++ t).drop idx) = cString h.text

theorem Recorded.append {bytes : List UInt8} {h : HeaderLine} {p : HttpHeaderPart}
    (hp : Recorded bytes h p) (more : List UInt8) : Recorded (bytes ++ more) h p := by
  obtain ⟨hid, idx, hidx, hvalue⟩ := hp
  refine ⟨hid, idx, hidx, fun t => ?_⟩
  rw [List.append_assoc, hvalue]

theorem text_append (h : HeaderLine) :
    (h.value ++ [carriageReturn]).dropWhile (· == space) = h.text ++ [carriageReturn] := by
  rw [HeaderLine.text, List.dropWhile_append]
  by_cases hnil : h.value.dropWhile (· == space) = []
  · rw [hnil]
    rfl
  · rw [if_neg (by simpa using hnil)]

/-- The part of a header, behind its line. -/
theorem behindHeader_recorded (s : Pass) (h : HeaderLine) (t : List UInt8) :
    ∃ p more, (behindHeader s h.name (h.value ++ [carriageReturn]) t h.entry.id).receivedHeaders =
        s.receivedHeaders.set s.httpHeaderIdx p ∧
      (behindHeader s h.name (h.value ++ [carriageReturn]) t h.entry.id).passed =
        more ++ s.passed ∧
      Recorded (more ++ s.passed).reverse h p := by
  let spaces := ((h.value ++ [carriageReturn]) ++ newLine :: t).takeWhile (· == space)
  let w := spaces ++ 0 :: (h.name.reverse ++ s.passed)
  refine ⟨⟨h.entry.id, .data s.headerStr, .data w.length⟩,
    newLine :: 0 :: (h.text.reverse ++ (spaces ++ 0 :: h.name.reverse)), rfl, ?_,
    rfl, w.length, rfl, fun t => ?_⟩
  · simp [behindHeader, behindLine, begun, passedOver, named, text_append, spaces]
  · have hdata : (newLine :: 0 :: (h.text.reverse ++ (spaces ++ 0 :: h.name.reverse)) ++
        s.passed).reverse ++ t = w.reverse ++ (h.text ++ 0 :: newLine :: t) := by
      simp [w]
    rw [hdata, List.drop_left' (List.length_reverse), cString_append_zero]

/-- The loop goes over all headers of a message. -/
theorem fromLine_headers (headerLgth : Nat) (headers : List HeaderLine) (t : List UInt8) (s : Pass)
    (h : AtLine s) (done todo : List HttpHeaderPart)
    (hrest : s.rest = headerBytes headers ++ t) (hparts : s.receivedHeaders = done ++ todo)
    (hdone : done.length = s.httpHeaderIdx) (htodo : todo.length = headers.length)
    (hlgth : s.passed.length + (headerBytes headers).length ≤ headerLgth) :
    ∃ s' entries more, fromLine headerLgth s = fromLine headerLgth s' ∧ AtLine s' ∧ s'.rest = t ∧
      s'.passed = more ++ s.passed ∧ more.length = (headerBytes headers).length ∧
      s'.receivedHeaders = done ++ entries ∧
      List.Forall₂ (Recorded s'.passed.reverse) headers entries := by
  induction headers generalizing s done todo with
  | nil =>
    obtain rfl := List.eq_nil_of_length_eq_zero htodo
    exact ⟨s, [], [], rfl, h, hrest, rfl, rfl, hparts, .nil⟩
  | cons e headers ih =>
    obtain ⟨q, todo, rfl⟩ := List.exists_cons_of_length_eq_add_one htodo
    rw [headerBytes_cons] at hrest
    have hbytes : (headerBytes (e :: headers)).length =
        (e.name ++ colon :: (e.value ++ [carriageReturn])).length + 1 +
          (headerBytes headers).length := by
      have hcons := congrArg List.length (headerBytes_cons e headers [])
      simp only [List.append_nil, List.length_append, List.length_cons] at hcons ⊢
      omega
    obtain ⟨p, more, hset, hpassed, hp⟩ := behindHeader_recorded s e (headerBytes headers ++ t)
    have hlength := behindHeader_passed_length s e.name (e.value ++ [carriageReturn])
      (headerBytes headers ++ t) e.entry.id
    have hstep := fromLine_known s h headerLgth e.name (e.value ++ [carriageReturn])
      (headerBytes headers ++ t) hrest e.newLine_not_mem (e.not_mem_name colon (by simp))
      (by omega) e.entry.id e.known (by
        rw [hparts, List.length_append, List.length_cons]
        omega)
    have hat := behindHeader_atLine s h e.name (e.value ++ [carriageReturn])
      (headerBytes headers ++ t) e.entry.id hrest
    obtain ⟨s', entries, more', hgo, hat', hrest', hpassed', hmore', hparts', hall⟩ :=
      ih _ hat (done ++ [p]) todo rfl (by
        rw [hset, hparts, ← hdone]
        simp) (by
        rw [List.length_append, List.length_singleton, hdone]
        rfl) (by simpa using htodo) (by omega)
    rw [hpassed, List.length_append] at hlength
    rw [hpassed] at hpassed'
    refine ⟨s', p :: entries, more' ++ more, hstep.trans hgo, hat', hrest', by simp [hpassed'],
      by rw [List.length_append]; omega, by simp [hparts'], .cons ?_ hall⟩
    rw [hpassed', List.reverse_append]
    exact hp.append more'.reverse

/-- A message up to the new line that ends its header. -/
def Message.header (m : Message) : List UInt8 :=
  (m.line ++ [carriageReturn]) ++ newLine :: (headerBytes m.headers ++ [carriageReturn])

theorem bytes_header (m : Message) : m.bytes = m.header ++ newLine :: m.body := by
  simp [Message.bytes, Message.header, lineEnd]

/-- The loop over the headers of a message, with its first part and one part for each header. -/
theorem readHeaders_message (m : Message) (lowerData : List UInt8) (first : HttpHeaderPart)
    (todo : List HttpHeaderPart) (htodo : todo.length = m.headers.length)
    (hlower : lowerData.length = (m.header ++ 0 :: m.body ++ [0]).length) :
    ∃ s entries, readHeaders (m.header.length + 1)
        (started lowerData (m.header ++ 0 :: m.body ++ [0]) (first :: todo)) = some (.ok, s) ∧
      s.passed.length = m.header.length + 1 ∧ s.rest = m.body ++ [0] ∧
      s.receivedHeaders = first :: entries ∧
      List.Forall₂ (Recorded s.passed.reverse) m.headers entries := by
  let l := m.line ++ [carriageReturn]
  let t := headerBytes m.headers ++ ([carriageReturn, 0] ++ (m.body ++ [0]))
  have hdata : m.header ++ 0 :: m.body ++ [0] = l ++ newLine :: t := by
    simp [Message.header, l, t]
  have hheader : m.header.length = l.length + 1 + (headerBytes m.headers).length + 1 := by
    simp only [Message.header, l, List.length_append, List.length_cons, List.length_nil]
    omega
  have ht : t.length = (headerBytes m.headers).length + 2 + (m.body.length + 1) := by
    simp only [t, List.length_append, List.length_cons, List.length_nil]
    omega
  rw [hdata] at hlower ⊢
  simp only [List.length_append, List.length_cons] at hlower
  have hne : l.reverse ++ (started lowerData (l ++ newLine :: t) (first :: todo)).passed ≠ [] := by
    simp [l]
  have hbehind := behindLine_passed_length _ l t hne
  have hat := behindLine_atLine _ l t hne (by simp only [started, List.length_nil]; omega)
  rw [started, List.length_nil] at hbehind
  obtain ⟨s, entries, more, hgo, hs, hrest, hmore, hlength, hparts, hall⟩ :=
    fromLine_headers (m.header.length + 1) m.headers _ _ hat [first] todo rfl rfl rfl htodo
      (by rw [started, hbehind]; omega)
  have hend : s.passed.length + 2 = m.header.length + 1 := by
    rw [hmore, List.length_append, hlength, started, hbehind]
    omega
  have hsize := hs.size
  have hdp := hs.dp
  rw [hrest] at hsize
  simp only [List.length_append, List.length_cons, List.length_nil] at hsize
  refine ⟨passedOver s [carriageReturn, 0] (m.body ++ [0]), entries, ?_, ?_, rfl, hparts, ?_⟩
  · rw [readHeaders_line (m.header.length + 1) l t _ rfl (line_newLine m) (.inl rfl)
        hne (by simp only [started, List.length_nil]; omega)
        (by simp only [started]; omega), hgo,
      fromLine_eq _ s [carriageReturn, 0] (m.body ++ [0]) hrest (by decide) (by simp) (by omega)]
    apply readHeaders_end _ _ _ s hrest (by decide) (.inr (.inr (by decide)))
    · exact hend
    · rw [List.length_cons, List.length_singleton]
      omega
  · simpa [passedOver] using hend
  · have hreverse : (passedOver s [carriageReturn, 0] (m.body ++ [0])).passed.reverse =
        s.passed.reverse ++ [carriageReturn, 0] := by simp [passedOver]
    rw [hreverse]
    exact hall.imp fun h p hp => hp.append [carriageReturn, 0]

/-! ## What is recorded of a message -/

/-- The first length that is not zero, where none is known yet. -/
def taken (expectedLgth : Nat) : List Nat → Nat
  | [] => expectedLgth
  | lgth :: lgths => taken (if expectedLgth = 0 then lgth else expectedLgth) lgths

theorem taken_of_ne (e : Nat) (vs : List Nat) (he : e ≠ 0) : taken e vs = e := by
  induction vs with
  | nil => rfl
  | cons v vs ih => rw [taken, if_neg he, ih]

theorem taken_zero_iff (vs : List Nat) : taken 0 vs = 0 ↔ ∀ v ∈ vs, v = 0 := by
  induction vs with
  | nil => simp [taken]
  | cons v vs ih =>
    rw [taken, if_pos rfl, List.forall_mem_cons]
    by_cases hv : v = 0
    · subst hv
      simp [ih]
    · simp [taken_of_ne v vs hv, hv]

/-- When the first of the lengths is taken. -/
def FirstTaken (expectedLgth : Nat) : List Nat → Prop
  | [] => True
  | lgth :: lgths =>
    if expectedLgth = 0 then lgth ≠ 0 ∨ ∀ l ∈ lgths, l = 0 else expectedLgth = lgth

theorem firstTaken_iff (e : Nat) (vs : List Nat) :
    FirstTaken e vs ↔ ∀ v ∈ vs.head?, taken e vs = v := by
  cases vs with
  | nil => simp [FirstTaken]
  | cons v vs =>
    simp only [FirstTaken, List.head?_cons, Option.mem_some_iff, forall_eq']
    by_cases he : e = 0
    · subst he
      rw [if_pos rfl, taken, if_pos rfl]
      by_cases hv : v = 0
      · subst hv
        simp [taken_zero_iff]
      · simp [taken_of_ne v vs hv, hv]
    · rw [if_neg he, taken, if_neg he, taken_of_ne e vs he]

/-- The part has the id of the header, and its value is the one of the header. -/
def Holds (data : List UInt8) (h : HeaderLine) (p : HttpHeaderPart) : Prop :=
  p.httpHeaderId = h.entry.id ∧
    ∃ idx, p.httpHeaderValue = .data idx ∧ cString (data.drop idx) = h.text

/-- The message is recorded: a part for its code and one for each header line in their order, its
body and the length that its first content length says. -/
structure Records (m : Message) (r : Code × HttpMsgInfo) : Prop where
  code : r.1 = .ok
  headers : ∃ first entries, r.2.receivedHeaders = first :: entries ∧
    List.Forall₂ (Holds r.2.data) m.headers entries
  numHeaders : r.2.numHeaders = m.headers.length + 1
  content : (r.2.data.drop r.2.content).take r.2.currLgth = m.body
  currLgth : r.2.currLgth = m.body.length
  expectedLgth : ∀ lgth ∈ m.contentLengths.head?, r.2.expectedLgth = lgth

/-- The numbers that are read where the content lengths are. -/
def readLengths (headers : List HeaderLine) : List Nat :=
  (headers.filter fun h => h.entry.id = contentLengthId).map fun h => strtoul10 (cString h.text)

theorem scanContentLength_recorded (bytes t : List UInt8) (headers : List HeaderLine)
    (entries : List HttpHeaderPart) (hall : List.Forall₂ (Recorded bytes) headers entries)
    (expectedLgth lgth : Nat)
    (h : scanContentLength (bytes ++ t) expectedLgth entries = some lgth) :
    lgth = taken expectedLgth (readLengths headers) := by
  induction hall generalizing expectedLgth with
  | nil =>
    cases h
    rfl
  | @cons e p headers entries hp hall ih =>
    obtain ⟨hid, idx, hidx, hvalue⟩ := hp
    by_cases hcontent : e.entry.id = contentLengthId
    · have hlengths : readLengths (e :: headers) =
          strtoul10 (cString e.text) :: readLengths headers := by
        simp [readLengths, hcontent]
      rw [hlengths, taken]
      by_cases hzero : expectedLgth = 0
      · rw [scanContentLength, if_pos ⟨hid.trans hcontent, hzero⟩, hidx] at h
        dsimp only at h
        rw [if_pos hzero]
        unfold readNumber at h
        split at h
        · cases h
        · rename_i uval hread
          split at hread
          · cases hread
            rw [← hvalue t]
            exact ih _ h
          · cases hread
      · rw [scanContentLength, if_neg (fun hboth => hzero hboth.2)] at h
        rw [if_neg hzero]
        exact ih expectedLgth h
    · have hlengths : readLengths (e :: headers) = readLengths headers := by
        simp [readLengths, hcontent]
      rw [scanContentLength, if_neg (fun hboth => hcontent (hid ▸ hboth.1))] at h
      rw [hlengths]
      exact ih expectedLgth h

/-- A value is recorded whole unless it holds a zero. -/
theorem recorded_holds_iff (bytes t : List UInt8) (h : HeaderLine) (p : HttpHeaderPart)
    (hp : Recorded bytes h p) : Holds (bytes ++ t) h p ↔ 0 ∉ h.value := by
  obtain ⟨hid, idx, hidx, hvalue⟩ := hp
  have hzero : 0 ∈ h.text ↔ 0 ∈ h.value := by
    rw [HeaderLine.text, ← List.takeWhile_append_dropWhile (p := (· == space)) (l := h.value),
      List.mem_append, List.takeWhile_append_dropWhile]
    refine ⟨.inr, fun hmem => hmem.resolve_left fun htake => ?_⟩
    cases List.mem_takeWhile_imp htake
  have hself := cString_eq_self h.text
  rw [hzero, ← hvalue t] at hself
  rw [← hself]
  constructor
  · rintro ⟨-, idx', hidx', htext⟩
    cases hidx.symm.trans hidx'
    exact htext
  · intro htext
    exact ⟨hid, idx, hidx, htext⟩

theorem recorded_all_iff (bytes t : List UInt8) (headers : List HeaderLine)
    (entries : List HttpHeaderPart) (hall : List.Forall₂ (Recorded bytes) headers entries) :
    List.Forall₂ (Holds (bytes ++ t)) headers entries ↔ ∀ h ∈ headers, 0 ∉ h.value := by
  induction hall with
  | nil => simp
  | cons hp hall ih =>
    rw [List.forall₂_cons, List.forall_mem_cons, recorded_holds_iff bytes t _ _ hp, ih]

/-- What the parser makes of a message. -/
structure Parsed (expectedLgth : Nat) (m : Message) (s : HttpMsgInfo) : Prop where
  entries : ∃ bytes first entries, s.data = bytes ++ (m.body ++ [0]) ∧ bytes.length = s.content ∧
    s.receivedHeaders = first :: entries ∧ List.Forall₂ (Recorded bytes) m.headers entries
  numHeaders : s.numHeaders = m.headers.length + 1
  currLgth : s.currLgth = m.body.length
  expectedLgth : s.expectedLgth = taken expectedLgth (readLengths m.headers)

theorem getHttpHeaders_message (heap : Heap) (hlower : heap.lowerData = true) (m : Message)
    (s : HttpMsgInfo) (first : HttpHeaderPart) (todo : List HttpHeaderPart)
    (hdata : s.data = m.header ++ 0 :: m.body ++ [0]) (hcontent : s.content = m.header.length + 1)
    (hparts : s.receivedHeaders = first :: todo) (htodo : todo.length = m.headers.length) :
    ∃ bytes entries, getHttpHeaders heap m.bytes.length s = some (.ok, { s with
        data := bytes ++ (m.body ++ [0])
        receivedHeaders := first :: entries }) ∧
      bytes.length = s.content ∧ List.Forall₂ (Recorded bytes) m.headers entries := by
  obtain ⟨t, entries, hread, hpassed, hrest, hentries, hall⟩ := readHeaders_message m
    (List.replicate (m.bytes.length + 1) 0) first todo htodo (by simp [bytes_header]; omega)
  refine ⟨t.passed.reverse, entries, ?_, by rw [List.length_reverse, hpassed, hcontent], hall⟩
  rw [started] at hread
  rw [getHttpHeaders, hlower, if_pos rfl, hdata, hcontent, hparts]
  rw [hread, Option.map_some, hrest, hentries]

/-- The content length is looked for in the parts of a message. -/
theorem finish_message (m : Message) (bytes : List UInt8) (entries : List HttpHeaderPart)
    (first : HttpHeaderPart) (s : HttpMsgInfo) (hfirst : first.httpHeaderId ≠ contentLengthId)
    (hdata : s.data = bytes ++ (m.body ++ [0])) (hparts : s.receivedHeaders = first :: entries)
    (hnum : s.numHeaders = m.headers.length + 1)
    (hall : List.Forall₂ (Recorded bytes) m.headers entries)
    (hscan : (scanContentLength s.data s.expectedLgth
      (s.receivedHeaders.take s.numHeaders)).isSome) :
    finish (.ok, s) = some (.ok, { s with
      expectedLgth := taken s.expectedLgth (readLengths m.headers) }) := by
  have htake : s.receivedHeaders.take s.numHeaders = first :: entries := by
    rw [hparts, hnum, hall.length_eq, List.take_succ_cons, List.take_length]
  obtain ⟨lgth, hlgth⟩ := Option.isSome_iff_exists.mp hscan
  have hentries := hlgth
  rw [htake, hdata, scanContentLength, if_neg (fun hboth => hfirst hboth.1)] at hentries
  rw [finish, hlgth, Option.map_some,
    scanContentLength_recorded bytes (m.body ++ [0]) m.headers entries hall _ lgth hentries]

theorem message_parsed (heap : Heap) (hdata : heap.data = true)
    (hreceived : heap.receivedHeaders = true) (httpMsgInfo : HttpMsgInfo) (m : Message)
    (h : Inside heap httpMsgInfo m.bytes) :
    ∃ s, httpParse heap httpMsgInfo m.bytes = some (.ok, s) ∧
      Parsed httpMsgInfo.expectedLgth m s := by
  obtain ⟨hlower, hline, hfew⟩ := (message_inside_iff heap httpMsgInfo m).mp h
  have hparts := numParts_message m hline
  have hheader := message_header m hline
  have hcounted := counted httpMsgInfo m.bytes
  obtain ⟨code, hparse⟩ := httpParse_eq heap hdata hreceived httpMsgInfo m.bytes h.part
  have hcontent : getContentAndNumHeaders m.bytes.length
      { httpMsgInfo with data := m.bytes ++ [0] } = { httpMsgInfo with
        data := m.header ++ 0 :: m.body ++ [0]
        numHeaders := m.headers.length + 1
        content := m.header.length + 1
        currLgth := m.body.length } := by
    have hended := getContent_ended httpMsgInfo m.header m.body (bytes_header m ▸ hheader)
    rw [← bytes_header] at hended
    have hnum : (((m.line ++ [carriageReturn]) :: headerLinesOf m.headers).length - 1) % 256 =
        m.headers.length + 1 := by
      rw [numParts, hheader.headerLines_eq] at hparts
      exact hparts.trans (Nat.mod_eq_of_lt (by omega))
    rw [hended, hnum]
  rw [hcontent] at hcounted hparse
  generalize hs : HttpMsgInfo.mk _ _ _ _ _ _ _ = s at hcounted hparse
  obtain ⟨bytes, entries, hget, hbytes, hall⟩ := getHttpHeaders_message heap hlower m
    (firstPart s code) ⟨codeId, .code, .data 0⟩ (List.replicate m.headers.length ⟨0, .null, .null⟩)
    (by rw [← hs]; rfl) (by rw [← hs]; rfl) (by rw [← hs]; rfl) List.length_replicate
  have hscan := getHttpHeaders_scan heap httpMsgInfo m.bytes (firstPart s code)
    ⟨hcounted.numHeaders, hcounted.lgth, hcounted.zero, hcounted.line, hcounted.lines,
      hcounted.start, hcounted.content⟩ _ (firstPart_ids s code) hget
  rw [hparse, hget, Option.bind_some, finish_message m bytes entries ⟨codeId, .code, .data 0⟩ _
    (by decide) rfl rfl (by rw [← hs]; rfl) hall (hscan _)]
  refine ⟨_, rfl, ⟨bytes, _, entries, rfl, hbytes, rfl, hall⟩, ?_, ?_, ?_⟩
  · rw [← hs]
    rfl
  · rw [← hs]
    rfl
  · rw [← hs]
    rfl

theorem records_iff (httpMsgInfo s : HttpMsgInfo) (m : Message)
    (h : Parsed httpMsgInfo.expectedLgth m s) :
    Records m (.ok, s) ↔ (∀ h ∈ m.headers, 0 ∉ h.value) ∧
      FirstTaken httpMsgInfo.expectedLgth m.contentLengths := by
  obtain ⟨bytes, first, entries, hdata, hbytes, hparts, hall⟩ := h.entries
  have hholds := recorded_all_iff bytes (m.body ++ [0]) m.headers entries hall
  rw [← hdata] at hholds
  have hread : (∀ h ∈ m.headers, 0 ∉ h.value) → readLengths m.headers = m.contentLengths := by
    intro hzero
    apply List.map_congr_left
    intro e he
    have htext : 0 ∉ e.text := fun hmem =>
      hzero e (List.mem_of_mem_filter he) ((List.dropWhile_suffix _).subset hmem)
    rw [(cString_eq_self e.text).mpr htext]
  constructor
  · intro hrec
    obtain ⟨first', entries', hparts', hall'⟩ := hrec.headers
    cases hparts.symm.trans hparts'
    have hzero := hholds.mp hall'
    refine ⟨hzero, (firstTaken_iff _ _).mpr fun v hv => ?_⟩
    rw [← hread hzero, ← h.expectedLgth]
    exact hrec.expectedLgth v hv
  · rintro ⟨hzero, hfirst⟩
    exact
      { code := rfl
        headers := ⟨first, entries, hparts, hholds.mpr hzero⟩
        numHeaders := h.numHeaders
        content := by
          dsimp only
          rw [hdata, ← hbytes, List.drop_left, h.currLgth, List.take_left]
        currLgth := h.currLgth
        expectedLgth := by
          dsimp only
          rw [h.expectedLgth, hread hzero]
          exact (firstTaken_iff _ _).mp hfirst }

/-! ## Which messages the parser is right for -/

/-- The parser stays inside, and what it makes of a message is what the message says. -/
def Faithful (heap : Heap) (httpMsgInfo : HttpMsgInfo) (data : List UInt8) : Prop :=
  ∃ r, httpParse heap httpMsgInfo data = some r ∧
    (heap.data = true → heap.receivedHeaders = true →
      ∀ m : Message, m.bytes = data → Records m r)

/-- There is no memory for the data or for the header parts, or the parser stays inside, and in a
message no value holds a zero and the first content length is the one that is taken. -/
def Sound (heap : Heap) (httpMsgInfo : HttpMsgInfo) (data : List UInt8) : Prop :=
  heap.data = false ∨ heap.receivedHeaders = false ∨
    Inside heap httpMsgInfo data ∧ ∀ m : Message, m.bytes = data →
      (∀ h ∈ m.headers, 0 ∉ h.value) ∧ FirstTaken httpMsgInfo.expectedLgth m.contentLengths

/-- The beginning of a request, as far as it has come. -/
def cutRequest : List UInt8 := bytesOf "GET / HTTP/1.1"

def emptyMsgInfo : HttpMsgInfo :=
  { receivedHeaders := []
    httpRequestCode := 0
    numHeaders := 0
    currLgth := 0
    expectedLgth := 0
    content := 0
    data := [] }

theorem faithful_iff_sound (heap : Heap) (httpMsgInfo : HttpMsgInfo) (data : List UInt8) :
    Faithful heap httpMsgInfo data ↔ Sound heap httpMsgInfo data := by
  have hsafe := httpParse_isSome heap httpMsgInfo data
  rw [Option.isSome_iff_exists] at hsafe
  constructor
  · rintro ⟨r, hr, hrec⟩
    cases hdata : heap.data with
    | false => exact .inl hdata
    | true =>
      cases hreceived : heap.receivedHeaders with
      | false => exact .inr (.inl hreceived)
      | true =>
        have hinside : Inside heap httpMsgInfo data := by
          simpa [hdata, hreceived] using hsafe.mp ⟨r, hr⟩
        refine .inr (.inr ⟨hinside, ?_⟩)
        rintro m rfl
        obtain ⟨s, hs, hparsed⟩ := message_parsed heap hdata hreceived httpMsgInfo m hinside
        cases hr.symm.trans hs
        exact (records_iff httpMsgInfo s m hparsed).mp (hrec hdata hreceived m rfl)
  · intro hsound
    obtain ⟨r, hr⟩ := hsafe.mpr (hsound.imp_right (Or.imp_right And.left))
    refine ⟨r, hr, ?_⟩
    rintro hdata hreceived m rfl
    simp only [Sound, hdata, hreceived, Bool.true_eq_false, false_or] at hsound
    obtain ⟨hinside, hm⟩ := hsound
    obtain ⟨s, hs, hparsed⟩ := message_parsed heap hdata hreceived httpMsgInfo m hinside
    cases hr.symm.trans hs
    exact (records_iff httpMsgInfo s m hparsed).mpr (hm m rfl)

/-- There is no part for the code of a message without a new line. -/
theorem cutRequest_not_faithful : ¬ Faithful ⟨true, true, true⟩ emptyMsgInfo cutRequest := by
  rintro ⟨r, hr, -⟩
  have hnone : httpParse ⟨true, true, true⟩ emptyMsgInfo cutRequest = none :=
    httpParse_none ⟨true, true, true⟩ rfl rfl emptyMsgInfo cutRequest (by decide)
  rw [hnone] at hr
  cases hr

end NodeMcu.CompMsg.HttpMessages
