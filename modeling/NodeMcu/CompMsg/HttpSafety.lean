import NodeMcu.CompMsg.HttpWalk

namespace NodeMcu.CompMsg.HttpSafety

open NodeMcu.Lib.Text NodeMcu.CompMsg.HttpParse NodeMcu.CompMsg.HttpLines
open NodeMcu.CompMsg.HttpWalk

/-! ## The lines of a header -/

/-- The lines up to the one that ends the header, if one does. A line that does is shorter than
`least` and has a new line behind it. -/
def headerLines : Nat → List (List UInt8) → List (List UInt8) × Bool
  | _, [] => ([], false)
  | _, [l] => ([l], false)
  | least, l :: l' :: ls =>
    if l.length < least then ([l], true)
    else (l :: (headerLines 2 (l' :: ls)).1, (headerLines 2 (l' :: ls)).2)

/-- The bytes of a message with the lines of its header, and what is behind the header if it
ends. -/
inductive Header : Nat → List UInt8 → List (List UInt8) → Option (List UInt8) → Prop
  | endless (least : Nat) (l : List UInt8) (hl : newLine ∉ l) : Header least l [l] none
  | ended (least : Nat) (l body : List UInt8) (hl : newLine ∉ l) (hshort : l.length < least) :
      Header least (l ++ newLine :: body) [l] (some body)
  | line (least : Nat) (l R : List UInt8) (ls : List (List UInt8)) (body : Option (List UInt8))
      (hl : newLine ∉ l) (hlong : least ≤ l.length) (hR : Header 2 R ls body) :
      Header least (l ++ newLine :: R) (l :: ls) body

/-- A text is a line, or a line in front of another text. -/
theorem byLine {P : List UInt8 → Prop} (last : ∀ l, newLine ∉ l → P l)
    (line : ∀ l R, newLine ∉ l → P R → P (l ++ newLine :: R)) (bytes : List UInt8) : P bytes := by
  induction hn : bytes.length using Nat.strong_induction_on generalizing bytes with
  | _ n ih =>
    by_cases hmem : newLine ∈ bytes
    · obtain ⟨l, R, rfl, hl⟩ := List.eq_append_cons_of_mem hmem
      apply line l R hl
      apply ih R.length _ R rfl
      rw [← hn, List.length_append, List.length_cons]
      omega
    · exact last bytes hmem

theorem exists_header (least : Nat) (bytes : List UInt8) :
    ∃ ls body, Header least bytes ls body := by
  induction bytes using byLine generalizing least with
  | last l hl => exact ⟨[l], none, .endless least l hl⟩
  | line l R hl ih =>
    by_cases hshort : l.length < least
    · exact ⟨[l], some R, .ended least l R hl hshort⟩
    · obtain ⟨ls, body, hR⟩ := ih 2
      exact ⟨l :: ls, body, .line least l R ls body hl (Nat.not_lt.mp hshort) hR⟩

theorem splitOn_line (l R : List UInt8) (hl : newLine ∉ l) :
    ∃ l' ls, R.splitOn newLine = l' :: ls ∧
      (l ++ newLine :: R).splitOn newLine = l :: l' :: ls := by
  obtain ⟨l', ls, hR⟩ := List.exists_cons_of_ne_nil (List.splitOn_ne_nil newLine R)
  refine ⟨l', ls, hR, ?_⟩
  rw [List.splitOn_append_cons_of_beq l R (beq_self_eq_true newLine), hR,
    List.splitOn_eq_singleton hl, List.singleton_append]

section Lines

variable {least : Nat} {bytes : List UInt8} {ls : List (List UInt8)} {body : Option (List UInt8)}

theorem Header.headerLines_eq (h : Header least bytes ls body) :
    headerLines least (bytes.splitOn newLine) = (ls, body.isSome) := by
  induction h with
  | endless least l hl =>
    rw [List.splitOn_eq_singleton hl]
    rfl
  | ended least l body hl hshort =>
    obtain ⟨l', ls, -, hsplit⟩ := splitOn_line l body hl
    rw [hsplit, headerLines, if_pos hshort]
    rfl
  | line least l R ls body hl hlong hR ih =>
    obtain ⟨l', ls', hsplit', hsplit⟩ := splitOn_line l R hl
    rw [hsplit, headerLines, if_neg (Nat.not_lt.mpr hlong), ← hsplit', ih]

theorem Header.newLine_mem (h : Header least bytes ls body) (hls : 1 < ls.length) :
    newLine ∈ bytes := by
  cases h with
  | endless => simp at hls
  | ended => simp at hls
  | line => simp

theorem Header.lines_ne_nil (h : Header least bytes ls body) : ls ≠ [] := by
  cases h <;> exact List.cons_ne_nil _ _

end Lines

/-- The zero that ends the header is put at the end of the last line. -/
def zeroEnded : List (List UInt8) → List (List UInt8)
  | [] => []
  | [l] => [l ++ [0]]
  | l :: l' :: ls => l :: zeroEnded (l' :: ls)

theorem zeroEnded_cons (l : List UInt8) (ls : List (List UInt8)) (hne : ls ≠ []) :
    zeroEnded (l :: ls) = l :: zeroEnded ls := by
  obtain ⟨l', ls, rfl⟩ := List.exists_cons_of_ne_nil hne
  rfl

theorem zeroEnded_tail (ls : List (List UInt8)) : (zeroEnded ls).tail = zeroEnded ls.tail := by
  cases ls with
  | nil => rfl
  | cons l ls => cases ls <;> rfl

theorem Header.split {least : Nat} {bytes : List UInt8} {ls : List (List UInt8)}
    {body : List UInt8} (h : Header least bytes ls (some body)) (hleast : 0 < least) :
    ∃ pre, bytes = pre ++ newLine :: body ∧ Lines (pre ++ [0]) (zeroEnded ls) ∧
      (1 < ls.length → newLine ∈ pre) := by
  generalize hb : some body = b at h
  induction h with
  | endless => cases hb
  | ended least l body' hl hshort =>
    cases hb
    refine ⟨l, rfl, .last (l ++ [0]) ?_, fun hls => by simp at hls⟩
    rw [List.mem_append, List.mem_singleton]
    rintro (hmem | hmem)
    · exact hl hmem
    · cases hmem
  | line least l R ls b hl hlong hR ih =>
    obtain ⟨pre, rfl, hlines, -⟩ := ih Nat.two_pos hb
    refine ⟨l ++ newLine :: pre, by simp, ?_, fun _ => by simp⟩
    have hne : l ≠ [] := List.ne_nil_of_length_pos (by omega)
    rw [zeroEnded_cons l ls hR.lines_ne_nil, List.append_assoc, List.cons_append]
    exact .line l _ _ hl hne hlines

/-- Where the header does not end, every part that begins a message has its lines. -/
theorem Header.take_lines {least : Nat} {bytes : List UInt8} {ls : List (List UInt8)}
    (h : Header least bytes ls none) (hleast : 0 < least) (headerLgth : Nat) :
    ∃ ls', Lines ((bytes ++ [0]).take headerLgth) ls' := by
  generalize hb : none = b at h
  induction h generalizing headerLgth with
  | endless least l hl =>
    refine ⟨[_], .last _ fun hmem => ?_⟩
    obtain hmem | hmem := List.mem_append.mp (List.mem_of_mem_take hmem)
    · exact hl hmem
    · cases List.mem_singleton.mp hmem
  | ended => cases hb
  | line least l R ls b hl hlong hR ih =>
    by_cases hle : headerLgth ≤ l.length
    · refine ⟨[_], .last _ fun hmem => ?_⟩
      rw [List.append_assoc, List.take_append_of_le_length hle] at hmem
      exact hl (List.mem_of_mem_take hmem)
    · obtain ⟨ls', hls'⟩ := ih Nat.two_pos (headerLgth - l.length - 1) hb
      have hne : l ≠ [] := List.ne_nil_of_length_pos (by omega)
      obtain ⟨k, hk⟩ : ∃ k, headerLgth - l.length = k + 1 := ⟨headerLgth - l.length - 1, by omega⟩
      refine ⟨l :: ls', ?_⟩
      rw [List.append_assoc, List.take_append, List.take_of_length_le (by omega), hk,
        List.cons_append, List.take_succ_cons]
      rw [hk, Nat.add_sub_cancel] at hls'
      exact .line l _ _ hl hne hls'

/-! ## What is counted -/

theorem countLines_endless (cp lastNewLine numHeaders : Nat) (l : List UInt8) (hl : newLine ∉ l) :
    countLines cp lastNewLine numHeaders l = (numHeaders, none) := by
  induction l generalizing cp with
  | nil => rfl
  | cons c l ih =>
    have hc : c ≠ newLine := fun h => hl (h ▸ List.mem_cons_self)
    rw [countLines, if_neg hc, ih]
    exact fun hmem => hl (List.mem_cons_of_mem c hmem)

theorem countLines_line (cp lastNewLine numHeaders : Nat) (l R : List UInt8) (hl : newLine ∉ l) :
    countLines cp lastNewLine numHeaders (l ++ newLine :: R) =
      if cp + l.length - lastNewLine < 3 then (numHeaders, some (cp + l.length))
      else countLines (cp + l.length + 1) (cp + l.length) ((numHeaders + 1) % 256) R := by
  induction l generalizing cp with
  | nil =>
    rw [List.nil_append, countLines, if_pos rfl]
    rfl
  | cons c l ih =>
    have hc : c ≠ newLine := fun h => hl (h ▸ List.mem_cons_self)
    rw [List.cons_append, countLines, if_neg hc, ih]
    · simp only [List.length_cons, Nat.add_right_comm cp 1, Nat.add_assoc]
    · exact fun hmem => hl (List.mem_cons_of_mem c hmem)

/-- All lines are counted but the last one. -/
theorem Header.countLines_eq {least : Nat} {bytes : List UInt8} {ls : List (List UInt8)}
    {body : Option (List UInt8)} (h : Header least bytes ls body) (cp lastNewLine n : Nat)
    (hleast : least ≤ 3) (hcp : cp + least = lastNewLine + 3) (hn : n < 256) :
    countLines cp lastNewLine n bytes = ((n + (ls.length - 1)) % 256,
      body.map fun body => cp + (bytes.length - (body.length + 1))) := by
  induction h generalizing cp lastNewLine n with
  | endless least l hl =>
    rw [countLines_endless cp lastNewLine n l hl]
    simp [Nat.mod_eq_of_lt hn]
  | ended least l body hl hshort =>
    rw [countLines_line cp lastNewLine n l body hl, if_pos (by omega)]
    simp [Nat.mod_eq_of_lt hn]
  | line least l R ls body hl hlong hR ih =>
    have hls : 0 < ls.length := List.length_pos_of_ne_nil hR.lines_ne_nil
    have hn' : ((n + 1) % 256 + (ls.length - 1)) % 256 = (n + ((l :: ls).length - 1)) % 256 := by
      rw [List.length_cons]
      omega
    rw [countLines_line cp lastNewLine n l R hl, if_neg (by omega),
      ih _ _ _ (by omega) (by omega) (Nat.mod_lt _ (by omega)), hn']
    cases body with
    | none => rfl
    | some body =>
      obtain ⟨pre, rfl, -, -⟩ := hR.split Nat.two_pos
      simp only [Option.map_some, List.length_append, List.length_cons, Prod.mk.injEq,
        Option.some.injEq, true_and]
      omega

theorem lineName_zero (l : List UInt8) : lineName (l ++ [0]) = lineName l := by
  by_cases hcolon : colon ∈ l
  · obtain ⟨name, v, rfl, hname⟩ := exists_name l hcolon
    rw [lineName_append name v hname, List.append_assoc, List.cons_append,
      lineName_append name (v ++ [0]) hname]
  · rw [lineName_eq_none l hcolon, lineName_eq_none]
    rw [List.mem_append, List.mem_singleton]
    rintro (hmem | hmem)
    · exact hcolon hmem
    · cases hmem

theorem walk_zeroEnded (n h : Nat) (ls : List (List UInt8)) :
    walk n h (zeroEnded ls) = walk n h ls := by
  induction ls generalizing h with
  | nil => rfl
  | cons l ls ih =>
    cases ls with
    | nil => simp only [zeroEnded, walk, lineName_zero]
    | cons l' ls => simp only [zeroEnded, walk, ih]

/-! ## From the first line on -/

/-- Where `getHttpHeaders` starts. -/
def started (lowerData data : List UInt8) (receivedHeaders : List HttpHeaderPart) : Pass :=
  { passed := []
    rest := data
    lowerData := lowerData
    dp := 0
    lowerHeaderStr := 0
    headerStr := 0
    httpHeaderIdx := 0
    hadColon := false
    receivedHeaders := receivedHeaders }

/-- Without the lower data not even the first byte can be gone over. -/
theorem readHeaders_noMemory (data : List UInt8) (parts : List HttpHeaderPart) (headerLgth : Nat)
    (hpos : 0 < headerLgth) : readHeaders headerLgth (started [] data parts) = none := by
  rw [readHeaders_of_lt headerLgth (started [] data parts) hpos, readRound]
  split
  · rfl
  · cases data with
    | nil => rfl
    | cons c data => rfl

theorem readHeaders_isSome {R : List UInt8} {ls : List (List UInt8)} (hlines : Lines R ls)
    (T lowerData : List UInt8) (parts : List HttpHeaderPart) (headerLgth : Nat)
    (hzero : (R ++ T).getLast? = some 0)
    (hlgth : R.length = headerLgth ∨ R.length < headerLgth ∧ T = [])
    (hlower : lowerData.length = (R ++ T).length) :
    (readHeaders headerLgth (started lowerData (R ++ T) parts)).isSome ↔
      walk parts.length 1 ls.tail ≠ .outside ∧
        (walk parts.length 1 ls.tail = .stopped ∨ headerLgth ≤ lowerData.length) := by
  cases hlines with
  | last _ hl =>
    have hwalk : walk parts.length 1 ([R] : List (List UInt8)).tail = .ended := rfl
    rw [List.length_append] at hlower
    obtain hN | ⟨hN, rfl⟩ := hlgth
    · rw [readHeaders_end headerLgth R T _ rfl hl (.inl rfl) (by simpa [started] using hN)
        (by simp only [started]; omega), hwalk]
      exact iff_of_true rfl ⟨by simp, .inr (by omega)⟩
    · rw [readHeaders_beyond headerLgth _ (by simpa [started] using hl) (.inl rfl)
        (by simpa [started] using hN) (by simp [started, hlower]), hwalk]
      rw [List.length_nil] at hlower
      exact iff_of_false (by simp) (by simp; omega)
  | line l R ls hl hne hR =>
    have hrest : (l ++ newLine :: R) ++ T = l ++ newLine :: (R ++ T) := by simp
    rw [hrest] at hzero hlower ⊢
    simp only [List.length_append, List.length_cons] at hlower hlgth
    have hne' : l.reverse ++ (started lowerData (l ++ newLine :: (R ++ T)) parts).passed ≠ [] := by
      simp [started, hne]
    rw [readHeaders_line headerLgth l (R ++ T) _ rfl hl (.inl rfl) hne'
        (by simp only [started, List.length_nil]; omega) (by simp only [started]; omega),
      fromLine_isSome hR headerLgth T _ (behindLine_atLine _ l (R ++ T) hne' ?_) rfl
        (zero_behind l (R ++ T) hzero) ?_]
    · simp [Returns, behindLine, begun, passedOver, started]
    · simp only [started, List.length_nil, List.length_append]
      omega
    · rw [behindLine_passed_length _ l (R ++ T) hne', started, List.length_nil]
      exact hlgth.imp (fun hN => by omega) (And.imp_left fun hN => by omega)

/-! ## The code and the content length -/

theorem findCode_text (data : List UInt8) (hline : newLine ∈ data)
    (hzero : data.getLast? = some 0) :
    ∃ r, findCode data = some r ∧ ∀ text, r = some text → 0 ∈ text := by
  induction data with
  | nil => cases hline
  | cons c data ih =>
    by_cases hc : c = newLine
    · exact ⟨none, if_pos hc, fun text h => nomatch h⟩
    · have hmem := List.mem_of_ne_of_mem (Ne.symm hc) hline
      have hdata : data.getLast? = some 0 := by
        obtain ⟨c', data, rfl⟩ := List.exists_cons_of_ne_nil (List.ne_nil_of_mem hmem)
        rwa [List.getLast?_cons_cons] at hzero
      by_cases hspace : c = space
      · refine ⟨some data, by rw [findCode, if_neg hc, if_pos hspace], ?_⟩
        rintro text ⟨⟩
        exact List.mem_of_getLast? hdata
      · rw [findCode, if_neg hc, if_neg hspace]
        exact ih hmem hdata

theorem getHttpRequestCode_eq (info : HttpMsgInfo) (p : HttpHeaderPart)
    (parts : List HttpHeaderPart) (hparts : info.receivedHeaders = p :: parts)
    (hline : newLine ∈ info.data) (hzero : info.data.getLast? = some 0) :
    ∃ code, getHttpRequestCode info = some { info with
      receivedHeaders := ⟨codeId, .code, .data 0⟩ :: parts
      httpRequestCode := code } := by
  obtain ⟨r, hr, htext⟩ := findCode_text info.data hline hzero
  rw [getHttpRequestCode, hparts]
  dsimp only
  rw [hr]
  cases r with
  | none => exact ⟨info.httpRequestCode, rfl⟩
  | some text =>
    refine ⟨Int.bmod (strtoul10 (cString text)) (2 ^ 32), ?_⟩
    simp [readNumber, htext text rfl]

/-- What the loop over the headers keeps: the data ends in a zero, and a value that the content
length is taken from begins in the data. -/
structure Kept (s : Pass) : Prop where
  zero : (s.passed.reverse ++ s.rest).getLast? = some 0
  value : ∀ p ∈ s.receivedHeaders, p.httpHeaderId = contentLengthId →
    ∃ idx, p.httpHeaderValue = .data idx ∧ idx < (s.passed.reverse ++ s.rest).length

theorem startLine_kept (s s' : Pass) (h : Kept s) (hs : startLine s = some s') : Kept s' := by
  unfold startLine at hs
  split at hs
  · rename_i p passed c rest hpassed hrest
    cases hs
    have hzero := h.zero
    have hvalue := h.value
    rw [hpassed, hrest] at hzero hvalue
    constructor
    · rw [List.getLast?_append_of_ne_nil _ (List.cons_ne_nil c rest)] at hzero
      have hdata : (c :: 0 :: passed).reverse ++ rest = (passed.reverse ++ [0]) ++ c :: rest := by
        simp
      rw [hdata, List.getLast?_append_of_ne_nil _ (List.cons_ne_nil c rest), hzero]
    · intro p hp hid
      obtain ⟨idx, hidx, hlt⟩ := hvalue p hp hid
      refine ⟨idx, hidx, ?_⟩
      simpa using hlt
  · cases hs

theorem endName_kept (s s' : Pass) (rest : List UInt8) (h : Kept s) (hrest : s.rest = colon :: rest)
    (hs : endName s rest = some (.ok, s')) : Kept s' := by
  unfold endName at hs
  dsimp only at hs
  split at hs
  · cases hs
  · split at hs
    · cases hs
    · rename_i httpHeaderId hid hboth
      cases hs
      obtain ⟨-, hne⟩ := not_or.mp hboth
      have hzero := h.zero
      have hsplit := List.takeWhile_append_dropWhile (p := (· == space)) (l := rest)
      have hlength : (rest.takeWhile (· == space)).length +
          (rest.dropWhile (· == space)).length = rest.length := by
        rw [← List.length_append, hsplit]
      have hpos := List.length_pos_of_ne_nil hne
      constructor
      · rw [hrest, ← hsplit, List.append_cons, ← List.append_assoc,
          List.getLast?_append_of_ne_nil _ hne] at hzero
        rw [List.getLast?_append_of_ne_nil _ hne, hzero]
      · intro p hp hpid
        obtain hp | rfl := List.mem_or_eq_of_mem_set hp
        · obtain ⟨idx, hidx, hlt⟩ := h.value p hp hpid
          refine ⟨idx, hidx, ?_⟩
          simp only [hrest, List.length_append, List.length_reverse, List.length_cons] at hlt ⊢
          omega
        · refine ⟨_, rfl, ?_⟩
          simp only [List.length_append, List.length_reverse, List.length_cons]
          omega

theorem readByte_kept (s s' : Pass) (h : Kept s) (hs : readByte s = some (.ok, s')) : Kept s' := by
  unfold readByte at hs
  split at hs
  · cases hs
  · rename_i c rest hrest
    split at hs
    · cases hs
    · split at hs
      · rename_i hcolon
        obtain ⟨-, -, rfl⟩ := hcolon
        exact endName_kept s s' rest h hrest hs
      · cases hs
        have hdata : (c :: s.passed).reverse ++ rest = s.passed.reverse ++ s.rest := by
          rw [hrest]
          simp
        exact ⟨hdata ▸ h.zero, hdata ▸ h.value⟩

theorem readRound_kept (s s' : Pass) (h : Kept s) (hs : readRound s = some (.ok, s')) :
    Kept s' := by
  unfold readRound at hs
  split at hs
  · obtain ⟨t, ht, hread⟩ := Option.bind_eq_some_iff.mp hs
    exact readByte_kept t s' (startLine_kept s t h ht) hread
  · exact readByte_kept s s' h hs

theorem readHeaders_kept (headerLgth : Nat) (s s' : Pass) (h : Kept s)
    (hs : readHeaders headerLgth s = some (.ok, s')) : Kept s' := by
  induction s using readHeaders.induct headerLgth with
  | case1 s hlt hround =>
    rw [readHeaders_of_lt headerLgth s hlt, hround] at hs
    cases hs
  | case2 s hlt t hround ih =>
    rw [readHeaders_of_lt headerLgth s hlt, hround] at hs
    exact ih (readRound_kept s t h hround) hs
  | case3 s hlt r hne hround =>
    obtain ⟨code, t⟩ := r
    rw [readHeaders_of_lt headerLgth s hlt, hround] at hs
    cases code with
    | ok => exact absurd rfl (hne t)
    | outOfMemory => cases hs
    | headerNotFound => cases hs
  | case4 s hle =>
    rw [readHeaders_of_le headerLgth s (Nat.not_lt.mp hle)] at hs
    cases hs
    exact h

theorem scanContentLength_isSome (data : List UInt8) (expectedLgth : Nat)
    (parts : List HttpHeaderPart) (hzero : data.getLast? = some 0)
    (hvalue : ∀ p ∈ parts, p.httpHeaderId = contentLengthId →
      ∃ idx, p.httpHeaderValue = .data idx ∧ idx < data.length) :
    (scanContentLength data expectedLgth parts).isSome := by
  induction parts generalizing expectedLgth with
  | nil => rfl
  | cons p parts ih =>
    have hparts := fun q hq => hvalue q (List.mem_cons_of_mem p hq)
    rw [scanContentLength]
    split
    · rename_i hp
      obtain ⟨idx, hidx, hlt⟩ := hvalue p List.mem_cons_self hp.1
      have hmem : 0 ∈ data.drop idx := by
        apply List.mem_of_getLast?
        rw [List.getLast?_drop, if_neg (Nat.not_le.mpr hlt), hzero]
      simp only [hidx, readNumber, if_pos hmem]
      exact ih _ hparts
    · exact ih _ hparts

/-! ## Which messages are parsed inside -/

/-- How many header parts are allocated. -/
def numParts (msg : List UInt8) : Nat :=
  ((headerLines 3 (msg.splitOn newLine)).1.length - 1) % 256

/-- The header has an end. -/
def Ends (msg : List UInt8) : Bool := (headerLines 3 (msg.splitOn newLine)).2

/-- The lines behind the first one that are gone through. Where the header has no end, the content
is where it was. -/
def walkedLines (content : Nat) (msg : List UInt8) : List (List UInt8) :=
  if Ends msg then (headerLines 3 (msg.splitOn newLine)).1.tail
  else (((msg ++ [0]).take content).splitOn newLine).tail

/-- What keeps the parser inside of the data and the header parts. -/
structure Inside (heap : Heap) (httpMsgInfo : HttpMsgInfo) (msg : List UInt8) : Prop where
  part : 0 < numParts msg
  memory : heap.lowerData = true ∨ Ends msg = false ∧ httpMsgInfo.content = 0
  known : walk (numParts msg) 1 (walkedLines httpMsgInfo.content msg) ≠ .outside
  content : walk (numParts msg) 1 (walkedLines httpMsgInfo.content msg) = .stopped ∨
    Ends msg = true ∨ httpMsgInfo.content ≤ msg.length + 1

/-- What `getContentAndNumHeaders` leaves. -/
structure Counted (httpMsgInfo : HttpMsgInfo) (msg : List UInt8) (s : HttpMsgInfo) : Prop where
  numHeaders : s.numHeaders = numParts msg
  lgth : s.data.length = msg.length + 1
  zero : s.data.getLast? = some 0
  line : 0 < numParts msg → newLine ∈ s.data
  lines : ∃ R T ls, s.data = R ++ T ∧ Lines R ls ∧
    (R.length = s.content ∨ R.length < s.content ∧ T = []) ∧
    ∀ n, walk n 1 ls.tail = walk n 1 (walkedLines httpMsgInfo.content msg)
  start : s.content = 0 ↔ Ends msg = false ∧ httpMsgInfo.content = 0
  content : s.content ≤ msg.length + 1 ↔ Ends msg = true ∨ httpMsgInfo.content ≤ msg.length + 1

section Count

variable (httpMsgInfo : HttpMsgInfo) {msg : List UInt8} {ls : List (List UInt8)}

theorem getContent_endless (h : Header 3 msg ls none) :
    getContentAndNumHeaders msg.length { httpMsgInfo with data := msg ++ [0] } =
      { httpMsgInfo with data := msg ++ [0], numHeaders := (ls.length - 1) % 256 } := by
  have hcount := h.countLines_eq 0 0 0 (Nat.le_refl 3) rfl (by omega)
  simp [getContentAndNumHeaders, hcount]

theorem getContent_ended (pre body : List UInt8)
    (h : Header 3 (pre ++ newLine :: body) ls (some body)) :
    getContentAndNumHeaders (pre ++ newLine :: body).length
        { httpMsgInfo with data := pre ++ newLine :: body ++ [0] } =
      { httpMsgInfo with
        data := pre ++ 0 :: body ++ [0]
        numHeaders := (ls.length - 1) % 256
        content := pre.length + 1
        currLgth := body.length } := by
  have hcount := h.countLines_eq 0 0 0 (Nat.le_refl 3) rfl (by omega)
  have hcp : 0 + ((pre ++ newLine :: body).length - (body.length + 1)) = pre.length := by simp
  have hlgth : (pre ++ newLine :: body).length - (pre.length + 1) = body.length := by
    simp only [List.length_append, List.length_cons]
    omega
  have hset : (pre ++ newLine :: body ++ [0]).set pre.length 0 = pre ++ 0 :: body ++ [0] := by simp
  rw [getContentAndNumHeaders]
  dsimp only
  rw [List.take_left, hcount, Option.map_some, hcp]
  simp only [hlgth, hset, Nat.zero_add]

theorem counted (httpMsgInfo : HttpMsgInfo) (msg : List UInt8) :
    Counted httpMsgInfo msg
      (getContentAndNumHeaders msg.length { httpMsgInfo with data := msg ++ [0] }) := by
  obtain ⟨ls, body, h⟩ := exists_header 3 msg
  have hheader := h.headerLines_eq
  cases body with
  | none =>
    have hEnds : Ends msg = false := by rw [Ends, hheader]; rfl
    rw [getContent_endless httpMsgInfo h]
    constructor
    · rw [numParts, hheader]
    · simp
    · simp
    · rw [numParts, hheader]
      intro hpos
      exact List.mem_append_left _ (h.newLine_mem (by dsimp only at hpos; omega))
    · obtain ⟨ls', hls'⟩ := h.take_lines (by omega) httpMsgInfo.content
      refine ⟨_, (msg ++ [0]).drop httpMsgInfo.content, ls', (List.take_append_drop _ _).symm,
        hls', ?_, fun n => ?_⟩
      · by_cases hle : httpMsgInfo.content ≤ (msg ++ [0]).length
        · exact .inl (by rw [List.length_take, Nat.min_eq_left hle])
        · have hlt := Nat.not_le.mp hle
          refine .inr ⟨?_, List.drop_eq_nil_of_le hlt.le⟩
          rwa [List.length_take, Nat.min_eq_right hlt.le]
      · rw [walkedLines, hEnds, if_neg (by simp), hls'.splitOn_eq]
    · simp [hEnds]
    · simp [hEnds]
  | some body =>
    have hEnds : Ends msg = true := by rw [Ends, hheader]; rfl
    obtain ⟨pre, rfl, hlines, hline⟩ := h.split (by omega)
    rw [getContent_ended httpMsgInfo pre body h]
    constructor
    · rw [numParts, hheader]
    · simp [Nat.add_assoc]
    · exact List.getLast?_concat
    · rw [numParts, hheader]
      intro hpos
      rw [List.append_assoc]
      exact List.mem_append_left _ (hline (by dsimp only at hpos; omega))
    · refine ⟨pre ++ [0], body ++ [0], zeroEnded ls, by simp, hlines, .inl (by simp), fun n => ?_⟩
      rw [walkedLines, hEnds, if_pos rfl, hheader, zeroEnded_tail, walk_zeroEnded]
    · simp [hEnds]
    · simp [hEnds]

end Count

theorem walk_start (msg : List UInt8) (hEnds : Ends msg = false) (n : Nat) :
    walk n 1 (walkedLines 0 msg) = .ended := by
  rw [walkedLines, hEnds]
  rfl

section Parse

variable (heap : Heap) (httpMsgInfo : HttpMsgInfo) (msg : List UInt8) (s : HttpMsgInfo)
  (hs : Counted httpMsgInfo msg s)

include hs

theorem getHttpHeaders_isSome (hparts : s.receivedHeaders.length = numParts msg)
    (hpos : 0 < numParts msg) :
    (getHttpHeaders heap msg.length s).isSome ↔ Inside heap httpMsgInfo msg := by
  obtain ⟨R, T, ls, hdata, hlines, hlgth, hwalk⟩ := hs.lines
  rw [getHttpHeaders, Option.isSome_map]
  cases hheap : heap.lowerData with
  | true =>
    have hlower : (List.replicate (msg.length + 1) (0 : UInt8)).length = (R ++ T).length := by
      rw [List.length_replicate, ← hdata, hs.lgth]
    have hall := readHeaders_isSome hlines T _ s.receivedHeaders s.content
      (hdata ▸ hs.zero) hlgth hlower
    rw [hwalk, hparts, List.length_replicate, hs.content, ← hdata] at hall
    refine hall.trans ⟨fun h => ⟨hpos, .inl hheap, h.1, h.2⟩, fun h => ⟨h.known, h.content⟩⟩
  | false =>
    by_cases hzero : s.content = 0
    · obtain ⟨hEnds, hcontent⟩ := hs.start.mp hzero
      rw [hzero, readHeaders_of_le 0 _ (Nat.zero_le _)]
      refine iff_of_true rfl ⟨hpos, .inr ⟨hEnds, hcontent⟩, ?_, .inr (.inr (by omega))⟩
      rw [hcontent, walk_start msg hEnds]
      exact Walked.noConfusion
    · have hnone := readHeaders_noMemory s.data s.receivedHeaders s.content (by omega)
      rw [started] at hnone
      rw [if_neg (by simp), hnone]
      refine iff_of_false (by simp) fun h => ?_
      obtain hmemory | hmemory := h.memory
      · rw [hheap] at hmemory
        cases hmemory
      · exact hzero (hs.start.mpr hmemory)

theorem getHttpHeaders_scan (s' : HttpMsgInfo)
    (hparts : ∀ p ∈ s.receivedHeaders, p.httpHeaderId ≠ contentLengthId)
    (h : getHttpHeaders heap msg.length s = some (.ok, s')) (n : Nat) :
    (scanContentLength s'.data s'.expectedLgth (s'.receivedHeaders.take n)).isSome := by
  obtain ⟨⟨code, t⟩, ht, hpair⟩ := Option.map_eq_some_iff.mp h
  cases hpair
  have hkept := readHeaders_kept s.content (started _ s.data s.receivedHeaders) t
    ⟨hs.zero, fun p hp hid => absurd hid (hparts p hp)⟩ ht
  exact scanContentLength_isSome _ _ _ hkept.zero
    fun p hp hid => hkept.value p (List.mem_of_mem_take hp) hid

end Parse

/-- The header parts when the headers are read. -/
def firstPart (s : HttpMsgInfo) (code : Int) : HttpMsgInfo :=
  { s with
    receivedHeaders :=
      ⟨codeId, .code, .data 0⟩ :: List.replicate (s.numHeaders - 1) ⟨0, .null, .null⟩
    httpRequestCode := code }

theorem firstPart_ids (s : HttpMsgInfo) (code : Int) :
    ∀ p ∈ (firstPart s code).receivedHeaders, p.httpHeaderId ≠ contentLengthId := by
  intro p hp
  obtain rfl | hp := List.mem_cons.mp hp
  · simp [codeId, contentLengthId]
  · rw [List.eq_of_mem_replicate hp]
    simp [contentLengthId]

/-- What `httpParse` does behind the headers. -/
def finish : Code × HttpMsgInfo → Option (Code × HttpMsgInfo)
  | (.ok, s) => (scanContentLength s.data s.expectedLgth
      (s.receivedHeaders.take s.numHeaders)).map fun expectedLgth =>
      (.ok, { s with expectedLgth := expectedLgth })
  | r => some r

section Finish

variable (heap : Heap) (hdata : heap.data = true) (hreceived : heap.receivedHeaders = true)
  (httpMsgInfo : HttpMsgInfo) (msg : List UInt8)

include hdata hreceived

theorem httpParse_none (hpos : numParts msg = 0) : httpParse heap httpMsgInfo msg = none := by
  have hs := counted httpMsgInfo msg
  rw [httpParse, if_pos hdata]
  dsimp only
  rw [if_pos hreceived, hs.numHeaders, hpos]
  rfl

theorem httpParse_eq (hpos : 0 < numParts msg) :
    ∃ code, httpParse heap httpMsgInfo msg =
      (getHttpHeaders heap msg.length (firstPart
        (getContentAndNumHeaders msg.length { httpMsgInfo with data := msg ++ [0] }) code)).bind
        finish := by
  have hs := counted httpMsgInfo msg
  obtain ⟨n, hn⟩ : ∃ n, numParts msg = n + 1 := ⟨numParts msg - 1, by omega⟩
  rw [httpParse, if_pos hdata]
  dsimp only
  generalize getContentAndNumHeaders msg.length { httpMsgInfo with data := msg ++ [0] } = s at hs
  obtain ⟨code, hcode⟩ := getHttpRequestCode_eq
    { s with receivedHeaders := List.replicate s.numHeaders ⟨0, .null, .null⟩ } ⟨0, .null, .null⟩
    (List.replicate n ⟨0, .null, .null⟩) (by rw [hs.numHeaders, hn]; rfl) (hs.line hpos) hs.zero
  have hfirst : getHttpRequestCode
      { s with receivedHeaders := List.replicate s.numHeaders ⟨0, .null, .null⟩ } =
      some (firstPart s code) := by
    rw [hcode, firstPart, hs.numHeaders, hn, Nat.add_sub_cancel]
  refine ⟨code, ?_⟩
  rw [if_pos hreceived, hfirst]
  dsimp only
  cases getHttpHeaders heap msg.length (firstPart s code) with
  | none => rfl
  | some r =>
    obtain ⟨result, t⟩ := r
    cases result <;> rfl

end Finish

/-- The parser touches bytes of the data and header parts only, where there is memory for them. -/
theorem httpParse_isSome (heap : Heap) (httpMsgInfo : HttpMsgInfo) (msg : List UInt8) :
    (httpParse heap httpMsgInfo msg).isSome ↔
      heap.data = false ∨ heap.receivedHeaders = false ∨ Inside heap httpMsgInfo msg := by
  cases hdata : heap.data with
  | false => simp [httpParse, hdata]
  | true =>
    cases hreceived : heap.receivedHeaders with
    | false => simp [httpParse, hdata, hreceived]
    | true =>
      have hs := counted httpMsgInfo msg
      by_cases hpos : 0 < numParts msg
      · obtain ⟨code, hparse⟩ := httpParse_eq heap hdata hreceived httpMsgInfo msg hpos
        rw [hparse]
        generalize getContentAndNumHeaders msg.length { httpMsgInfo with data := msg ++ [0] } = s
          at hs
        have hfirst : Counted httpMsgInfo msg (firstPart s code) :=
          ⟨hs.numHeaders, hs.lgth, hs.zero, hs.line, hs.lines, hs.start, hs.content⟩
        have hinside := getHttpHeaders_isSome heap httpMsgInfo msg (firstPart s code) hfirst
          (by simp [firstPart, hs.numHeaders]; omega) hpos
        have hscan := getHttpHeaders_scan heap httpMsgInfo msg (firstPart s code) hfirst
        simp only [Bool.true_eq_false, false_or, ← hinside]
        cases hr : getHttpHeaders heap msg.length (firstPart s code) with
        | none => rfl
        | some r =>
          obtain ⟨result, s'⟩ := r
          cases result with
          | ok => simpa [finish] using hscan s' (firstPart_ids s code) hr s'.numHeaders
          | outOfMemory => rfl
          | headerNotFound => rfl
      · rw [httpParse_none heap hdata hreceived httpMsgInfo msg (by omega)]
        simp only [Option.isSome_none, Bool.false_eq_true, Bool.true_eq_false, false_or, false_iff]
        exact fun h => hpos h.part

end NodeMcu.CompMsg.HttpSafety
