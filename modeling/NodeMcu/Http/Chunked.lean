import NodeMcu.Http.Response

namespace NodeMcu.Http.Chunked

open NodeMcu.Lib.Search NodeMcu.Lib.Text NodeMcu.Http.Response

/-! ## The end of a line -/

section Line

variable {line rest str : List UInt8}

theorem cString_line (hline : 0 ∉ line) :
    cString (line ++ crlf ++ rest) = line ++ crlf ++ cString rest := by
  have hcrlf : ∀ c ∈ crlf, (c != 0) = true := List.all_eq_true.mp rfl
  refine List.takeWhile_append_of_pos fun c hc => ?_
  obtain hc | hc := List.mem_append.mp hc
  · exact bne_iff_ne.mpr fun h => hline (h ▸ hc)
  · exact hcrlf c hc

/-- A line without a line end in it is followed by the first one. -/
theorem firstAt_crlf (hcrlf : ¬crlf <:+: line) :
    FirstAt crlf (line ++ crlf ++ rest) line.length := by
  refine ⟨?_, fun j hj hstands => ?_⟩
  · rw [StandsAt, List.append_assoc, List.drop_left]
    exact List.prefix_append _ _
  · by_cases hfits : j + crlf.length ≤ line.length
    · rw [List.append_assoc, standsAt_append _ hfits, StandsAt] at hstands
      exact hcrlf (hstands.isInfix.trans (List.drop_suffix _ _).isInfix)
    · -- the byte behind the line is no line feed
      have hlast : j + 1 = line.length := by
        have htwo : crlf.length = 2 := rfl
        omega
      have hone : (line.drop j).length = 1 := by
        rw [List.length_drop]
        omega
      obtain ⟨c, hc⟩ := List.length_eq_one_iff.mp hone
      rw [StandsAt, List.append_assoc, List.drop_append_of_le_length (by omega), hc] at hstands
      have hfeed := (List.cons_prefix_cons.mp (List.cons_prefix_cons.mp hstands).2).1
      cases hfeed

theorem lineLength_line (hline : 0 ∉ line) (hcrlf : ¬crlf <:+: line) :
    lineLength (line ++ crlf ++ rest) = some line.length := by
  have hle : line.length ≤ (line ++ crlf ++ cString rest).length := by
    rw [List.length_append, List.length_append]
    omega
  rw [lineLength, cString_line hline, search_of_firstAt hle (firstAt_crlf hcrlf), Option.map_some,
    List.length_drop, Nat.sub_sub_self hle]

theorem exists_line {n : Nat} (h : lineLength str = some n) :
    ∃ line rest, str = line ++ crlf ++ rest ∧ 0 ∉ line ∧ ¬crlf <:+: line ∧ line.length = n := by
  obtain ⟨endstr, hsearch, hn⟩ := Option.map_eq_some_iff.mp h
  obtain ⟨i, hi, hfirst, rfl⟩ := search_eq_some_iff.mp hsearch
  rw [List.length_drop, Nat.sub_sub_self hi] at hn
  obtain ⟨behind, hbehind⟩ := hfirst.stands
  have hstr : str = (cString str).take i ++ crlf ++ (behind ++ str.dropWhile (· != 0)) := by
    calc str = cString str ++ str.dropWhile (· != 0) := List.takeWhile_append_dropWhile.symm
      _ = (cString str).take i ++ (cString str).drop i ++ str.dropWhile (· != 0) := by
        rw [List.take_append_drop]
      _ = (cString str).take i ++ crlf ++ (behind ++ str.dropWhile (· != 0)) := by
        rw [← hbehind]
        simp only [List.append_assoc]
  refine ⟨_, _, hstr, fun hzero => ?_, ?_, hn ▸ List.length_take_of_le hi⟩
  · have hne := List.mem_takeWhile_imp (List.mem_of_mem_take hzero)
    exact absurd hne Bool.false_ne_true
  · rintro ⟨before, after, hline⟩
    have hlength := congrArg List.length hline
    rw [List.length_take_of_le hi, List.length_append, List.length_append] at hlength
    have htwo : crlf.length = 2 := rfl
    refine hfirst.first before.length (by omega) ?_
    rw [StandsAt, ← List.take_append_drop i (cString str), ← hline, List.append_assoc,
      List.append_assoc, List.drop_left]
    exact List.prefix_append _ _

end Line

/-! ## What is decoded -/

/-- Chunks as they are read: lines with a number, as many bytes as it says behind each of them, and
two more whatever they are. The last number is not positive. -/
inductive Chunks : List UInt8 → List UInt8 → Prop
  | last {str : List UInt8} (hend : 0 ∈ str) (hsize : chunkSize str ≤ 0) : Chunks str []
  | chunk {line data rest decoded : List UInt8} (hline : 0 ∉ line) (hcrlf : ¬crlf <:+: line)
      (hdata : data ≠ []) (hsize : chunkSize (line ++ crlf ++ (data ++ rest)) = data.length)
      (hrest : Chunks (rest.drop 2) decoded) :
      Chunks (line ++ crlf ++ (data ++ rest)) (data ++ decoded)

theorem Chunks.zero_mem {str decoded : List UInt8} (h : Chunks str decoded) : 0 ∈ str := by
  induction h with
  | last hend => exact hend
  | chunk _ _ _ _ _ ih =>
    exact List.mem_append_right _ (List.mem_append_right _ (List.mem_of_mem_drop ih))

section Loop

variable {chunked decode str decoded : List UInt8} {fuel j decodeSize : Nat}

theorem decodeChunks_last (hend : 0 ∈ chunked.drop j) (hsize : chunkSize (chunked.drop j) ≤ 0) :
    decodeChunks chunked (fuel + 1) j decodeSize decode = .ok (j, decode) := by
  rw [decodeChunks]
  dsimp only
  rw [if_neg (not_not.mpr hend), if_pos hsize]

theorem decodeChunks_chunk {line data rest : List UInt8}
    (hstr : chunked.drop j = line ++ crlf ++ (data ++ rest)) (hend : 0 ∈ chunked.drop j)
    (hline : 0 ∉ line) (hcrlf : ¬crlf <:+: line) (hdata : data ≠ [])
    (hsize : chunkSize (chunked.drop j) = data.length)
    (hroom : decodeSize + data.length ≤ decode.length) :
    decodeChunks chunked (fuel + 1) j decodeSize decode =
      decodeChunks chunked fuel (j + line.length + 2 + data.length + 2) (decodeSize + data.length)
        (decode.take decodeSize ++ data ++ decode.drop (decodeSize + data.length)) := by
  have hpos : ¬chunkSize (chunked.drop j) ≤ 0 := by
    have := List.length_pos_iff.mpr hdata
    omega
  have hlength := congrArg List.length hstr
  have htwo : crlf.length = 2 := rfl
  simp only [List.length_drop, List.length_append, htwo] at hlength
  have hbehind : chunked.drop (j + line.length + 2) = data ++ rest := by
    rw [Nat.add_assoc, ← List.drop_drop, hstr]
    exact List.drop_left' (by rw [List.length_append, htwo])
  rw [decodeChunks]
  dsimp only
  rw [if_neg (not_not.mpr hend), if_neg hpos, hsize, Int.toNat_natCast, hstr,
    lineLength_line hline hcrlf]
  dsimp only
  rw [if_neg (by omega), hbehind, List.take_left]

/-- Where the loop goes on behind a chunk. -/
theorem drop_chunk {line data rest : List UInt8}
    (hstr : chunked.drop j = line ++ crlf ++ (data ++ rest)) :
    chunked.drop (j + line.length + 2 + data.length + 2) = rest.drop 2 := by
  have hsum : j + line.length + 2 + data.length + 2 = j + ((line ++ crlf ++ data).length + 2) := by
    have htwo : crlf.length = 2 := rfl
    simp only [List.length_append, htwo]
    omega
  rw [hsum, ← List.drop_drop, hstr, ← List.append_assoc, ← List.drop_drop, List.drop_left]

/-- One round of the loop. -/
theorem decodeChunks_step (chunked : List UInt8) (fuel j decodeSize : Nat)
    (decode : List UInt8) :
    decodeChunks chunked (fuel + 1) j decodeSize decode = .error .outside ∨
      (0 ∈ chunked.drop j ∧ chunkSize (chunked.drop j) ≤ 0) ∨
      ∃ line data rest, chunked.drop j = line ++ crlf ++ (data ++ rest) ∧ 0 ∉ line ∧
        ¬crlf <:+: line ∧ data ≠ [] ∧ chunkSize (chunked.drop j) = data.length ∧
        decodeChunks chunked (fuel + 1) j decodeSize decode =
          decodeChunks chunked fuel (j + line.length + 2 + data.length + 2)
            (decodeSize + data.length)
            (decode.take decodeSize ++ data ++ decode.drop (decodeSize + data.length)) := by
  by_cases hend : 0 ∈ chunked.drop j
  swap
  · exact .inl (by rw [decodeChunks]; exact if_pos hend)
  by_cases hsize : chunkSize (chunked.drop j) ≤ 0
  · exact .inr (.inl ⟨hend, hsize⟩)
  have hround := decodeChunks.eq_2 chunked j decodeSize decode fuel
  dsimp only at hround
  rw [if_neg (not_not.mpr hend), if_neg hsize] at hround
  cases hn : lineLength (chunked.drop j) with
  | none =>
    rw [hn] at hround
    exact .inl hround
  | some n =>
    rw [hn] at hround
    dsimp only at hround
    by_cases hfits : chunked.length < j + n + 2 + (chunkSize (chunked.drop j)).toNat ∨
        decode.length < decodeSize + (chunkSize (chunked.drop j)).toNat
    · rw [if_pos hfits] at hround
      exact .inl hround
    obtain ⟨line, behind, hstr, hline, hcrlf, rfl⟩ := exists_line hn
    have hi : ((behind.take (chunkSize (chunked.drop j)).toNat).length : Int) =
        chunkSize (chunked.drop j) := by
      have hlength := congrArg List.length hstr
      have htwo : crlf.length = 2 := rfl
      simp only [List.length_drop, List.length_append, htwo] at hlength
      rw [List.length_take_of_le (by omega)]
      exact Int.toNat_of_nonneg (by omega)
    rw [← List.take_append_drop (chunkSize (chunked.drop j)).toNat behind] at hstr
    have hdata : behind.take (chunkSize (chunked.drop j)).toNat ≠ [] := by
      rw [← List.length_pos_iff]
      omega
    exact .inr (.inr ⟨_, _, _, hstr, hline, hcrlf, hdata, hi.symm,
      decodeChunks_chunk hstr hend hline hcrlf hdata hi.symm (by omega)⟩)

/-- Chunks are decoded into what they are chunks of. -/
theorem Chunks.decodes (h : Chunks str decoded) (hstr : chunked.drop j = str)
    (hfuel : str.length < fuel) (hroom : decodeSize + str.length ≤ decode.length) :
    ∃ j', decodeChunks chunked fuel j decodeSize decode =
      .ok (j', decode.take decodeSize ++ decoded ++ decode.drop (decodeSize + decoded.length)) := by
  induction h generalizing fuel j decodeSize decode with
  | @last str hend hsize =>
    cases fuel with
    | zero => exact absurd hfuel (Nat.not_lt_zero _)
    | succ fuel =>
      refine ⟨j, ?_⟩
      rw [decodeChunks_last (hstr ▸ hend) (hstr ▸ hsize), List.append_nil, List.length_nil,
        Nat.add_zero, List.take_append_drop]
  | @chunk line data rest decoded hline hcrlf hdata hsize hrest ih =>
    cases fuel with
    | zero => exact absurd hfuel (Nat.not_lt_zero _)
    | succ fuel =>
      have htwo : crlf.length = 2 := rfl
      simp only [List.length_append, htwo] at hfuel hroom
      have hend : 0 ∈ chunked.drop j := hstr ▸ (Chunks.chunk hline hcrlf hdata hsize hrest).zero_mem
      have hnext := drop_chunk hstr
      have hwritten : (decode.take decodeSize ++ data).length = decodeSize + data.length := by
        rw [List.length_append, List.length_take_of_le (by omega)]
      have hfuel' : (rest.drop 2).length < fuel := by
        rw [List.length_drop]
        omega
      have hroom' : decodeSize + data.length + (rest.drop 2).length ≤
          (decode.take decodeSize ++ data ++ decode.drop (decodeSize + data.length)).length := by
        rw [List.length_append, hwritten, List.length_drop, List.length_drop]
        omega
      obtain ⟨j', hj'⟩ := ih hnext hfuel' hroom'
      refine ⟨j', ?_⟩
      rw [decodeChunks_chunk hstr hend hline hcrlf hdata (hstr ▸ hsize) (by omega), hj',
        List.take_left' hwritten, List.drop_append, hwritten, List.length_append,
        List.drop_eq_nil_of_le (by rw [hwritten]; omega), List.nil_append, List.drop_drop,
        Nat.add_sub_cancel_left]
      simp only [List.append_assoc, Nat.add_assoc]

theorem chunks_of_decode {r : Nat × List UInt8}
    (h : decodeChunks chunked fuel j decodeSize decode = .ok r) :
    ∃ decoded, Chunks (chunked.drop j) decoded := by
  induction fuel generalizing j decodeSize decode with
  | zero => cases h
  | succ fuel ih =>
    obtain hstop | ⟨hend, hsize⟩ |
      ⟨line, data, rest, hstr, hline, hcrlf, hdata, hsize, hnext⟩ :=
      decodeChunks_step chunked fuel j decodeSize decode
    · cases hstop.symm.trans h
    · exact ⟨[], .last hend hsize⟩
    · obtain ⟨decoded, hdecoded⟩ := ih (hnext ▸ h)
      rw [drop_chunk hstr] at hdecoded
      rw [hstr] at hsize ⊢
      exact ⟨_, .chunk hline hcrlf hdata hsize hdecoded⟩

theorem decodeChunks_ends (hfuel : (chunked.drop j).length < fuel) :
    decodeChunks chunked fuel j decodeSize decode ≠ .error .endless := by
  induction fuel generalizing j decodeSize decode with
  | zero => exact absurd hfuel (Nat.not_lt_zero _)
  | succ fuel ih =>
    obtain hstop | ⟨hend, hsize⟩ |
      ⟨line, data, rest, hstr, -, -, hdata, -, hnext⟩ :=
      decodeChunks_step chunked fuel j decodeSize decode
    · rw [hstop]
      exact fun h => nomatch h
    · rw [decodeChunks_last hend hsize]
      exact fun h => nomatch h
    · rw [hnext]
      refine ih ?_
      have hlength := congrArg List.length hstr
      have hpos := List.length_pos_iff.mpr hdata
      rw [List.length_append, List.length_append, List.length_append] at hlength
      rw [drop_chunk hstr, List.length_drop]
      omega

end Loop

/-! ## The bodies -/

section Body

variable {body decoded : List UInt8}

theorem httpChunkedDecode_of_chunks (h : Chunks body decoded) :
    ∃ j, httpChunkedDecode body (List.replicate body.length 0) =
      .ok (j, padded body.length decoded) := by
  have hstart : body.drop 0 = body := List.drop_zero
  have hroom : 0 + body.length ≤ (List.replicate body.length (0 : UInt8)).length := by
    rw [Nat.zero_add, List.length_replicate]
  obtain ⟨j, hj⟩ := h.decodes hstart (Nat.lt_succ_self _) hroom
  refine ⟨j, ?_⟩
  rw [httpChunkedDecode, hj, padded, List.take_zero, List.nil_append, Nat.zero_add,
    List.drop_replicate]

/-- The decoding stays within the two buffers if and only if it decodes chunks. -/
theorem httpChunkedDecode_iff :
    (∃ r, httpChunkedDecode body (List.replicate body.length 0) = .ok r) ↔
      ∃ decoded, Chunks body decoded := by
  constructor
  · rintro ⟨r, hr⟩
    exact chunks_of_decode hr
  · rintro ⟨decoded, h⟩
    obtain ⟨j, hj⟩ := httpChunkedDecode_of_chunks h
    exact ⟨_, hj⟩

/-- It ends on every body. -/
theorem httpChunkedDecode_ends (decode : List UInt8) :
    httpChunkedDecode body decode ≠ .error .endless :=
  decodeChunks_ends (Nat.lt_succ_self _)

end Body

/-! ## Encoded chunks -/

/-- A line with a size, and with an extension or without. -/
structure SizeLine where
  digits : List UInt8
  ext : List UInt8
  nonempty : digits ≠ []
  hex : ∀ c ∈ digits, isXDigit c = true
  ends : EndsHex ext
  noNul : 0 ∉ digits ++ ext
  noCrlf : ¬crlf <:+: digits ++ ext

def SizeLine.text (l : SizeLine) : List UInt8 := l.digits ++ l.ext

def SizeLine.size (l : SizeLine) : Nat := hexadecimal l.digits

structure Chunk where
  line : SizeLine
  data : List UInt8
  nonempty : data ≠ []
  size : line.size = data.length

def Chunk.encoded (c : Chunk) : List UInt8 := c.line.text ++ crlf ++ (c.data ++ crlf)

/-- The line that closes the chunks. -/
structure LastLine extends SizeLine where
  zero : toSizeLine.size = 0

/-- Chunks, the line that closes them, and whatever follows. -/
def encoded (cs : List Chunk) (last : LastLine) (tail : List UInt8) : List UInt8 :=
  cs.flatMap Chunk.encoded ++ (last.text ++ crlf ++ tail)

theorem endsHex_line {ext : List UInt8} (h : EndsHex ext) (rest : List UInt8) :
    EndsHex (ext ++ (crlf ++ rest)) := by
  cases ext with
  | nil =>
    intro c hc
    obtain rfl : 0x0D = c := Option.some.inj hc
    decide
  | cons x ext => exact h

theorem chunkSize_eq {str : List UInt8} (h : strtoul16 str < 2 ^ 31) :
    chunkSize str = strtoul16 str :=
  Int.bmod_eq_of_le (by omega) (by omega)

theorem chunkSize_line (l : SizeLine) (rest : List UInt8) (h : l.size < 2 ^ 31) :
    chunkSize (l.text ++ crlf ++ rest) = l.size := by
  have hends := endsHex_line l.ends rest
  have hlt : hexadecimal l.digits < 2 ^ 32 := Nat.lt_trans h (by decide)
  have hvalue : strtoul16 (l.text ++ crlf ++ rest) = l.size := by
    rw [SizeLine.text, List.append_assoc, List.append_assoc,
      strtoul16_digits l.nonempty l.hex hends hlt]
    rfl
  rw [chunkSize_eq (hvalue ▸ h), hvalue]

theorem chunks_encoded (cs : List Chunk) (last : LastLine) (tail rest : List UInt8)
    (hrest : 0 ∈ rest) (hfits : (encoded cs last tail).length < 2 ^ 31) :
    Chunks (encoded cs last tail ++ rest) (cs.flatMap Chunk.data) := by
  induction cs with
  | nil =>
    refine .last (List.mem_append_right _ hrest) ?_
    have hzero : last.size < 2 ^ 31 := by
      rw [last.zero]
      decide
    rw [encoded, List.flatMap_nil, List.nil_append, List.append_assoc,
      chunkSize_line _ _ hzero, last.zero]
    exact le_rfl
  | cons c cs ih =>
    have htext : encoded (c :: cs) last tail ++ rest =
        c.line.text ++ crlf ++ (c.data ++ (crlf ++ (encoded cs last tail ++ rest))) := by
      simp only [encoded, List.flatMap_cons, Chunk.encoded, List.append_assoc]
    have hlength : (encoded (c :: cs) last tail).length =
        c.encoded.length + (encoded cs last tail).length := by
      rw [encoded, List.flatMap_cons, List.append_assoc, List.length_append]
      rfl
    have hdata : c.data.length ≤ c.encoded.length := by
      simp only [Chunk.encoded, List.length_append]
      omega
    rw [htext, List.flatMap_cons]
    refine .chunk ?_ ?_ c.nonempty ?_ (ih (by omega))
    · exact c.line.noNul
    · exact c.line.noCrlf
    · rw [chunkSize_line _ _ (by rw [c.size]; omega), c.size]

/-! ## The decoding of a body -/

/-- A body behind the blank line. Its size with the zero behind it is an `int`. -/
structure Body where
  text : List UInt8
  fits : text.length + 1 < 2 ^ 31

def Body.bytes (b : Body) : List UInt8 := b.text ++ [0]

/-- The call in `http_disconnect_callback`. -/
def Body.decode (b : Body) : Except Stop (Nat × List UInt8) :=
  httpChunkedDecode b.bytes (List.replicate b.bytes.length 0)

/-- The decoding ends and stays within the buffers, and what encodes chunks is decoded into their
data. -/
def Decodes (b : Body) : Prop :=
  (∃ r, b.decode = .ok r) ∧
    ∀ cs last tail, b.text = encoded cs last tail →
      ∃ j, b.decode = .ok (j, padded b.bytes.length (cs.flatMap Chunk.data))

/-- Exactly what consists of chunks to the end is decoded within the buffers. -/
theorem decodes_iff (b : Body) : Decodes b ↔ ∃ decoded, Chunks b.bytes decoded := by
  constructor
  · rintro ⟨hdecode, -⟩
    exact httpChunkedDecode_iff.mp hdecode
  · intro h
    refine ⟨httpChunkedDecode_iff.mpr h, fun cs last tail htext => ?_⟩
    have hfits := b.fits
    have hchunks := chunks_encoded cs last tail [0] List.mem_cons_self (by rw [← htext]; omega)
    rw [← htext] at hchunks
    exact httpChunkedDecode_of_chunks hchunks

/-- A chunk of 255 bytes is announced, and two come. -/
def longChunk : List UInt8 := bytesOf "ff\r\nab"

theorem longChunk_fits : longChunk.length + 1 < 2 ^ 31 := by decide

theorem longChunk_not_decodes : ¬Decodes ⟨longChunk, longChunk_fits⟩ := by
  have hstop : Body.decode ⟨longChunk, longChunk_fits⟩ = .error .outside := by decide +kernel
  rintro ⟨⟨r, hr⟩, -⟩
  cases hstop.symm.trans hr

end NodeMcu.Http.Chunked
