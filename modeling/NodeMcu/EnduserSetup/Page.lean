import Mathlib.Algebra.Group.Nat.Defs
import Mathlib.Algebra.GroupWithZero.Nat
import NodeMcu.Lib.Block
import NodeMcu.Lib.Printing
import NodeMcu.Lib.Search

namespace NodeMcu.EnduserSetup.Page

open NodeMcu.Lib.Block NodeMcu.Lib.Printing NodeMcu.Lib.Search NodeMcu.Lib.Text

/-! ## The setup page, loaded and streamed out -/

/-- Its only line end is a single one. -/
def httpHeader200 : List UInt8 :=
  bytesOf "HTTP/1.1 200 OK\r\nCache-control:no-cache\r\nContent-Type: text/html\r\n"

def clHdr (len : Nat) : List UInt8 :=
  bytesOf "Content-length:" ++ printWidth 5 len ++ bytesOf "\r\n\r\n"

/-- The format has 22 bytes, and 3 are added for the expansion of its number. -/
def clLen : Nat := (bytesOf "Content-length:%5d\r\n\r\n").length + 3

/-- The block for a page, filled with the header, its length line and the page. What `c_sprintf`
prints ends in a zero that is not counted. -/
def payload (junk : Nat → UInt8) (page : List UInt8) : Option (List UInt8) :=
  let payloadLen := httpHeader200.length + clLen + page.length
  let offset := httpHeader200.length
  (put (fresh junk payloadLen) 0 httpHeader200).bind fun data =>
    (put data offset (clHdr page.length ++ [0])).bind fun data =>
      put data (offset + (clHdr page.length).length) page

/-- `none` without memory for it; inside, `none` where a write leaves the block. -/
def enduserSetupHttpLoadPayload (backup : List UInt8) (file : Option (List UInt8))
    (mem : Option (Nat → UInt8)) : Option (Option (List UInt8)) :=
  match mem with
  | none => none
  | some junk =>
    match file with
    | none => some (payload junk backup)
    | some text => some (payload junk text)

/-- A connection: what was handed to `tcp_write` on it, and the offset in its argument while
`streamout_sent` is called for it. -/
structure Conn where
  handed : List UInt8
  arg : Option Nat

/-- A call of `streamout_sent`: the free size of the send buffer, and whether `tcp_write` takes
what it is handed. -/
structure Call where
  free : UInt16
  accepted : Bool

def streamoutSent (data : List UInt8) (conn : Conn) (call : Call) : Option Conn :=
  match conn.arg with
  | none => some conn
  | some offs =>
    let wanted := (data.length + 2 ^ 32 - offs) % 2 ^ 32
    let wantedLen := if call.free.toNat < wanted then call.free.toNat else wanted
    (slice data offs wantedLen).map fun bytes =>
      { handed := conn.handed ++ bytes
        arg := if !call.accepted then none
          else if data.length ≤ offs + wantedLen then none
          else some (offs + wantedLen) }

/-- The first chunk is as long as the send buffer is free. -/
def enduserSetupHttpServeHtml (data : List UInt8) (chunklen : UInt16) : Option Conn :=
  (slice data 0 chunklen.toNat).map fun bytes => { handed := bytes, arg := some chunklen.toNat }

def streamOut (data : List UInt8) : Conn → List Call → Option Conn
  | conn, [] => some conn
  | conn, call :: calls => (streamoutSent data conn call).bind fun conn => streamOut data conn calls

/-- A page is served on a connection. `none` where something outside the payload is accessed,
a null pointer handed to `tcp_write` included. -/
def serve (backup : List UInt8) (file : Option (List UInt8)) (mem : Option (Nat → UInt8))
    (chunklen : UInt16) (calls : List Call) : Option Conn :=
  match enduserSetupHttpLoadPayload backup file mem with
  | none => none
  | some loaded =>
    loaded.bind fun data =>
      (enduserSetupHttpServeHtml data chunklen).bind fun conn => streamOut data conn calls

/-! ## What is to be sent -/

/-- The header in front of a page. -/
def header (page : List UInt8) : List UInt8 := httpHeader200 ++ clHdr page.length

/-- The number behind the first name of the length. -/
def contentLength (message : List UInt8) : Option Int :=
  (search (bytesOf "Content-length:") message).map fun rest => number (rest.drop 15)

/-- The free sizes that were reported, up to the call whose bytes are not taken. -/
def reported : List Call → Nat
  | [] => 0
  | call :: calls => call.free.toNat + if call.accepted then reported calls else 0

/-- As many bytes of the header and the page are handed over as there was room for. -/
def Streams (page : List UInt8) (chunklen : UInt16) (calls : List Call) (conn : Conn) : Prop :=
  conn.handed = (header page ++ page).take (chunklen.toNat + reported calls) ∧
    contentLength (header page) = some (page.length : Int)

/-! ## The payload -/

theorem clHdr_length (len : Nat) : (clHdr len).length = 19 + (printWidth 5 len).length := by
  rw [clHdr, List.length_append, List.length_append]
  have hname : (bytesOf "Content-length:").length = 15 := by decide
  have hend : (bytesOf "\r\n\r\n").length = 4 := by decide
  omega

theorem clLen_eq : clLen = 25 := by decide

/-- The length line of a page of up to 99999 bytes is a byte shorter than the room for it. -/
theorem clHdr_length_small {len : Nat} (h : len < 10 ^ 5) : (clHdr len).length = 24 := by
  rw [clHdr_length, printWidth_length_of_lt (by decide) h]

theorem clHdr_length_le (len : Nat) : (clHdr len).length ≤ 25 ↔ len < 10 ^ 6 := by
  rw [clHdr_length, printWidth_length, ← toDecimal_length_le (by decide)]
  omega

/-- A page of less than a million bytes stands behind its header, with what is left of the
block behind it. -/
theorem payload_eq (junk : Nat → UInt8) {page : List UInt8} (h : page.length < 10 ^ 6) :
    ∃ rest, payload junk page = some (header page ++ page ++ rest) ∧
      rest.length = 25 - (clHdr page.length).length := by
  have hline := (clHdr_length_le page.length).mpr h
  have hzero : (clHdr page.length ++ [0]).length ≤ 25 + page.length := by
    rw [List.length_append, List.length_singleton]
    by_cases hsmall : page.length < 10 ^ 5
    · rw [clHdr_length_small hsmall]
      omega
    · omega
  have hfresh := length_fresh junk (httpHeader200.length + clLen + page.length)
  rw [clLen_eq] at hfresh
  have hfirst := put_behind [] (fresh junk (httpHeader200.length + clLen + page.length))
    httpHeader200 (by rw [clLen_eq, hfresh]; omega)
  rw [List.nil_append, List.nil_append, List.length_nil] at hfirst
  generalize hblock : (fresh junk (httpHeader200.length + clLen + page.length)).drop
    httpHeader200.length = block at hfirst
  have hblockLen : block.length = 25 + page.length := by
    rw [← hblock, List.length_drop, clLen_eq, hfresh]
    omega
  have hsecond := put_behind httpHeader200 block (clHdr page.length ++ [0])
    (by rw [hblockLen]; exact hzero)
  generalize hleft : block.drop (clHdr page.length ++ [0]).length = left at hsecond
  have hleftLen : left.length + 1 + (clHdr page.length).length = 25 + page.length := by
    rw [List.length_append, List.length_singleton] at hzero hleft
    rw [← hleft, List.length_drop, hblockLen]
    omega
  have hthird := put_behind (header page) (0 :: left) page (by rw [List.length_cons]; omega)
  rw [header, List.length_append, List.append_assoc] at hthird
  refine ⟨(0 :: left).drop page.length, ?_, ?_⟩
  · rw [payload, hfirst, Option.bind_some, hsecond, Option.bind_some,
      List.append_assoc (clHdr page.length), List.singleton_append, hthird, header]
    simp only [List.append_assoc]
  · rw [List.length_drop, List.length_cons]
    omega

/-- A page of a million bytes has no room behind its length line. -/
theorem payload_eq_none (junk : Nat → UInt8) {page : List UInt8} (h : 10 ^ 6 ≤ page.length) :
    payload junk page = none := by
  have hline : 25 < (clHdr page.length).length := by
    apply Nat.lt_of_not_le
    rw [clHdr_length_le]
    omega
  rw [payload, Option.bind_eq_none_iff]
  intro data hdata
  rw [Option.bind_eq_none_iff]
  intro data' hdata'
  apply put_of_gt
  rw [put_length hdata', put_length hdata, length_fresh, clLen_eq]
  omega

/-- The length is the number that was printed behind its name. -/
theorem contentLength_printed {pre : List UInt8} (hpre : ¬bytesOf "Content-length:" <:+: pre)
    (width n : Nat) {rest : List UInt8} (hrest : (rest.head?.all fun c => !isDigit c) = true) :
    contentLength (pre ++ (bytesOf "Content-length:" ++ (printWidth width n ++ rest))) =
      some (n : Int) := by
  have hname : bytesOf "Content-length:" = bytesOf "Content-length" ++ [0x3A] := by decide
  have hplace : FirstAt (bytesOf "Content-length:")
      (pre ++ (bytesOf "Content-length:" ++ (printWidth width n ++ rest))) pre.length := by
    rw [hname] at hpre ⊢
    exact firstAt_given (by decide) hpre _
  have hlen : (bytesOf "Content-length:").length = 15 := by decide
  rw [contentLength, search_of_firstAt (by rw [List.length_append]; omega) hplace,
    Option.map_some, List.drop_left, List.drop_left' hlen, number_printWidth width n hrest]

theorem contentLength_header (page : List UInt8) :
    contentLength (header page) = some (page.length : Int) := by
  rw [header, clHdr, List.append_assoc (bytesOf _)]
  exact contentLength_printed (by decide +kernel) 5 page.length (by decide)

/-! ## The stream -/

/-- A connection that has handed over the first bytes of the payload. -/
structure Handed (data : List UInt8) (n : Nat) (conn : Conn) : Prop where
  bytes : conn.handed = data.take n
  offset : conn.arg = some n
  le : n ≤ data.length

theorem streamoutSent_of_handed {data : List UInt8} {n : Nat} {conn : Conn} (call : Call)
    (h : Handed data n conn) (hlen : data.length < 2 ^ 32) :
    ∃ conn', streamoutSent data conn call = some conn' ∧
      conn'.handed = data.take (n + call.free.toNat) ∧
      (conn'.arg = none ∧ (call.accepted = true → data.length ≤ n + call.free.toNat) ∨
        call.accepted = true ∧ Handed data (n + call.free.toNat) conn') := by
  have hle := h.le
  have hwanted : (data.length + 2 ^ 32 - n) % 2 ^ 32 = data.length - n := by omega
  rw [streamoutSent, h.offset]
  simp only [hwanted]
  generalize hlenEq : (if call.free.toNat < data.length - n then call.free.toNat
    else data.length - n) = wantedLen
  have hinside : n + wantedLen ≤ data.length := by
    rw [← hlenEq]
    split <;> omega
  have hbytes : conn.handed ++ (data.drop n).take wantedLen =
      data.take (n + call.free.toNat) := by
    rw [h.bytes, ← List.take_add]
    rw [← hlenEq]
    split
    · rfl
    · rw [List.take_of_length_le (by omega), List.take_of_length_le (by omega)]
  rw [slice_of_le hinside, Option.map_some]
  refine ⟨_, rfl, hbytes, ?_⟩
  cases hacc : call.accepted with
  | false => exact Or.inl ⟨rfl, fun h => Bool.noConfusion h⟩
  | true =>
    by_cases hend : data.length ≤ n + wantedLen
    · refine Or.inl ⟨if_pos hend, fun _ => ?_⟩
      rw [← hlenEq] at hend
      split at hend <;> omega
    · have hfree : wantedLen = call.free.toNat := by
        rw [← hlenEq, if_pos]
        apply Nat.lt_of_not_le
        intro hall
        rw [← hlenEq, if_neg (Nat.not_lt.mpr hall)] at hend
        omega
      rw [← hfree] at hbytes ⊢
      exact Or.inr ⟨rfl, hbytes, if_neg hend, hinside⟩

theorem streamOut_stopped {data : List UInt8} {conn : Conn} (h : conn.arg = none)
    (calls : List Call) : streamOut data conn calls = some conn := by
  induction calls with
  | nil => rfl
  | cons call calls ih => rw [streamOut, streamoutSent, h, Option.bind_some, ih]

/-- A stream hands over the payload from where it is, as far as free sizes were reported. -/
theorem streamOut_of_handed {data : List UInt8} (hlen : data.length < 2 ^ 32)
    (calls : List Call) {n : Nat} {conn : Conn} (h : Handed data n conn) :
    ∃ conn', streamOut data conn calls = some conn' ∧
      conn'.handed = data.take (n + reported calls) := by
  induction calls generalizing n conn with
  | nil => exact ⟨conn, rfl, h.bytes⟩
  | cons call calls ih =>
    obtain ⟨conn', hstep, hbytes, hstop | ⟨hacc, hnext⟩⟩ := streamoutSent_of_handed call h hlen
    · refine ⟨conn', ?_, ?_⟩
      · rw [streamOut, hstep, Option.bind_some, streamOut_stopped hstop.1]
      · rw [hbytes, reported]
        cases hacc : call.accepted with
        | false => rfl
        | true =>
          have hall := hstop.2 hacc
          rw [List.take_of_length_le hall, List.take_of_length_le (by rw [if_pos rfl]; omega)]
    · obtain ⟨conn'', hrun, hrest⟩ := ih hnext
      refine ⟨conn'', ?_, ?_⟩
      · rw [streamOut, hstep, Option.bind_some, hrun]
      · rw [hrest, reported, hacc, if_pos rfl, Nat.add_assoc]

/-- A payload is served as far as free sizes are reported, if the first one is not larger
than the payload. -/
theorem serveHtml_eq {data : List UInt8} (hlen : data.length < 2 ^ 32) {chunklen : UInt16}
    (hfirst : chunklen.toNat ≤ data.length) (calls : List Call) :
    ∃ conn, ((enduserSetupHttpServeHtml data chunklen).bind fun conn =>
        streamOut data conn calls) = some conn ∧
      conn.handed = data.take (chunklen.toNat + reported calls) := by
  rw [enduserSetupHttpServeHtml, slice_of_le (by omega), Option.map_some, Option.bind_some]
  exact streamOut_of_handed hlen calls ⟨rfl, rfl, hfirst⟩

/-! ## When the page is streamed as it is -/

/-- The served page, of a file or built in. -/
def pageOf (backup : List UInt8) (file : Option (List UInt8)) : List UInt8 := file.getD backup

/-- There is memory for the payload, the page has less than a million bytes, the first free size
does not exceed the message, and a page of less than 100000 bytes is not asked for the byte
behind it. -/
structure Fits (page : List UInt8) (mem : Option (Nat → UInt8)) (chunklen : UInt16)
    (calls : List Call) : Prop where
  obtained : mem.isSome = true
  short : page.length < 10 ^ 6
  first : chunklen.toNat ≤ (header page ++ page).length
  behind : page.length < 10 ^ 5 → chunklen.toNat + reported calls ≤ (header page ++ page).length

theorem load_eq (backup : List UInt8) (file : Option (List UInt8)) (junk : Nat → UInt8) :
    enduserSetupHttpLoadPayload backup file (some junk) =
      some (payload junk (pageOf backup file)) := by
  cases file <;> rfl

/-- A first part of a text with something behind it is one of the text if it does not reach
behind. -/
theorem take_append_eq_take_iff (xs rest : List UInt8) (n : Nat) :
    (xs ++ rest).take n = xs.take n ↔ n ≤ xs.length ∨ rest = [] := by
  constructor
  · intro h
    have hlen := congrArg List.length h
    rw [List.length_take, List.length_take, List.length_append] at hlen
    by_cases hn : n ≤ xs.length
    · exact Or.inl hn
    · right
      apply List.eq_nil_of_length_eq_zero
      omega
  · rintro (h | rfl)
    · exact List.take_append_of_le_length h
    · rw [List.append_nil]

/-- The stream of a page of less than a million bytes, with what is left of the block. -/
theorem serve_eq (backup : List UInt8) (file : Option (List UInt8)) (junk : Nat → UInt8)
    (h : (pageOf backup file).length < 10 ^ 6) :
    ∃ rest, rest.length = 25 - (clHdr (pageOf backup file).length).length ∧
      ∀ (chunklen : UInt16) (calls : List Call),
        (chunklen.toNat ≤ (header (pageOf backup file) ++ pageOf backup file ++ rest).length →
          ∃ conn, serve backup file (some junk) chunklen calls = some conn ∧
            conn.handed = (header (pageOf backup file) ++ pageOf backup file ++ rest).take
              (chunklen.toNat + reported calls)) ∧
        ((header (pageOf backup file) ++ pageOf backup file ++ rest).length < chunklen.toNat →
          serve backup file (some junk) chunklen calls = none) := by
  obtain ⟨rest, hpayload, hrest⟩ := payload_eq junk h
  refine ⟨rest, hrest, fun chunklen calls => ⟨fun hfirst => ?_, fun hfirst => ?_⟩⟩
  · have hlen : (header (pageOf backup file) ++ pageOf backup file ++ rest).length < 2 ^ 32 := by
      have hheader : httpHeader200.length = 66 := by decide
      have hline := (clHdr_length_le _).mpr h
      rw [List.length_append, List.length_append, header, List.length_append]
      omega
    obtain ⟨conn, hrun, hbytes⟩ := serveHtml_eq hlen hfirst calls
    exact ⟨conn, by rw [serve, load_eq, hpayload]; exact hrun, hbytes⟩
  · rw [serve, load_eq, hpayload]
    simp only [Option.bind_some]
    rw [enduserSetupHttpServeHtml, slice_of_gt (by omega)]
    rfl

theorem fits_of_streams {backup : List UInt8} {file : Option (List UInt8)}
    {mem : Option (Nat → UInt8)} {chunklen : UInt16} {calls : List Call} {conn : Conn}
    (hrun : serve backup file mem chunklen calls = some conn)
    (hstreams : Streams (pageOf backup file) chunklen calls conn) :
    Fits (pageOf backup file) mem chunklen calls := by
  obtain ⟨hbytes, -⟩ := hstreams
  cases mem with
  | none => exact absurd hrun (Option.some_ne_none conn).symm
  | some junk =>
    by_cases hshort : (pageOf backup file).length < 10 ^ 6
    · obtain ⟨rest, hrest, hserve⟩ := serve_eq backup file junk hshort
      obtain ⟨hin, hout⟩ := hserve chunklen calls
      have hfirst : chunklen.toNat ≤
          (header (pageOf backup file) ++ pageOf backup file ++ rest).length := by
        apply Nat.le_of_not_lt
        intro hgt
        rw [hout hgt] at hrun
        cases hrun
      obtain ⟨conn', hrun', hbytes'⟩ := hin hfirst
      obtain rfl := Option.some.inj (hrun.symm.trans hrun')
      rw [hbytes', take_append_eq_take_iff] at hbytes
      have hbehind : (pageOf backup file).length < 10 ^ 5 →
          chunklen.toNat + reported calls ≤
            (header (pageOf backup file) ++ pageOf backup file).length := by
        intro hsmall
        rw [clHdr_length_small hsmall] at hrest
        refine hbytes.resolve_right fun hnil => ?_
        rw [hnil] at hrest
        cases hrest
      refine ⟨rfl, hshort, ?_, hbehind⟩
      rcases hbytes with hle | hnil
      · omega
      · rw [hnil, List.append_nil] at hfirst
        exact hfirst
    · rw [serve, load_eq, payload_eq_none junk (Nat.not_lt.mp hshort)] at hrun
      cases hrun

theorem streams_of_fits {backup : List UInt8} {file : Option (List UInt8)}
    {mem : Option (Nat → UInt8)} {chunklen : UInt16} {calls : List Call}
    (h : Fits (pageOf backup file) mem chunklen calls) :
    ∃ conn, serve backup file mem chunklen calls = some conn ∧
      Streams (pageOf backup file) chunklen calls conn := by
  obtain ⟨junk, rfl⟩ := Option.isSome_iff_exists.mp h.obtained
  obtain ⟨rest, hrest, hserve⟩ := serve_eq backup file junk h.short
  have hfirst : chunklen.toNat ≤
      (header (pageOf backup file) ++ pageOf backup file ++ rest).length := by
    rw [List.length_append]
    exact Nat.le_add_right_of_le h.first
  obtain ⟨conn, hrun, hbytes⟩ := (hserve chunklen calls).1 hfirst
  refine ⟨conn, hrun, ?_, contentLength_header _⟩
  rw [hbytes, take_append_eq_take_iff]
  by_cases hsmall : (pageOf backup file).length < 10 ^ 5
  · exact Or.inl (h.behind hsmall)
  · right
    have hline : 24 < (clHdr (pageOf backup file).length).length := by
      have hdigits : 5 < (printWidth 5 (pageOf backup file).length).length :=
        lt_printWidth_length (by decide) (Nat.not_lt.mp hsmall)
      rw [clHdr_length]
      omega
    apply List.eq_nil_of_length_eq_zero
    rw [hrest]
    omega

/-- The header and the page go out as they are, each byte once, exactly if nothing of the block
behind them is asked for. -/
theorem page_streamed_iff (backup : List UInt8) (file : Option (List UInt8))
    (mem : Option (Nat → UInt8)) (chunklen : UInt16) (calls : List Call) :
    (∃ conn, serve backup file mem chunklen calls = some conn ∧
      Streams (pageOf backup file) chunklen calls conn) ↔
      Fits (pageOf backup file) mem chunklen calls := by
  constructor
  · rintro ⟨conn, hrun, hstreams⟩
    exact fits_of_streams hrun hstreams
  · intro h
    exact streams_of_fits h

/-- Of a page of two bytes a third one is sent behind them, whatever the memory held there. -/
theorem page_not_streamed :
    ¬∃ conn, serve [] (some (bytesOf "hi")) (some fun _ => 0xFF) 10 [⟨2920, true⟩] = some conn ∧
      Streams (pageOf [] (some (bytesOf "hi"))) 10 [⟨2920, true⟩] conn := by
  rintro ⟨conn, hrun, hbytes, _⟩
  have hlen : (serve [] (some (bytesOf "hi")) (some fun _ => 0xFF) 10 [⟨2920, true⟩]).map
      (·.handed.length) = some 93 := by decide +kernel
  have hmsg : ((header (pageOf [] (some (bytesOf "hi"))) ++ pageOf [] (some (bytesOf "hi"))).take
      ((10 : UInt16).toNat + reported [⟨2920, true⟩])).length = 92 := by decide +kernel
  rw [hrun, Option.map_some, hbytes, hmsg] at hlen
  cases hlen

end NodeMcu.EnduserSetup.Page
