import NodeMcu.EnduserSetup.Page
import NodeMcu.Lib.Json

namespace NodeMcu.EnduserSetup.ScanList

open NodeMcu.EnduserSetup.Page NodeMcu.Lib.Block NodeMcu.Lib.Json NodeMcu.Lib.Printing
  NodeMcu.Lib.Text

/-! ## The list of access points -/

/-- A network that was found: the bytes of its SSID, up to its length, and its signal strength. -/
structure BssInfo where
  ssid : List UInt8
  ssid_le : ssid.length ≤ 32
  rssi : Int8

/-- The field of 32 bytes that holds the SSID. -/
def BssInfo.field (wn : BssInfo) : List UInt8 := padded 32 wn.ssid

/-- What is written for the bytes of a field, up to its end or its first zero. -/
def escapeSsid : List UInt8 → List UInt8
  | [] => []
  | c :: src =>
    if c = 0 then []
    else if c = 0x5C ∨ c = 0x22 then 0x5C :: c :: escapeSsid src
    else c :: escapeSsid src

/-- The block and the pointer that writes it. -/
structure Writer where
  http : List UInt8
  p : Nat

def Writer.emit (w : Writer) (bytes : List UInt8) : Option Writer :=
  (put w.http w.p bytes).map fun http => { http := http, p := w.p + bytes.length }

/-- A text is copied with its zero, and the pointer stands on the zero. -/
def Writer.strcpy (w : Writer) (text : List UInt8) : Option Writer :=
  (put w.http w.p (text ++ [0])).map fun http => { http := http, p := w.p + text.length }

def entryStart : List UInt8 := bytesOf "\x7b\"ssid\":\""

def entryMid : List UInt8 := bytesOf "\",\"rssi\":"

def Writer.entry (w : Writer) (wn : BssInfo) : Option Writer :=
  (w.strcpy entryStart).bind fun w =>
    (w.emit (escapeSsid wn.field)).bind fun w =>
      (w.strcpy entryMid).bind fun w =>
        (w.strcpy (printInt wn.rssi.toInt)).bind fun w => w.emit [0x7D]

/-- The loop over the networks; only the first has no comma in front. -/
def entries : Bool → List BssInfo → Writer → Option Writer
  | _, [], w => some w
  | first, wn :: list, w =>
    (if first then some w else w.emit [0x2C]).bind fun w =>
      (w.entry wn).bind fun w => entries false list w

def headerStart : List UInt8 :=
  bytesOf "HTTP/1.1 200 OK\r\nConnection:close\r\nCache-control:no-cache\r\n" ++
    bytesOf "Content-type:application/json\r\n"

def scanHeader (bodySz : Nat) : List UInt8 :=
  headerStart ++ (bytesOf "Content-length:" ++ (printWidth 4 bodySz ++ bytesOf "\r\n\r\n"))

/-- The size of the format with its zero, a byte more for the number and one less for the zero. -/
def hdrSz : Nat :=
  (headerStart ++ bytesOf "Content-length:%4d\r\n\r\n").length + 1 + 1 - 1

/-- Room for an SSID with every byte escaped. -/
def maxEntrySz : Nat := (bytesOf "\x7b\"ssid\":\"\",\"rssi\":\x7d,").length + 1 + 2 * 32 + 6

def httpHeader500 : List UInt8 := bytesOf "HTTP/1.1 500 Internal Error\r\n\r\n"

/-- What the listeners are sent, where `mem` tells whether there is memory for it. `none` where
something outside the block is accessed. -/
def onScanDone (ok mem : Bool) (list : List BssInfo) : Option (List UInt8) :=
  if ok then
    if mem then
      let allocSz := (hdrSz + list.length * maxEntrySz + 3) % 2 ^ 32
      (entries true list { http := List.replicate allocSz 0, p := hdrSz + 1 }).bind fun w =>
        (w.emit [0x5D]).bind fun w =>
          let bodySz := w.p - hdrSz
          (put w.http 0 (scanHeader bodySz ++ [0])).bind fun http =>
            (put http hdrSz [0x5B]).bind fun http => slice http 0 (hdrSz + bodySz)
    else some httpHeader500
  else some httpHeader500

/-! ## What is to be sent -/

/-- A list of networks as a value. -/
def listValue (list : List BssInfo) : Value :=
  .array (list.map fun wn =>
    .object [(bytesOf "ssid", .string wn.ssid), (bytesOf "rssi", .int wn.rssi.toInt)])

/-- A header that counts the bytes of the body, and a body in JSON that is the list. -/
def Answers (list : List BssInfo) (sent : List UInt8) : Prop :=
  ∃ body, sent = scanHeader body.length ++ body ∧
    contentLength (scanHeader body.length) = some (body.length : Int) ∧
    IsUtf8 body ∧ decode body = some (listValue list)

/-- An SSID of text: in UTF-8 and without control bytes, the zero included. -/
def IsText (wn : BssInfo) : Prop := (∀ c ∈ wn.ssid, 0x20 ≤ c) ∧ IsUtf8 wn.ssid

def entryText (wn : BssInfo) : List UInt8 :=
  entryStart ++ (escapeSsid wn.field ++ (entryMid ++ (printInt wn.rssi.toInt ++ [0x7D])))

/-- The entries of the array behind its bracket, each with a comma in front but the first. -/
def entriesText : Bool → List BssInfo → List UInt8
  | _, [] => []
  | first, wn :: list =>
    (if first then [] else [0x2C]) ++ (entryText wn ++ entriesText false list)

def bodyText (list : List BssInfo) : List UInt8 := 0x5B :: (entriesText true list ++ [0x5D])

/-! ## Writing -/

theorem escapeSsid_append_zeros (text : List UInt8) (n : Nat) :
    escapeSsid (text ++ List.replicate n 0) = escape (cString text) := by
  induction text with
  | nil => cases n <;> rfl
  | cons c text ih =>
    rw [List.cons_append, escapeSsid]
    by_cases hc : c = 0
    · rw [if_pos hc, hc]
      rfl
    · have hcons : cString (c :: text) = c :: cString text :=
        List.takeWhile_cons_of_pos (bne_iff_ne.mpr hc)
      rw [if_neg hc, hcons, escape_cons, ih]
      split <;> rfl

theorem escapeSsid_field (wn : BssInfo) : escapeSsid wn.field = escape (cString wn.ssid) :=
  escapeSsid_append_zeros wn.ssid _

/-- The block begins with a text, and the pointer stands behind it. -/
structure Written (size : Nat) (done : List UInt8) (w : Writer) : Prop where
  p : w.p = done.length
  size : w.http.length = size
  http : ∃ rest, w.http = done ++ rest

section Writer

variable {size : Nat} {done : List UInt8} {w w' : Writer}

theorem put_written (h : Written size done w) (bytes : List UInt8)
    (hle : done.length + bytes.length ≤ size) :
    ∃ rest, put w.http w.p bytes = some (done ++ bytes ++ rest) := by
  obtain ⟨rest, hhttp⟩ := h.http
  have hsize := h.size
  rw [hhttp, List.length_append] at hsize
  refine ⟨rest.drop bytes.length, ?_⟩
  rw [hhttp, h.p, put_behind done rest bytes (by omega), List.append_assoc]

theorem emit_written (h : Written size done w) (bytes : List UInt8)
    (hle : done.length + bytes.length ≤ size) :
    ∃ w', w.emit bytes = some w' ∧ Written size (done ++ bytes) w' := by
  obtain ⟨rest, hput⟩ := put_written h bytes hle
  refine ⟨_, by rw [Writer.emit, hput]; rfl, ?_, ?_, rest, rfl⟩
  · rw [h.p, List.length_append]
  · rw [← h.size]
    exact put_length hput

theorem strcpy_written (h : Written size done w) (text : List UInt8)
    (hle : done.length + text.length < size) :
    ∃ w', w.strcpy text = some w' ∧ Written size (done ++ text) w' := by
  obtain ⟨rest, hput⟩ := put_written h (text ++ [0])
    (by rw [List.length_append, List.length_singleton]; omega)
  refine ⟨_, by rw [Writer.strcpy, hput]; rfl, ?_, ?_, 0 :: rest, ?_⟩
  · rw [h.p, List.length_append]
  · rw [← h.size]
    exact put_length hput
  · rw [← List.append_assoc, List.append_assoc, List.singleton_append]

theorem emit_p {bytes : List UInt8} (h : w.emit bytes = some w') :
    w'.p = w.p + bytes.length := by
  obtain ⟨http, -, rfl⟩ := Option.map_eq_some_iff.mp h
  rfl

theorem strcpy_p {text : List UInt8} (h : w.strcpy text = some w') :
    w'.p = w.p + text.length := by
  obtain ⟨http, -, rfl⟩ := Option.map_eq_some_iff.mp h
  rfl

theorem entryStart_length : entryStart.length = 9 := by decide

theorem entryMid_length : entryMid.length = 9 := by decide

theorem entryText_length (wn : BssInfo) : (entryText wn).length =
    19 + (escapeSsid wn.field).length + (printInt wn.rssi.toInt).length := by
  rw [entryText, List.length_append, List.length_append, List.length_append,
    List.length_append, List.length_singleton, entryStart_length, entryMid_length]
  omega

theorem entry_p {wn : BssInfo} (h : w.entry wn = some w') :
    w'.p = w.p + (entryText wn).length := by
  obtain ⟨w₁, h₁, h⟩ := Option.bind_eq_some_iff.mp h
  obtain ⟨w₂, h₂, h⟩ := Option.bind_eq_some_iff.mp h
  obtain ⟨w₃, h₃, h⟩ := Option.bind_eq_some_iff.mp h
  obtain ⟨w₄, h₄, h⟩ := Option.bind_eq_some_iff.mp h
  rw [emit_p h, strcpy_p h₄, strcpy_p h₃, emit_p h₂, strcpy_p h₁, entryText]
  simp only [List.length_append]
  omega

/-- The pointer moves by the text of the entries, wherever they are written. -/
theorem entries_p {first : Bool} {list : List BssInfo} (h : entries first list w = some w') :
    w'.p = w.p + (entriesText first list).length := by
  induction list generalizing first w with
  | nil =>
    obtain rfl := Option.some.inj h
    rfl
  | cons wn list ih =>
    rw [entries, Option.bind_eq_some_iff] at h
    obtain ⟨w₁, h₁, h⟩ := h
    obtain ⟨w₂, h₂, h⟩ := Option.bind_eq_some_iff.mp h
    have hcomma : w₁.p = w.p + (if first then [] else [0x2C] : List UInt8).length := by
      cases first with
      | false => exact emit_p h₁
      | true =>
        obtain rfl := Option.some.inj h₁
        rfl
    rw [ih h, entry_p h₂, hcomma, entriesText, List.length_append, List.length_append]
    omega

theorem entry_written (h : Written size done w) (wn : BssInfo)
    (hle : done.length + (entryText wn).length ≤ size) :
    ∃ w', w.entry wn = some w' ∧ Written size (done ++ entryText wn) w' := by
  have hstart := entryStart_length
  have hmid := entryMid_length
  rw [entryText_length] at hle
  obtain ⟨w₁, h₁, hw₁⟩ := strcpy_written h entryStart (by omega)
  obtain ⟨w₂, h₂, hw₂⟩ := emit_written hw₁ (escapeSsid wn.field)
    (by rw [List.length_append]; omega)
  obtain ⟨w₃, h₃, hw₃⟩ := strcpy_written hw₂ entryMid
    (by simp only [List.length_append]; omega)
  obtain ⟨w₄, h₄, hw₄⟩ := strcpy_written hw₃ (printInt wn.rssi.toInt)
    (by simp only [List.length_append]; omega)
  obtain ⟨w₅, h₅, hw₅⟩ := emit_written hw₄ [0x7D]
    (by simp only [List.length_append, List.length_singleton]; omega)
  refine ⟨w₅, ?_, ?_⟩
  · rw [Writer.entry, h₁, Option.bind_some, h₂, Option.bind_some, h₃, Option.bind_some, h₄,
      Option.bind_some, h₅]
  · rw [entryText]
    simp only [List.append_assoc] at hw₅
    exact hw₅

/-- The entries are written behind what is there, if there is room for their text. -/
theorem entries_written {first : Bool} (list : List BssInfo) (h : Written size done w)
    (hle : done.length + (entriesText first list).length ≤ size) :
    ∃ w', entries first list w = some w' ∧ Written size (done ++ entriesText first list) w' := by
  induction list generalizing first done w with
  | nil => exact ⟨w, rfl, by rw [entriesText, List.append_nil]; exact h⟩
  | cons wn list ih =>
    rw [entriesText, List.length_append, List.length_append] at hle
    have hcomma : ∃ w₁, (if first then some w else w.emit [0x2C]) = some w₁ ∧
        Written size (done ++ if first then [] else [0x2C]) w₁ := by
      cases first with
      | false =>
        simp only [Bool.false_eq_true, if_false, List.length_singleton] at hle
        exact emit_written h [0x2C] (by rw [List.length_singleton]; omega)
      | true => exact ⟨w, rfl, by rw [if_pos rfl, List.append_nil]; exact h⟩
    obtain ⟨w₁, h₁, hw₁⟩ := hcomma
    obtain ⟨w₂, h₂, hw₂⟩ := entry_written hw₁ wn (by rw [List.length_append]; omega)
    obtain ⟨w₃, h₃, hw₃⟩ : ∃ w', entries false list w₂ = some w' ∧ Written size _ w' :=
      ih hw₂ (by rw [List.length_append, List.length_append]; omega)
    refine ⟨w₃, ?_, ?_⟩
    · rw [entries, h₁, Option.bind_some, h₂, Option.bind_some, h₃]
    · rw [entriesText, ← List.append_assoc, ← List.append_assoc]
      exact hw₃

end Writer

/-! ## The sizes -/

theorem hdrSz_eq : hdrSz = 113 := by decide

theorem maxEntrySz_eq : maxEntrySz = 91 := by decide

theorem escapeSsid_length_le (src : List UInt8) : (escapeSsid src).length ≤ 2 * src.length := by
  induction src with
  | nil => exact Nat.le_refl _
  | cons c src ih =>
    rw [escapeSsid, List.length_cons]
    split
    · exact Nat.zero_le _
    · split
      · rw [List.length_cons, List.length_cons]
        omega
      · rw [List.length_cons]
        omega

theorem printInt_length_le (z : Int8) : (printInt z.toInt).length ≤ 4 := by
  have hlow : -128 ≤ z.toInt := z.le_toInt
  have hhigh : z.toInt < 128 := z.toInt_lt
  have hdigits : (toDecimal z.toInt.natAbs).length ≤ 3 :=
    (toDecimal_length_le (by decide)).mpr (by omega)
  rw [printInt]
  split
  · rw [List.length_cons]
    omega
  · omega

theorem entryText_length_le (wn : BssInfo) : (entryText wn).length ≤ 87 := by
  have hfield : wn.field.length = 32 := padded_length wn.ssid_le
  have hssid := escapeSsid_length_le wn.field
  have hrssi := printInt_length_le wn.rssi
  rw [entryText_length]
  omega

theorem entriesText_length_le (first : Bool) (list : List BssInfo) :
    (entriesText first list).length ≤ 88 * list.length := by
  induction list generalizing first with
  | nil => exact Nat.le_refl _
  | cons wn list ih =>
    have hentry := entryText_length_le wn
    have hrest := ih false
    rw [entriesText, List.length_append, List.length_append, List.length_cons]
    cases first with
    | false =>
      simp only [Bool.false_eq_true, if_false, List.length_singleton]
      omega
    | true =>
      simp only [if_true, List.length_nil]
      omega

theorem le_entriesText_length (first : Bool) (list : List BssInfo) :
    19 * list.length ≤ (entriesText first list).length := by
  induction list generalizing first with
  | nil => exact Nat.le_refl _
  | cons wn list ih =>
    have hrest := ih false
    rw [entriesText, List.length_append, List.length_append, List.length_cons, entryText_length]
    omega

theorem scanHeader_length (n : Nat) : (scanHeader n).length =
    109 + (printWidth 4 n).length := by
  have hstart : headerStart.length = 90 := by decide
  have hname : (bytesOf "Content-length:").length = 15 := by decide
  have hend : (bytesOf "\r\n\r\n").length = 4 := by decide
  rw [scanHeader, List.length_append, List.length_append, List.length_append]
  omega

theorem bodyText_length (list : List BssInfo) :
    (bodyText list).length = 2 + (entriesText true list).length := by
  rw [bodyText, List.length_cons, List.length_append, List.length_singleton]
  omega

/-! ## What is sent -/

/-- The bracket stands where the header should end, whatever the length of the body. -/
theorem bracket_of_sent {list : List BssInfo} {sent : List UInt8}
    (h : onScanDone true true list = some sent) :
    sent.length = hdrSz + (bodyText list).length ∧ sent[hdrSz]? = some 0x5B := by
  obtain ⟨w, hw, h⟩ := Option.bind_eq_some_iff.mp h
  obtain ⟨w', hw', h⟩ := Option.bind_eq_some_iff.mp h
  obtain ⟨http, -, h⟩ := Option.bind_eq_some_iff.mp h
  obtain ⟨http', hput, h⟩ := Option.bind_eq_some_iff.mp h
  have hp : w'.p - hdrSz = (bodyText list).length := by
    rw [emit_p hw', entries_p hw, bodyText_length, List.length_singleton]
    dsimp only
    omega
  rw [hp, slice, Option.ite_none_right_eq_some, Option.some.injEq, List.drop_zero] at h
  obtain ⟨hle, rfl⟩ := h
  rw [put, Option.ite_none_right_eq_some, Option.some.injEq] at hput
  obtain ⟨hroom, rfl⟩ := hput
  rw [List.length_singleton] at hroom
  have hpos := bodyText_length list
  refine ⟨by rw [List.length_take]; omega, ?_⟩
  rw [List.getElem?_take_of_lt (by omega), List.getElem?_append_right
    (by rw [List.length_take]; omega), List.length_take, Nat.min_eq_left (by omega),
    Nat.sub_self]
  rfl

/-- The header is written over the first bytes of the block, and the bracket over its zero. -/
theorem header_written (header tail zeros : List UInt8)
    (hzeros : zeros.length = header.length + 1) :
    ((put (zeros ++ tail) 0 (header ++ [0])).bind fun http => put http header.length [0x5B]) =
      some (header ++ 0x5B :: tail) := by
  have hfirst := put_behind [] (zeros ++ tail) (header ++ [0])
    (by rw [List.length_append, List.length_append, List.length_singleton]; omega)
  rw [List.nil_append, List.nil_append, List.length_nil, List.length_append,
    List.length_singleton, ← hzeros, List.drop_left, List.append_assoc, List.singleton_append]
    at hfirst
  have hsecond := put_behind header (0 :: tail) [0x5B]
    (Nat.succ_le_succ (Nat.zero_le _))
  rw [hfirst, Option.bind_some, hsecond]
  rfl

/-- A body of less than 10000 bytes is sent behind its header. -/
theorem onScanDone_eq {list : List BssInfo} (h : (bodyText list).length < 10000) :
    onScanDone true true list =
      some (scanHeader (bodyText list).length ++ bodyText list) := by
  have hle := le_entriesText_length true list
  have hge := entriesText_length_le true list
  have hbody := bodyText_length list
  have hheader : (scanHeader (bodyText list).length).length = hdrSz := by
    rw [scanHeader_length, printWidth_length_of_lt (by decide) h, hdrSz_eq]
  have halloc : (hdrSz + list.length * maxEntrySz + 3) % 2 ^ 32 =
      hdrSz + 1 + (list.length * 91 + 2) := by
    rw [hdrSz_eq, maxEntrySz_eq]
    omega
  have hstart : Written (hdrSz + 1 + (list.length * 91 + 2)) (List.replicate (hdrSz + 1) 0)
      { http := List.replicate (hdrSz + 1 + (list.length * 91 + 2)) 0, p := hdrSz + 1 } := by
    refine ⟨?_, ?_, List.replicate (list.length * 91 + 2) 0, ?_⟩
    · rw [List.length_replicate]
    · rw [List.length_replicate]
    · rw [List.replicate_append_replicate]
  obtain ⟨w, hw, hentries⟩ : ∃ w, entries true list _ = some w ∧ Written _ _ w :=
    entries_written list hstart (by rw [List.length_replicate]; omega)
  obtain ⟨w', hw', hend⟩ := emit_written hentries [0x5D]
    (by rw [List.length_append, List.length_replicate, List.length_singleton]; omega)
  obtain ⟨rest, hhttp⟩ := hend.http
  have hp : w'.p - hdrSz = (bodyText list).length := by
    rw [hend.p, List.length_append, List.length_append, List.length_replicate,
      List.length_singleton]
    omega
  have hwritten := header_written (scanHeader (bodyText list).length)
    (entriesText true list ++ [0x5D] ++ rest) (List.replicate (hdrSz + 1) 0)
    (by rw [List.length_replicate, hheader])
  rw [hheader, ← List.append_assoc, ← List.append_assoc, ← hhttp] at hwritten
  rw [onScanDone, if_pos rfl, if_pos rfl]
  simp only [halloc]
  rw [hw, Option.bind_some, hw', Option.bind_some]
  simp only [hp]
  rw [← Option.bind_assoc, hwritten, Option.bind_some, slice_of_le, List.drop_zero]
  · have hbehind : 0x5B :: (entriesText true list ++ [0x5D] ++ rest) = bodyText list ++ rest := by
      rw [bodyText, List.cons_append]
    rw [hbehind, ← List.append_assoc, List.take_left' (by rw [List.length_append, hheader])]
  · simp only [List.length_append, List.length_cons, List.length_nil, hheader]
    omega

/-- The header has no bracket. -/
theorem bracket_not_mem_scanHeader (n : Nat) : 0x5B ∉ scanHeader n := by
  have hstart : 0x5B ∉ headerStart := by decide +kernel
  have hname : 0x5B ∉ bytesOf "Content-length:" ∧ 0x5B ∉ bytesOf "\r\n\r\n" := by decide
  have hwidth : 0x5B ∉ printWidth 4 n := by
    rw [printWidth, List.mem_append, not_or]
    refine ⟨fun h => ?_, fun h => absurd (isDigit_of_mem_toDecimal h) (by decide)⟩
    exact absurd (List.eq_of_mem_replicate h) (by decide)
  rw [scanHeader]
  simp only [List.mem_append, not_or]
  exact ⟨hstart, hname.1, hwidth, hname.2⟩

/-- A body of 10000 bytes is not sent behind a header that ends in front of it. -/
theorem bodyText_lt_of_sent {list : List BssInfo} {body : List UInt8}
    (h : onScanDone true true list = some (scanHeader body.length ++ body)) :
    (bodyText list).length < 10000 := by
  obtain ⟨hlen, hbracket⟩ := bracket_of_sent h
  rw [List.length_append, hdrSz_eq, scanHeader_length] at hlen
  rw [hdrSz_eq] at hbracket
  by_cases hshort : body.length < 10000
  · rw [printWidth_length_of_lt (by decide) hshort] at hlen
    omega
  · have hwidth : 4 < (printWidth 4 body.length).length :=
      lt_printWidth_length (by decide) (Nat.not_lt.mp hshort)
    rw [List.getElem?_append_left (by rw [scanHeader_length]; omega)] at hbracket
    exact absurd (List.mem_of_getElem? hbracket) (bracket_not_mem_scanHeader _)

/-! ## What the body is -/

/-- The value of a network, with what is written of its SSID. -/
def entryValue (wn : BssInfo) : Value :=
  .object [(bytesOf "ssid", .string (cString wn.ssid)), (bytesOf "rssi", .int wn.rssi.toInt)]

/-- What is written of an SSID has no control byte. -/
def Plain (wn : BssInfo) : Prop := NoControl (cString wn.ssid)

instance (wn : BssInfo) : Decidable (Plain wn) :=
  inferInstanceAs (Decidable (NoControl (cString wn.ssid)))

theorem string_key (key : List UInt8) (rest : List UInt8) (hkey : escape key = key)
    (hplain : NoControl key) : string (key ++ 0x22 :: rest) = some (key, rest) := by
  have h := string_escape key rest
  rw [hkey, if_pos hplain] at h
  exact h

theorem printInt_head (z : Int) : ∃ c cs, printInt z = c :: cs ∧ c ≠ 0x22 ∧ c ≠ 0x5B ∧
    c ≠ 0x7B := by
  rw [printInt]
  split
  · exact ⟨0x2D, _, rfl, by decide, by decide, by decide⟩
  · obtain ⟨d, ds, hd⟩ := List.exists_cons_of_ne_nil (toDecimal_ne_nil z.natAbs)
    have hdigit : isDigit d = true := isDigit_of_mem_toDecimal (hd ▸ List.mem_cons_self)
    refine ⟨d, ds, hd, ?_, ?_, ?_⟩ <;> rintro rfl <;> exact absurd hdigit (by decide)

theorem value_printInt (n : Nat) (z : Int) (rest : List UInt8) :
    value (n + 1) (printInt z ++ 0x7D :: rest) = some (.int z, 0x7D :: rest) := by
  have hread := integer_printInt z (by decide : isDigit 0x7D = false) rest
  obtain ⟨c, cs, hz, hquote, hbracket, hbrace⟩ := printInt_head z
  rw [hz, List.cons_append] at hread ⊢
  rw [value, if_neg hquote, if_neg hbracket, if_neg hbrace, hread]
  rfl

theorem value_string (n : Nat) (text : List UInt8) :
    value (n + 1) (0x22 :: text) =
      (string text).map fun (bytes, rest) => (.string bytes, rest) := by
  rw [value, if_pos rfl]

/-- A member behind its opening quote, up to its value. -/
theorem members_key (n : Nat) (key text : List UInt8) (hkey : escape key = key)
    (hplain : NoControl key) :
    members (n + 1) (0x22 :: (key ++ 0x22 :: 0x3A :: text)) =
      (value n text).bind fun (v, rest) =>
        match rest with
        | [] => none
        | c :: rest =>
          if c = 0x7D then some ([(key, v)], rest)
          else if c = 0x2C then (members n rest).map fun (ms, rest) => ((key, v) :: ms, rest)
          else none := by
  rw [members, if_pos rfl, string_key key _ hkey hplain, Option.bind_some]
  exact if_pos rfl

theorem value_entryText (n : Nat) (wn : BssInfo) (rest : List UInt8) :
    value (n + 4) (entryText wn ++ rest) =
      if Plain wn then some (entryValue wn, rest) else none := by
  have htext : entryText wn ++ rest = 0x7B :: 0x22 :: (bytesOf "ssid" ++ 0x22 :: 0x3A :: 0x22 ::
      (escape (cString wn.ssid) ++ 0x22 :: 0x2C :: 0x22 :: (bytesOf "rssi" ++ 0x22 :: 0x3A ::
        (printInt wn.rssi.toInt ++ 0x7D :: rest)))) := by
    have hstart : entryStart = 0x7B :: 0x22 :: (bytesOf "ssid" ++ [0x22, 0x3A, 0x22]) := by decide
    have hmid : entryMid = 0x22 :: 0x2C :: 0x22 :: (bytesOf "rssi" ++ [0x22, 0x3A]) := by decide
    rw [entryText, hstart, hmid, escapeSsid_field]
    simp only [List.append_assoc, List.cons_append, List.nil_append]
  have hrssi : ∀ k, members (k + 2) (0x22 :: (bytesOf "rssi" ++ 0x22 :: 0x3A ::
      (printInt wn.rssi.toInt ++ 0x7D :: rest))) =
        some ([(bytesOf "rssi", .int wn.rssi.toInt)], rest) := by
    intro k
    rw [members_key (k + 1) _ _ (by decide) (by decide), value_printInt, Option.bind_some]
    exact if_pos rfl
  rw [htext, value, if_neg (by decide), if_neg (by decide), if_pos rfl,
    if_neg (by rw [List.head?_cons]; decide),
    members_key (n + 2) _ _ (by decide) (by decide), value_string, string_escape]
  change ((Option.map _ (if Plain wn then _ else none)).bind _).map _ = _
  by_cases hplain : Plain wn
  · rw [if_pos hplain, if_pos hplain, Option.map_some, Option.bind_some]
    dsimp only
    rw [if_neg (by decide), if_pos rfl, hrssi n]
    rfl
  · rw [if_neg hplain, if_neg hplain]
    rfl

theorem elements_entriesText (n : Nat) (wn : BssInfo) (list : List BssInfo) :
    elements (list.length + n + 5) (entryText wn ++ (entriesText false list ++ [0x5D])) =
      if ∀ x ∈ wn :: list, Plain x then some ((wn :: list).map entryValue, []) else none := by
  induction list generalizing wn with
  | nil =>
    rw [List.length_nil, Nat.zero_add, elements, value_entryText]
    by_cases hplain : Plain wn
    · rw [if_pos hplain, if_pos (List.forall_mem_singleton.mpr hplain)]
      rfl
    · rw [if_neg hplain, if_neg fun h => hplain (List.forall_mem_singleton.mp h)]
      rfl
  | cons wn' list ih =>
    have hfuel : (wn' :: list).length + n + 5 = list.length + n + 5 + 1 := by
      rw [List.length_cons]
      omega
    rw [hfuel, elements, show list.length + n + 5 = list.length + n + 1 + 4 by omega,
      value_entryText]
    by_cases hplain : Plain wn
    · have hcomma : entriesText false (wn' :: list) ++ [0x5D] =
          0x2C :: (entryText wn' ++ (entriesText false list ++ [0x5D])) := by
        rw [entriesText, List.append_assoc, List.append_assoc]
        rfl
      rw [if_pos hplain, Option.bind_some, hcomma]
      dsimp only
      rw [if_neg (by decide), if_pos rfl]
      rw [show list.length + n + 1 + 4 = list.length + n + 5 by omega, ih wn']
      by_cases hrest : ∀ x ∈ wn' :: list, Plain x
      · rw [if_pos hrest, if_pos (List.forall_mem_cons.mpr ⟨hplain, hrest⟩)]
        rfl
      · rw [if_neg hrest, if_neg fun h => hrest (List.forall_mem_cons.mp h).2]
        rfl
    · rw [if_neg hplain, if_neg fun h => hplain (List.forall_mem_cons.mp h).1]
      rfl

/-- The body is read as the list with what is written of each SSID. -/
theorem decode_bodyText (list : List BssInfo) : decode (bodyText list) =
    if ∀ wn ∈ list, Plain wn then some (.array (list.map entryValue)) else none := by
  cases list with
  | nil =>
    rw [if_pos fun _ h => absurd h List.not_mem_nil]
    rfl
  | cons wn list =>
    have hle := le_entriesText_length true (wn :: list)
    have hlen := bodyText_length (wn :: list)
    rw [List.length_cons] at hle
    obtain ⟨n, hn⟩ : ∃ n, (bodyText (wn :: list)).length = list.length + n + 5 :=
      ⟨(bodyText (wn :: list)).length - list.length - 5, by omega⟩
    have htext : entriesText true (wn :: list) ++ [0x5D] =
        entryText wn ++ (entriesText false list ++ [0x5D]) := by
      rw [entriesText, if_pos rfl, List.nil_append, List.append_assoc]
    have hhead : (entryText wn ++ (entriesText false list ++ [0x5D])).head? = some 0x7B := rfl
    rw [decode, hn, bodyText, htext, value, if_neg (by decide), if_pos rfl,
      if_neg (by rw [hhead]; decide), elements_entriesText]
    by_cases hplain : ∀ x ∈ wn :: list, Plain x
    · rw [if_pos hplain, if_pos hplain, Option.map_some, Option.bind_some]
      exact if_pos rfl
    · rw [if_neg hplain, if_neg hplain]
      rfl

theorem printInt_ascii (z : Int) : ∀ c ∈ printInt z, c < 0x80 := by
  have hdigit : ∀ n, ∀ c ∈ toDecimal n, c < 0x80 := by
    intro n c hc
    have h := isDigit_of_mem_toDecimal hc
    simp only [isDigit, Bool.and_eq_true, decide_eq_true_eq] at h
    exact UInt8.lt_of_le_of_lt h.2 (by decide)
  rw [printInt]
  split
  · rw [List.forall_mem_cons]
    exact ⟨by decide, hdigit _⟩
  · exact hdigit _

theorem entryText_utf8 (wn : BssInfo) (rest : List UInt8) :
    IsUtf8 (entryText wn ++ rest) ↔ IsUtf8 (cString wn.ssid) ∧ IsUtf8 rest := by
  have hstart : ∀ c ∈ entryStart, c < 0x80 := by decide +kernel
  have hmid : entryMid = 0x22 :: (bytesOf ",\"rssi\":") := by decide
  have hnext : ∀ c ∈ bytesOf ",\"rssi\":", c < 0x80 := by decide +kernel
  have hssid := isUtf8_append_escape [] (cString wn.ssid)
  rw [List.nil_append, List.nil_append] at hssid
  rw [entryText, escapeSsid_field, hmid]
  simp only [List.append_assoc, List.cons_append, List.nil_append]
  rw [isUtf8_ascii_append hstart, isUtf8_append_cons (by decide), hssid,
    isUtf8_ascii_append hnext, isUtf8_ascii_append (printInt_ascii _), isUtf8_cons (by decide)]

theorem entriesText_utf8 (first : Bool) (list : List BssInfo) (rest : List UInt8) :
    IsUtf8 (entriesText first list ++ rest) ↔
      (∀ wn ∈ list, IsUtf8 (cString wn.ssid)) ∧ IsUtf8 rest := by
  induction list generalizing first with
  | nil => exact (and_iff_right (List.forall_mem_nil _)).symm
  | cons wn list ih =>
    have hcomma : ∀ c ∈ (if first then [] else [0x2C] : List UInt8), c < 0x80 := by
      cases first <;> decide +kernel
    rw [entriesText, List.append_assoc, List.append_assoc, isUtf8_ascii_append hcomma,
      entryText_utf8, ih, List.forall_mem_cons, and_assoc]

theorem bodyText_utf8 (list : List BssInfo) :
    IsUtf8 (bodyText list) ↔ ∀ wn ∈ list, IsUtf8 (cString wn.ssid) := by
  rw [bodyText, isUtf8_cons (by decide), entriesText_utf8]
  exact and_iff_left ⟨[']'], by decide⟩

/-! ## When the list is sent -/

/-- The bytes of an entry: its frame, the SSID up to a zero with its escapes, and the number. -/
def entryLength (wn : BssInfo) : Nat :=
  19 + (cString wn.ssid).length + (cString wn.ssid).countP (fun c => c == 0x5C || c == 0x22) +
    (printInt wn.rssi.toInt).length

/-- The body has less than 10000 bytes, its brackets and commas included, and every SSID is a
text. -/
structure FitsList (list : List BssInfo) : Prop where
  short : 2 + (list.length - 1) + (list.map entryLength).sum < 10000
  text : ∀ wn ∈ list, IsText wn

theorem length_escape (bytes : List UInt8) :
    (escape bytes).length = bytes.length + bytes.countP (fun c => c == 0x5C || c == 0x22) := by
  induction bytes with
  | nil => rfl
  | cons c bytes ih =>
    rw [escape_cons, List.length_append, ih, List.length_cons, List.countP_cons]
    by_cases hc : c = 0x5C ∨ c = 0x22
    · have htrue : (c == 0x5C || c == 0x22) = true := by
        rw [Bool.or_eq_true, beq_iff_eq, beq_iff_eq]
        exact hc
      rw [if_pos hc, if_pos htrue, List.length_cons, List.length_singleton]
      omega
    · have hfalse : ¬(c == 0x5C || c == 0x22) = true := by
        rw [Bool.or_eq_true, beq_iff_eq, beq_iff_eq]
        exact hc
      rw [if_neg hc, if_neg hfalse, List.length_singleton]
      omega

theorem entriesText_length (first : Bool) (list : List BssInfo) :
    (entriesText first list).length =
      (if first then list.length - 1 else list.length) + (list.map entryLength).sum := by
  induction list generalizing first with
  | nil => cases first <;> rfl
  | cons wn list ih =>
    rw [entriesText, List.length_append, List.length_append, ih, entryText_length,
      escapeSsid_field, length_escape, List.map_cons, List.sum_cons, entryLength,
      List.length_cons]
    cases first with
    | false =>
      simp only [Bool.false_eq_true, if_false, List.length_singleton]
      omega
    | true =>
      simp only [Bool.false_eq_true, if_false, if_true, List.length_nil]
      omega

/-- What is sent as an answer has the body of the code, and that body is short. -/
theorem body_of_sent {list : List BssInfo} {body : List UInt8}
    (h : onScanDone true true list = some (scanHeader body.length ++ body)) :
    body = bodyText list ∧ (bodyText list).length < 10000 := by
  have hshort := bodyText_lt_of_sent h
  have hlen := (bracket_of_sent h).1
  rw [List.length_append, scanHeader_length, hdrSz_eq] at hlen
  have hbody : body.length < 10000 := by
    apply Nat.lt_of_not_le
    intro hle
    have hwidth : 4 < (printWidth 4 body.length).length := lt_printWidth_length (by decide) hle
    omega
  have hwidth : (printWidth 4 body.length).length = 4 :=
    printWidth_length_of_lt (by decide) hbody
  have heq : body.length = (bodyText list).length := by omega
  rw [onScanDone_eq hshort, Option.some.injEq, heq] at h
  exact ⟨(List.append_cancel_left h).symm, hshort⟩

theorem contentLength_scanHeader (n : Nat) : contentLength (scanHeader n) = some (n : Int) :=
  contentLength_printed (by decide +kernel) 4 n (by decide)

theorem entryValue_eq_iff (list : List BssInfo) :
    Value.array (list.map entryValue) = listValue list ↔
      ∀ wn ∈ list, cString wn.ssid = wn.ssid := by
  rw [listValue, Value.array.injEq, List.map_inj_left]
  constructor
  · intro h wn hwn
    have hvalue := h wn hwn
    rw [entryValue] at hvalue
    injection hvalue with hmembers
    injection hmembers with hssid
    injection hssid with _ hstring
    injection hstring
  · intro h wn hwn
    rw [entryValue, h wn hwn]

/-- The list is answered as it is exactly if its body is short and its SSIDs are texts. -/
theorem list_sent_iff (list : List BssInfo) :
    (∃ sent, onScanDone true true list = some sent ∧ Answers list sent) ↔ FitsList list := by
  have hlength : (bodyText list).length =
      2 + (list.length - 1) + (list.map entryLength).sum := by
    rw [bodyText_length, entriesText_length, if_pos rfl, Nat.add_assoc]
  constructor
  · rintro ⟨sent, hsent, body, rfl, -, hutf8, hdecode⟩
    obtain ⟨rfl, hshort⟩ := body_of_sent hsent
    rw [decode_bodyText, Option.ite_none_right_eq_some, Option.some.injEq,
      entryValue_eq_iff] at hdecode
    obtain ⟨hplain, hssid⟩ := hdecode
    rw [bodyText_utf8] at hutf8
    refine ⟨by rw [← hlength]; exact hshort, fun wn hwn => ⟨?_, ?_⟩⟩
    · have h := hplain wn hwn
      rw [Plain, hssid wn hwn] at h
      exact h
    · rw [← hssid wn hwn]
      exact hutf8 wn hwn
  · rintro ⟨hshort, htext⟩
    rw [← hlength] at hshort
    have hssid : ∀ wn ∈ list, cString wn.ssid = wn.ssid := by
      intro wn hwn
      rw [cString_eq_self]
      exact fun hzero => absurd ((htext wn hwn).1 0 hzero) (by decide)
    refine ⟨_, onScanDone_eq hshort, bodyText list, rfl, contentLength_scanHeader _, ?_, ?_⟩
    · rw [bodyText_utf8]
      intro wn hwn
      rw [hssid wn hwn]
      exact (htext wn hwn).2
    · rw [decode_bodyText, if_pos, (entryValue_eq_iff list).mpr hssid]
      intro wn hwn
      rw [Plain, hssid wn hwn]
      exact (htext wn hwn).1

/-- The line feed in an SSID is sent as it is, and no string of JSON holds one. -/
theorem list_not_sent :
    ¬∃ sent, onScanDone true true [⟨[0x61, 0x0A], by decide, -60⟩] = some sent ∧
      Answers [⟨[0x61, 0x0A], by decide, -60⟩] sent := by
  rintro ⟨sent, hsent, body, rfl, -, -, hdecode⟩
  obtain ⟨rfl, -⟩ := body_of_sent hsent
  rw [decode_bodyText, if_neg] at hdecode
  · cases hdecode
  · intro h
    exact absurd (h _ List.mem_cons_self) (by decide)

end NodeMcu.EnduserSetup.ScanList
