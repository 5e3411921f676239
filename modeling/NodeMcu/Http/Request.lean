import NodeMcu.Lib.Text

namespace NodeMcu.Http.Request

open NodeMcu.Lib.Text

/-! ## The URL -/

/-- What a request is made of. The strings are those of C, without their zeros. -/
structure RequestArgs where
  hostname : List UInt8
  port : Int
  secure : Bool
  method : List UInt8
  path : List UInt8
  headers : Option (List UInt8)
  postData : Option (List UInt8)

def hostnameSize : Nat := 128

section HttpRequest

variable (overflow : Int) (method : List UInt8) (headers postData : Option (List UInt8))

/-- What follows the protocol. A colon counts only in front of the path. -/
def splitUrl (port : Int) (secure : Bool) (url : List UInt8) : Option RequestArgs :=
  let host := url.takeWhile (· != 0x2F)
  let path := url.dropWhile (· != 0x2F)
  if hostnameSize ≤ host.length then none
  else
    let path := if path = [] then [0x2F] else path
    if 0x3A ∈ host then
      let port := atoi overflow (url.dropWhile (· != 0x3A)).tail
      if port = 0 then none
      else some ⟨url.takeWhile (· != 0x3A), port, secure, method, path, headers, postData⟩
    else some ⟨host, port, secure, method, path, headers, postData⟩

def httpRequest (url : List UInt8) : Option RequestArgs :=
  if (bytesOf "http://").isPrefixOf url then
    splitUrl overflow method headers postData 80 false (url.drop 7)
  else if (bytesOf "https://").isPrefixOf url then
    splitUrl overflow method headers postData 443 true (url.drop 8)
  else none

end HttpRequest

/-! ## The header -/

/-- A length is printed as an `int`. -/
def postHeaders (req : RequestArgs) : List UInt8 :=
  req.postData.elim [] fun data =>
    bytesOf "Content-Length: " ++ printInt (Int.bmod data.length (2 ^ 32)) ++ bytesOf "\r\n"

def postHeadersSize : Nat := 32

def bufferSize (req : RequestArgs) : Nat :=
  69 + req.method.length + req.path.length + req.hostname.length +
    (req.headers.getD []).length + (postHeaders req).length

/-- The text that is printed. -/
def requestHeader (req : RequestArgs) : List UInt8 :=
  req.method ++ bytesOf " " ++ req.path ++ bytesOf " HTTP/1.1\r\n" ++
    (bytesOf "Host: " ++ req.hostname ++ bytesOf ":" ++ printInt req.port ++ bytesOf "\r\n") ++
    bytesOf "Connection: close\r\n" ++ bytesOf "User-Agent: ESP8266\r\n" ++
    req.headers.getD [] ++ postHeaders req ++ bytesOf "\r\n"

/-! ## The sizes -/

theorem printInt_length_le {k : Nat} (hk : 0 < k) (z : Int) :
    (printInt z).length ≤ k + 1 ↔ -(10 ^ k : Nat) < z ∧ z < (10 ^ (k + 1) : Nat) := by
  rw [printInt]
  split
  · rw [List.length_cons, Nat.succ_le_succ_iff, toDecimal_length_le hk]
    have hpos : 0 < 10 ^ (k + 1) := Nat.pow_pos (by decide)
    omega
  · rw [toDecimal_length_le (Nat.succ_pos k)]
    have hpos : 0 < 10 ^ k := Nat.pow_pos (by decide)
    omega

theorem postHeaders_fits (req : RequestArgs) : (postHeaders req).length + 1 ≤ postHeadersSize := by
  rw [postHeaders]
  cases req.postData with
  | none => decide
  | some data =>
    have hprinted : (printInt (Int.bmod data.length (2 ^ 32))).length ≤ 11 := by
      have hlt := Int.bmod_lt (x := data.length) (m := 2 ^ 32) (by decide)
      have hle := Int.le_bmod (x := data.length) (m := 2 ^ 32) (by decide)
      rw [printInt_length_le (by decide)]
      omega
    have hname : (bytesOf "Content-Length: ").length = 16 := by decide
    have hend : (bytesOf "\r\n").length = 2 := by decide
    change (bytesOf "Content-Length: " ++ _ ++ bytesOf "\r\n").length + 1 ≤ 32
    rw [List.length_append, List.length_append, hname, hend]
    omega

theorem requestHeader_length (req : RequestArgs) :
    (requestHeader req).length + 6 = bufferSize req + (printInt req.port).length := by
  have hversion : (bytesOf " HTTP/1.1\r\n").length = 11 := by decide
  have hspace : (bytesOf " ").length = 1 := by decide
  have hhost : (bytesOf "Host: ").length = 6 := by decide
  have hcolon : (bytesOf ":").length = 1 := by decide
  have hend : (bytesOf "\r\n").length = 2 := by decide
  have hconnection : (bytesOf "Connection: close\r\n").length = 19 := by decide
  have hagent : (bytesOf "User-Agent: ESP8266\r\n").length = 21 := by decide
  rw [requestHeader, bufferSize]
  simp only [List.length_append, hversion, hspace, hhost, hcolon, hend, hconnection, hagent]
  omega

/-- The five characters for the port are all that the header has room for. -/
theorem header_fits {req : RequestArgs} :
    (requestHeader req).length + 1 ≤ bufferSize req ↔ -9999 ≤ req.port ∧ req.port ≤ 99999 := by
  have hlength := requestHeader_length req
  have hprinted := printInt_length_le (k := 4) (by decide) req.port
  omega

/-! ## The port of a URL -/

def afterProtocol (url : List UInt8) : List UInt8 :=
  url.drop (if (bytesOf "http://").isPrefixOf url then 7 else 8)

/-- What is written behind a colon in front of the path. -/
def portText (url : List UInt8) : Option (List UInt8) :=
  if 0x3A ∈ (afterProtocol url).takeWhile (· != 0x2F)
  then some ((afterProtocol url).dropWhile (· != 0x3A)).tail
  else none

section Port

variable {overflow : Int} {method : List UInt8} {headers postData : Option (List UInt8)}
  {req : RequestArgs}

theorem splitUrl_port {port : Int} {secure : Bool} {url : List UInt8}
    (h : splitUrl overflow method headers postData port secure url = some req) :
    req.port = (if 0x3A ∈ url.takeWhile (· != 0x2F)
      then atoi overflow (url.dropWhile (· != 0x3A)).tail else port) := by
  rw [splitUrl] at h
  dsimp only at h
  split at h
  · cases h
  split at h
  · rename_i hcolon
    split at h
    · cases h
    · cases h
      rw [if_pos hcolon]
  · rename_i hcolon
    cases h
    rw [if_neg hcolon]

theorem httpRequest_port {url : List UInt8}
    (h : httpRequest overflow method headers postData url = some req) :
    (∃ s ∈ portText url, req.port = atoi overflow s) ∨
      portText url = none ∧ (req.port = 80 ∨ req.port = 443) := by
  rw [httpRequest] at h
  have hsplit : ∃ port secure, (port = 80 ∨ port = 443) ∧
      splitUrl overflow method headers postData port secure (afterProtocol url) = some req := by
    split at h
    · rename_i hhttp
      exact ⟨80, false, .inl rfl, by rw [afterProtocol, if_pos hhttp]; exact h⟩
    · rename_i hhttp
      split at h
      · exact ⟨443, true, .inr rfl, by rw [afterProtocol, if_neg hhttp]; exact h⟩
      · cases h
  obtain ⟨port, secure, hport, hsplit⟩ := hsplit
  have hreq := splitUrl_port hsplit
  rw [portText]
  by_cases hcolon : 0x3A ∈ (afterProtocol url).takeWhile (· != 0x2F)
  · rw [if_pos hcolon] at hreq ⊢
    exact .inl ⟨_, rfl, hreq⟩
  · rw [if_neg hcolon] at hreq ⊢
    exact .inr ⟨rfl, hreq ▸ hport⟩

end Port

/-- A header fits into its buffer if and only if the port, where the URL gives one, is printed with
at most five characters. -/
theorem header_fits_iff (overflow : Int) (method : List UInt8)
    (headers postData : Option (List UInt8)) {url : List UInt8} {req : RequestArgs}
    (h : httpRequest overflow method headers postData url = some req) :
    (requestHeader req).length + 1 ≤ bufferSize req ↔
      ∀ s ∈ portText url, -9999 ≤ atoi overflow s ∧ atoi overflow s ≤ 99999 := by
  rw [header_fits]
  obtain ⟨s, hs, hport⟩ | ⟨hnone, hport⟩ := httpRequest_port h
  · rw [hport]
    refine ⟨fun hle s' hs' => ?_, fun hall => hall s hs⟩
    cases hs.symm.trans hs'
    exact hle
  · refine iff_of_true (by omega) fun s hs => ?_
    rw [hnone] at hs
    cases hs

def highestPort : RequestArgs := ⟨bytesOf "h", 65535, false, bytesOf "GET", bytesOf "/", none, none⟩

theorem highestPort_fits : (requestHeader highestPort).length + 1 ≤ bufferSize highestPort := by
  have h : httpRequest 0 (bytesOf "GET") none none (bytesOf "http://h:65535/") =
    some highestPort := by rfl
  have hport : portText (bytesOf "http://h:65535/") = some (bytesOf "65535/") := by rfl
  refine (header_fits_iff 0 _ _ _ h).mpr fun s hs => ?_
  cases hport.symm.trans hs
  decide

def longPort : RequestArgs := ⟨bytesOf "h", 100000, false, bytesOf "GET", bytesOf "/", none, none⟩

theorem longPort_not_fits :
    httpRequest 0 (bytesOf "GET") none none (bytesOf "http://h:100000/") = some longPort ∧
      ¬(requestHeader longPort).length + 1 ≤ bufferSize longPort := by
  have hport : ¬(-9999 ≤ longPort.port ∧ longPort.port ≤ 99999) := by decide
  exact ⟨rfl, mt header_fits.mp hport⟩

end NodeMcu.Http.Request
