import NodeMcu.Lib.Search
import NodeMcu.Lib.Text

namespace NodeMcu.Http.Response

open NodeMcu.Lib.Search NodeMcu.Lib.Text

/-! ## Chunks -/

/-- Why a function does not return: it leaves its buffers, or it goes on forever. -/
inductive Stop
  | outside
  | endless
  deriving DecidableEq

def crlf : List UInt8 := bytesOf "\r\n"

def blankLine : List UInt8 := bytesOf "\r\n\r\n"

/-- The result of `strtoul` in an `int`. -/
def chunkSize (str : List UInt8) : Int := Int.bmod (strtoul16 str) (2 ^ 32)

/-- `endstr - (str + j)`; `none` where there is no line end. -/
def lineLength (str : List UInt8) : Option Nat :=
  (search crlf (cString str)).map fun endstr => (cString str).length - endstr.length

/-- The loop. `j` is where it reads, and `decodeSize` is what it has written. -/
def decodeChunks (chunked : List UInt8) :
    Nat → Nat → Nat → List UInt8 → Except Stop (Nat × List UInt8)
  | 0, _, _, _ => .error .endless
  | fuel + 1, j, decodeSize, decode =>
    let str := chunked.drop j
    -- the number and the line end are looked for up to a zero
    if 0 ∉ str then .error .outside
    else if chunkSize str ≤ 0 then .ok (j, decode)
    else
      match lineLength str with
      -- the null pointer is not checked, and the copy starts two bytes behind it
      | none => .error .outside
      | some ext =>
        let i := (chunkSize str).toNat
        let j := j + ext + 2
        if chunked.length < j + i ∨ decode.length < decodeSize + i then .error .outside
        else
          decodeChunks chunked fuel (j + i + 2) (decodeSize + i)
            (decode.take decodeSize ++ (chunked.drop j).take i ++ decode.drop (decodeSize + i))

def httpChunkedDecode (chunked decode : List UInt8) : Except Stop (Nat × List UInt8) :=
  decodeChunks chunked (chunked.length + 1) 0 0 decode

/-! ## The response -/

def bufferSizeMax : Nat := 0x2000

/-- A segment that is received, and whether there is memory for a new buffer. -/
structure Segment where
  buf : List UInt8
  malloc : Bool

/-- The buffer of `http_raw_request`, an empty string. -/
def initialBuffer : List UInt8 := [0]

def httpReceiveCallback (buffer : List UInt8) (s : Segment) : List UInt8 :=
  if bufferSizeMax < buffer.length + s.buf.length ∨ s.malloc = false then buffer.set 0 0
  else buffer.take (buffer.length - 1) ++ s.buf ++ [0]

/-- What the callback of the user is called with: the bytes from each pointer on to the end of its
buffer, and the status. -/
structure Delivery where
  body : List UInt8
  status : Int
  full : List UInt8
  deriving DecidableEq

def isHttp (buffer : List UInt8) : Bool :=
  (bytesOf "HTTP/1.0 ").isPrefixOf buffer || (bytesOf "HTTP/1.1 ").isPrefixOf buffer

def isChunked (buffer : List UInt8) : Bool :=
  (search (bytesOf "Transfer-Encoding: chunked") (cString buffer)).isSome

/-- The index of what is behind the blank line. -/
def bodyAt (buffer : List UInt8) : Option Nat :=
  (search blankLine (cString buffer)).map fun body => (cString buffer).length - body.length + 4

/-- The body, decoded in its place. Where there is none it is a literal, and its size the distance
of that literal to the buffer. -/
def decodeBody (status : Int) (buffer : List UInt8) : Except Stop Delivery :=
  match bodyAt buffer with
  | none => if isChunked buffer then .error .outside else .ok ⟨[0], status, buffer⟩
  | some i =>
    let body := buffer.drop i
    if isChunked buffer then
      match httpChunkedDecode body (List.replicate body.length 0) with
      | .error stop => .error stop
      | .ok (_, decoded) => .ok ⟨decoded, status, buffer.take i ++ decoded⟩
    else .ok ⟨body, status, buffer⟩

def httpDisconnectCallback (overflow : Int) (buffer : List UInt8) : Except Stop Delivery :=
  if buffer.head? = some 0 then .ok ⟨[0], -1, buffer⟩
  else if isHttp buffer then decodeBody (atoi overflow (buffer.drop 9)) buffer
  else .ok ⟨[0], -1, buffer⟩

end NodeMcu.Http.Response
