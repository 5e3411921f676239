import NodeMcu.Coap.Codec
import NodeMcu.Lib.Text

namespace NodeMcu.Coap.Endpoints

open NodeMcu.Lib.Text NodeMcu.Lib.Memory NodeMcu.Coap.Codec

/-! ## Responses -/

/-- The first options with a number that stand together. -/
def findOptions (pkt : Packet) (num : UInt8) : List Opt :=
  (pkt.opts.dropWhile fun opt => opt.num != num).takeWhile fun opt => opt.num == num

def rspcodeContent : UInt8 := 69

def rspcodeNotFound : UInt8 := 132

def contenttypeNone : Int := -1

def contenttypeTextPlain : Int := 0

/-- Its only option is the content format. -/
structure Response where
  hdr : Header
  tok : Buffer
  contentFormat : List UInt8
  payload : List UInt8

def makeResponse (scratch : Nat) (content : List UInt8) (id : UInt8 × UInt8) (tok : Buffer)
    (rspcode : UInt8) (contentType : Int) : Except Err Response :=
  if scratch < 2 then .error .bufferTooSmall
  else .ok
    { hdr := ⟨1, 2, tok.len.toUInt8, rspcode, id⟩
      tok := tok
      contentFormat := bigEndian 2 (contentType % 2 ^ 16).toNat
      payload := content }

/-! ## Variables and functions -/

/-- A value as far as the handlers look at it. A number comes with the text that it turns into. -/
inductive Value
  | nil
  | boolean (b : Bool)
  | number (text : List UInt8)
  | string (bytes : List UInt8)
  | table
  | function (f : Nat)
  | other

/-- The text of a string or a number. -/
def Value.text : Value → Option (List UInt8)
  | .number text => some text
  | .string bytes => some bytes
  | _ => none

/-- The interpreter with its state, in which a look at a global and a call go on to the next one. -/
structure Lua (σ : Type) where
  getglobal : σ → List UInt8 → Value × σ
  call : σ → Nat → List UInt8 → Value × σ

/-- What is registered under a name, which is a string of C. -/
structure LuserEntry where
  hasL : Bool
  name : List UInt8
  contentType : Int
  noNul : 0 ∉ name

/-- A handler comes back with a response, or an error of Lua is raised. -/
inductive Ending
  | reply (response : Except Err Response)
  | raised

/-- The state of Lua, and how often a function was called. -/
structure World (σ : Type) where
  lua : σ
  calls : Nat

def maxPayloadSize : Nat := 1024

def pathCount : Nat := 2

section Handlers

variable {σ : Type}

/-- The loop over the entries. It stays at an entry that has been visited and has given no
response. -/
def scan (visit : LuserEntry → World σ → Option Ending × World σ) (gone missed : Ending)
    (opt : List UInt8) : Nat → List LuserEntry → World σ → Option (Ending × World σ)
  | 0, _, _ => none
  | _ + 1, [], w => some (missed, w)
  | fuel + 1, h :: hs, w =>
    if opt.length ≠ h.name.length then scan visit gone missed opt fuel hs w
    else if h.name = opt then
      if !h.hasL then some (gone, w)
      else if h.name.length ≠ 0 then
        match visit h w with
        | (some ending, w) => some (ending, w)
        | (none, w) => scan visit gone missed opt fuel (h :: hs) w
      else scan visit gone missed opt fuel (h :: hs) w
    else scan visit gone missed opt fuel hs w

def getVariable (lua : Lua σ) (respond : List UInt8 → UInt8 → Int → Ending) (h : LuserEntry)
    (w : World σ) : Option Ending × World σ :=
  let r := lua.getglobal w.lua h.name
  match r.1.text with
  | none => (some (respond [] rspcodeNotFound contenttypeNone), { w with lua := r.2 })
  | some res => (some (respond (cString res) rspcodeContent h.contentType), { w with lua := r.2 })

/-- What comes of the value that the function has returned. -/
def returned (respond : List UInt8 → UInt8 → Int → Ending) : Value → Option Ending
  | .nil => some (respond [] rspcodeContent contenttypeTextPlain)
  | value =>
    match value.text with
    | none => none
    | some ret =>
      if maxPayloadSize < ret.length then some .raised
      else some (respond ret rspcodeContent contenttypeTextPlain)

def postFunction (lua : Lua σ) (payload : List UInt8)
    (respond : List UInt8 → UInt8 → Int → Ending) (h : LuserEntry) (w : World σ) :
    Option Ending × World σ :=
  let r := lua.getglobal w.lua h.name
  match r.1 with
  | .function f =>
    let r := lua.call r.2 f payload
    (returned respond r.1, ⟨r.2, w.calls + 1⟩)
  | _ => (some (respond [] rspcodeNotFound contenttypeNone), { w with lua := r.2 })

/-- The name behind the path of the endpoint. -/
def lastOption (opt : List Opt) : List UInt8 := opt.getLast?.elim [] fun last => last.buf.bytes

variable (lua : Lua σ) (entries : List LuserEntry) (scratch : Nat) (inpkt : Packet)
  (id : UInt8 × UInt8) (fuel : Nat) (w : World σ)

def handleGetVariable : Option (Ending × World σ) :=
  let respond := fun content code contentType =>
    Ending.reply (makeResponse scratch content id inpkt.tok code contentType)
  let missed := respond [] rspcodeContent contenttypeTextPlain
  let opt := findOptions inpkt uriPath
  if opt = [] then some (missed, w)
  else if opt.length ≠ pathCount ∧ opt.length ≠ pathCount + 1 then some (missed, w)
  else if opt.length = pathCount + 1 then
    scan (getVariable lua respond) (respond [] rspcodeNotFound contenttypeNone) missed
      (lastOption opt) fuel entries w
  else some (missed, w)

def handlePostFunction : Option (Ending × World σ) :=
  let respond := fun content code contentType =>
    Ending.reply (makeResponse scratch content id inpkt.tok code contentType)
  let missed := respond [] rspcodeNotFound contenttypeNone
  let opt := findOptions inpkt uriPath
  if opt = [] then some (missed, w)
  else if opt.length ≠ pathCount ∧ opt.length ≠ pathCount + 1 then some (missed, w)
  else if opt.length = pathCount + 1 then
    scan (postFunction lua inpkt.payload.bytes respond)
      (respond [] rspcodeNotFound contenttypeNone) missed (lastOption opt) fuel entries w
  else some (missed, w)

end Handlers

end NodeMcu.Coap.Endpoints
